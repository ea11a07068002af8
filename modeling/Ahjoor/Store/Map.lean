import Mathlib.Data.List.AList

/-!
# Maps that are filled in a loop

A `Map` holds one value for each of its keys, and its entries can be enumerated. Two loops occur:
one that changes the value of a key where there is one (`modify`), and one that counts how often
each key occurs (`tally`). What a map holds in the end is stated by its `lookup`, in which the
order of the entries does not show; so is the largest value (`maximum_le`).
-/

namespace Store

variable {κ α β : Type} [DecidableEq κ]

/-- A map from keys to values. -/
abbrev Map (κ α : Type) : Type := AList fun _ : κ => α

namespace Map

/-- Change the value of a key, if it has one. -/
def modify (m : Map κ α) (key : κ) (f : α → α) : Map κ α :=
  match m.lookup key with
  | some a => m.insert key (f a)
  | none => m

theorem lookup_insert_eq (m : Map κ α) (key k : κ) (a : α) :
    (m.insert key a).lookup k = if k = key then some a else m.lookup k := by
  split
  next h => rw [h, AList.lookup_insert]
  next h => exact AList.lookup_insert_ne h

theorem lookup_modify (m : Map κ α) (key k : κ) (f : α → α) :
    (m.modify key f).lookup k = if k = key then (m.lookup k).map f else m.lookup k := by
  unfold modify
  split
  next a h =>
    rw [lookup_insert_eq]
    split
    next hk => rw [hk, h, Option.map_some]
    next => rfl
  next h =>
    split
    next hk => rw [hk, h, Option.map_none]
    next => rfl

/-- A loop that changes the value under the key of each element changes the value under one key by
the elements that have it. -/
theorem lookup_foldl_modify (key : β → κ) (f : β → α → α) (xs : List β) (m : Map κ α) (k : κ) :
    (xs.foldl (fun m x => m.modify (key x) (f x)) m).lookup k =
      (m.lookup k).map fun a => (xs.filter fun x => key x = k).foldl (fun a x => f x a) a := by
  induction xs generalizing m with
  | nil => exact Option.map_id'.symm
  | cons x xs ih =>
    rw [List.foldl_cons, ih, lookup_modify]
    by_cases hk : key x = k
    · have hfilter : (x :: xs).filter (fun x => key x = k) = x :: xs.filter fun x => key x = k :=
        List.filter_cons_of_pos (decide_eq_true hk)
      rw [if_pos hk.symm, Option.map_map, hfilter]
      rfl
    · have hfilter : (x :: xs).filter (fun x => key x = k) = xs.filter fun x => key x = k :=
        List.filter_cons_of_neg (by rwa [decide_eq_true_eq])
      rw [if_neg fun h => hk h.symm, hfilter]

/-- The entry of a key. -/
theorem filter_entries (m : Map κ α) (k : κ) :
    (m.entries.filter fun e => e.1 = k) = (m.lookup k).toList.map (Sigma.mk k) := by
  obtain ⟨entries, hkeys⟩ := m
  change (entries.filter fun e => e.1 = k) = (entries.dlookup k).toList.map (Sigma.mk k)
  induction entries with
  | nil => rfl
  | cons e entries ih =>
    obtain ⟨k', a⟩ := e
    obtain ⟨hnew, hrest⟩ := List.nodupKeys_cons.mp hkeys
    by_cases hk : k' = k
    · subst hk
      have hnone : entries.dlookup k' = none := List.dlookup_eq_none.mpr hnew
      rw [List.filter_cons, if_pos (decide_eq_true rfl), ih hrest, hnone, List.dlookup_cons_eq]
      rfl
    · rw [List.filter_cons, if_neg (by simpa using hk), ih hrest,
        List.dlookup_cons_ne _ _ (Ne.symm hk)]

/-- A loop that gives each key the same value. -/
theorem lookup_foldl_insert (ks : List κ) (a : α) (m : Map κ α) (k : κ) :
    (ks.foldl (fun m k => m.insert k a) m).lookup k =
      if k ∈ ks then some a else m.lookup k := by
  induction ks generalizing m with
  | nil => rfl
  | cons k' ks ih =>
    rw [List.foldl_cons, ih, lookup_insert_eq]
    by_cases hmem : k ∈ ks
    · rw [if_pos hmem, if_pos (List.mem_cons_of_mem k' hmem)]
    · simp only [List.mem_cons, hmem, or_false, if_false]

/-! ### Counting -/

/-- `map.set(key, (map.get(key) ?? 0) + 1)`. -/
def bump (m : Map κ ℕ) (key : κ) : Map κ ℕ := m.insert key ((m.lookup key).getD 0 + 1)

/-- How often each key occurs. -/
def tally (keys : List κ) : Map κ ℕ := keys.foldl bump ∅

theorem lookup_foldl_bump (keys : List κ) (m : Map κ ℕ) (k : κ) :
    ((keys.foldl bump m).lookup k).getD 0 = (m.lookup k).getD 0 + keys.count k := by
  induction keys generalizing m with
  | nil => rfl
  | cons key keys ih =>
    rw [List.foldl_cons, ih, bump, lookup_insert_eq, List.count_cons]
    split
    next h =>
      rw [h, beq_self_eq_true, if_pos rfl, Option.getD_some]
      omega
    next h => rw [beq_eq_false_iff_ne.mpr (Ne.symm h), if_neg Bool.false_ne_true, Nat.add_zero]

/-- **A tally counts.** -/
theorem lookup_tally (keys : List κ) (k : κ) :
    ((tally keys).lookup k).getD 0 = keys.count k := by
  rw [tally, lookup_foldl_bump, AList.lookup_empty, Option.getD_none, Nat.zero_add]

/-- `Math.max(0, ...map.values())`. -/
def maximum (m : Map κ ℕ) : ℕ := (m.entries.map Sigma.snd).foldr max 0

theorem foldr_max_le (ns : List ℕ) (b : ℕ) : ns.foldr max 0 ≤ b ↔ ∀ n ∈ ns, n ≤ b := by
  induction ns with
  | nil => simp
  | cons n ns ih => rw [List.foldr_cons, Nat.max_le, ih, List.forall_mem_cons]

theorem maximum_le (m : Map κ ℕ) (b : ℕ) : m.maximum ≤ b ↔ ∀ k, (m.lookup k).getD 0 ≤ b := by
  rw [maximum, foldr_max_le]
  constructor
  · intro h k
    cases hk : m.lookup k with
    | none => exact Nat.zero_le b
    | some n => exact h n (List.mem_map.mpr ⟨⟨k, n⟩, AList.mem_lookup_iff.mp hk, rfl⟩)
  · intro h n hn
    obtain ⟨⟨k, n'⟩, hmem, rfl⟩ := List.mem_map.mp hn
    have hk : m.lookup k = some n' := AList.mem_lookup_iff.mpr hmem
    have hle := h k
    rwa [hk] at hle

/-- The largest count does not depend on the order of the keys. -/
theorem maximum_tally_perm {keys keys' : List κ} (h : keys.Perm keys') :
    (tally keys).maximum = (tally keys').maximum := by
  have hle : ∀ b, (tally keys).maximum ≤ b ↔ (tally keys').maximum ≤ b := fun b => by
    simp only [maximum_le, lookup_tally, h.count_eq]
  exact Nat.le_antisymm ((hle _).mpr le_rfl) ((hle _).mp le_rfl)

end Map

end Store
