import Mathlib.Data.List.Nodup
import Mathlib.Data.List.Sort

/-!
# Maps in the order of insertion

A map is its entries, oldest first, and no key is there twice. A key that is set again keeps its
place. What a map holds is stated by `get`; the order shows only where entries are sorted by a value
on which they may tie (`insertionSort_concat`).
-/

namespace Store

variable {κ α : Type}

/-- A map from keys to values that is enumerated in the order of insertion. -/
structure OrderedMap (κ α : Type) where
  entries : List (κ × α)
  nodup : (entries.map Prod.fst).Nodup

namespace OrderedMap

/-- The empty map. -/
def empty : OrderedMap κ α := ⟨[], List.nodup_nil⟩

/-- `map.size`. -/
def size (m : OrderedMap κ α) : ℕ := m.entries.length

/-- Keep some of the entries. -/
def filter (m : OrderedMap κ α) (p : κ × α → Bool) : OrderedMap κ α :=
  ⟨m.entries.filter p, m.nodup.sublist (List.filter_sublist.map Prod.fst)⟩

theorem size_eq_length_keys (m : OrderedMap κ α) : m.size = (m.entries.map Prod.fst).length :=
  (List.length_map _).symm

theorem size_filter_le (m : OrderedMap κ α) (p : κ × α → Bool) : (m.filter p).size ≤ m.size :=
  List.length_filter_le _ _

variable [DecidableEq κ]

/-- `map.get(key)`. -/
def get (m : OrderedMap κ α) (key : κ) : Option α :=
  (m.entries.find? fun e => e.1 = key).map Prod.snd

/-- The entries after a value has been set: in its place, or at the end. -/
def setEntries (key : κ) (value : α) : List (κ × α) → List (κ × α)
  | [] => [(key, value)]
  | e :: entries => if e.1 = key then (key, value) :: entries else e :: setEntries key value entries

theorem keys_setEntries (key : κ) (value : α) (entries : List (κ × α)) :
    (setEntries key value entries).map Prod.fst =
      if key ∈ entries.map Prod.fst then entries.map Prod.fst
      else entries.map Prod.fst ++ [key] := by
  induction entries with
  | nil => rfl
  | cons e entries ih =>
    by_cases h : e.1 = key
    · subst h
      simp [setEntries]
    · have hne : key ≠ e.1 := fun heq => h heq.symm
      rw [setEntries, if_neg h, List.map_cons, ih, List.map_cons]
      simp only [List.mem_cons, hne, false_or, List.cons_append]
      split <;> rfl

/-- `map.set(key, value)`. -/
def set (m : OrderedMap κ α) (key : κ) (value : α) : OrderedMap κ α :=
  ⟨setEntries key value m.entries, by
    rw [keys_setEntries]
    split
    · exact m.nodup
    next h =>
      exact List.nodup_append.mpr ⟨m.nodup, List.nodup_singleton key,
        fun a ha b hb heq => h (List.mem_singleton.mp hb ▸ heq ▸ ha)⟩⟩

/-- `map.delete(key)`. -/
def delete (m : OrderedMap κ α) (key : κ) : OrderedMap κ α := m.filter fun e => e.1 ≠ key

/-- Delete some keys, one after the other. -/
def deleteAll (m : OrderedMap κ α) (keys : List κ) : OrderedMap κ α := keys.foldl delete m

/-! ### What a map holds -/

section Get

variable {m : OrderedMap κ α} {key k : κ} {value a : α}

theorem get_eq_some : m.get key = some a ↔ (key, a) ∈ m.entries := by
  constructor
  · intro h
    obtain ⟨e, he, rfl⟩ := Option.map_eq_some_iff.mp h
    obtain rfl : e.1 = key := by simpa using List.find?_some he
    exact List.mem_of_find?_eq_some he
  · intro h
    cases hfound : m.entries.find? fun e => e.1 = key with
    | none => simpa using List.find?_eq_none.mp hfound _ h
    | some e =>
      have hkey : e.1 = key := by simpa using List.find?_some hfound
      have he := List.mem_of_find?_eq_some hfound
      obtain rfl : e = (key, a) := List.inj_on_of_nodup_map m.nodup he h hkey
      rw [get, hfound, Option.map_some]

theorem mem_keys : key ∈ m.entries.map Prod.fst ↔ ∃ a, m.get key = some a := by
  simp only [get_eq_some, List.mem_map, Prod.exists, exists_and_right, exists_eq_right]

theorem get_eq_none : m.get key = none ↔ key ∉ m.entries.map Prod.fst := by
  rw [mem_keys, ← Option.isSome_iff_exists, Bool.not_eq_true, Option.isSome_eq_false_iff,
    Option.isNone_iff_eq_none]

@[simp] theorem get_empty (key : κ) : (empty : OrderedMap κ α).get key = none := rfl

theorem mem_setEntries {entries : List (κ × α)} (hnodup : (entries.map Prod.fst).Nodup) :
    (k, a) ∈ setEntries key value entries ↔ if k = key then a = value else (k, a) ∈ entries := by
  induction entries with
  | nil => by_cases h : k = key <;> simp [setEntries, h]
  | cons e entries ih =>
    obtain ⟨hnew, hrest⟩ := List.nodup_cons.mp hnodup
    by_cases he : e.1 = key
    · have hfresh : (key, a) ∉ entries := fun hmem =>
        hnew (List.mem_map.mpr ⟨(key, a), hmem, he.symm⟩)
      by_cases h : k = key
      · subst h
        simp [setEntries, he, hfresh]
      · have hne : (k, a) ≠ e := fun heq => h ((congrArg Prod.fst heq).trans he)
        simp [setEntries, he, h, hne]
    · rw [setEntries, if_neg he, List.mem_cons, ih hrest]
      by_cases h : k = key
      · subst h
        have hne : (k, a) ≠ e := fun heq => he (congrArg Prod.fst heq).symm
        simp [hne]
      · simp [h]

theorem get_set : (m.set key value).get k = if k = key then some value else m.get k := by
  refine Option.ext fun a => ?_
  rw [get_eq_some, set, mem_setEntries m.nodup]
  split
  · rw [Option.some.injEq, eq_comm]
  · exact get_eq_some.symm

@[simp] theorem get_set_self : (m.set key value).get key = some value := by
  rw [get_set, if_pos rfl]

theorem get_set_of_ne (h : k ≠ key) : (m.set key value).get k = m.get k := by
  rw [get_set, if_neg h]

theorem get_filter {p : κ × α → Bool} : (m.filter p).get k = (m.get k).filter fun a => p (k, a) := by
  refine Option.ext fun a => ?_
  rw [get_eq_some, Option.filter_eq_some_iff, get_eq_some]
  exact List.mem_filter

theorem get_delete : (m.delete key).get k = if k = key then none else m.get k := by
  rw [delete, get_filter]
  by_cases h : k = key
  · simp [h]
  · cases m.get k <;> simp [h]

theorem get_deleteAll {keys : List κ} :
    (m.deleteAll keys).get k = if k ∈ keys then none else m.get k := by
  induction keys generalizing m with
  | nil => rfl
  | cons key keys ih =>
    rw [deleteAll, List.foldl_cons, ← deleteAll, ih, get_delete]
    by_cases hk : k = key
    · simp [hk]
    · simp [hk]

end Get

/-! ### Sizes -/

section Sizes

variable {m : OrderedMap κ α} {key : κ} {value : α}

/-- A key that is there adds nothing. -/
theorem size_set_of_some (h : m.get key = some value) (a : α) : (m.set key a).size = m.size := by
  have hmem : key ∈ m.entries.map Prod.fst := List.mem_map.mpr ⟨_, get_eq_some.mp h, rfl⟩
  rw [size_eq_length_keys, set, keys_setEntries, if_pos hmem, size_eq_length_keys]

/-- A new key comes last. -/
theorem entries_set_of_none (h : m.get key = none) :
    (m.set key value).entries = m.entries ++ [(key, value)] := by
  have hnew := get_eq_none.mp h
  change setEntries key value m.entries = _
  generalize m.entries = entries at hnew
  induction entries with
  | nil => rfl
  | cons e entries ih =>
    obtain ⟨hne, hrest⟩ := not_or.mp fun h => hnew (List.mem_cons.mpr h)
    rw [setEntries, if_neg fun h => hne h.symm, ih hrest, List.cons_append]

/-- A key that is there is deleted. -/
theorem size_delete_of_some (h : m.get key = some value) : (m.delete key).size + 1 = m.size := by
  have hmem : key ∈ m.entries.map Prod.fst := mem_keys.mpr ⟨value, h⟩
  have hne : ∀ e : κ × α, decide (e.1 ≠ key) = (e.1 != key) := fun e => by
    rw [Bool.eq_iff_iff, decide_eq_true_eq, bne_iff_ne]
  have hkeys : (m.delete key).entries.map Prod.fst = (m.entries.map Prod.fst).erase key := by
    rw [m.nodup.erase_eq_filter, List.filter_map]
    exact congrArg (List.map Prod.fst) (List.filter_congr fun e _ => hne e)
  rw [size_eq_length_keys, hkeys, List.length_erase_of_mem hmem, size_eq_length_keys,
    Nat.sub_add_cancel (List.length_pos_of_mem hmem)]

/-- Keys that are there, each once, are deleted each. -/
theorem size_deleteAll {keys : List κ} (hnodup : keys.Nodup)
    (hmem : ∀ k ∈ keys, ∃ a, m.get k = some a) :
    (m.deleteAll keys).size + keys.length = m.size := by
  induction keys generalizing m with
  | nil => rfl
  | cons key keys ih =>
    obtain ⟨hnew, hrest⟩ := List.nodup_cons.mp hnodup
    obtain ⟨value, hvalue⟩ := hmem key List.mem_cons_self
    have hkept : ∀ k ∈ keys, ∃ a, (m.delete key).get k = some a := fun k hk => by
      have hne : k ≠ key := fun heq => hnew (heq ▸ hk)
      rw [get_delete, if_neg hne]
      exact hmem k (List.mem_cons_of_mem key hk)
    have hdelete := size_delete_of_some hvalue
    have hdeleteAll := ih hrest hkept
    rw [deleteAll, List.foldl_cons, ← deleteAll, List.length_cons]
    omega

end Sizes

/-! ### Sorting -/

/-- **Sorting is stable**: an element that comes last and is nowhere below comes last again. -/
theorem insertionSort_concat {β : Type} {r : β → β → Prop} [DecidableRel r] {xs : List β} {x : β}
    (h : ∀ y ∈ xs, r y x) : (xs ++ [x]).insertionSort r = xs.insertionSort r ++ [x] := by
  have hinsert : ∀ {y} (ys : List β), r y x → (ys ++ [x]).orderedInsert r y =
      ys.orderedInsert r y ++ [x] := by
    intro y ys hy
    induction ys with
    | nil => simp [hy]
    | cons z ys ih =>
      by_cases hz : r y z
      · simp [hz]
      · simp [hz, ih]
  induction xs with
  | nil => rfl
  | cons y xs ih =>
    obtain ⟨hy, hxs⟩ := List.forall_mem_cons.mp h
    rw [List.cons_append, List.insertionSort_cons, ih hxs, hinsert _ hy, List.insertionSort_cons]

end OrderedMap

end Store
