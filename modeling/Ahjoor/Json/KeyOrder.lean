import Ahjoor.Json.Parse
import Mathlib.Data.List.Lex
import Mathlib.Data.List.Sort

/-!
# The order of keys

Values are the same up to key order when their members can be rearranged, at any depth, to give one
value. The text of a value whose keys have been sorted tells it up to key order.
-/

namespace Json

/-! ### Rearrangements -/

mutual

/-- The value with the members of its objects in another order. -/
inductive Rearranged : Value → Value → Prop
  | null : Rearranged .null .null
  | bool (b : Bool) : Rearranged (.bool b) (.bool b)
  | num (n : Number) : Rearranged (.num n) (.num n)
  | str (s : String) : Rearranged (.str s) (.str s)
  | arr {xs ys : List Value} (h : RearrangedAll xs ys) : Rearranged (.arr xs) (.arr ys)
  | obj {ms ns ns' : List (String × Value)} (h : RearrangedMembers ms ns) (hperm : ns.Perm ns') :
      Rearranged (.obj ms) (.obj ns')

inductive RearrangedAll : List Value → List Value → Prop
  | nil : RearrangedAll [] []
  | cons {x y : Value} {xs ys : List Value} (h : Rearranged x y) (hs : RearrangedAll xs ys) :
      RearrangedAll (x :: xs) (y :: ys)

inductive RearrangedMembers : List (String × Value) → List (String × Value) → Prop
  | nil : RearrangedMembers [] []
  | cons {key : String} {x y : Value} {ms ns : List (String × Value)} (h : Rearranged x y)
      (hs : RearrangedMembers ms ns) : RearrangedMembers ((key, x) :: ms) ((key, y) :: ns)

end

/-- The values are **equal up to key order**. -/
def Same (a b : Value) : Prop := ∃ c, Rearranged a c ∧ Rearranged b c

/-! ### Sorted keys -/

/-- The UTF-16 code units of a string. -/
def utf16 (s : String) : List ℕ :=
  s.toList.flatMap fun c =>
    if c.toNat < 0x10000 then [c.toNat]
    else [0xD800 + (c.toNat - 0x10000) / 0x400, 0xDC00 + (c.toNat - 0x10000) % 0x400]

/-- The order in which `sort()` puts strings. -/
def KeyLe (a b : String) : Prop := utf16 a ≤ utf16 b

instance : DecidableRel KeyLe := fun a b => inferInstanceAs (Decidable (utf16 a ≤ utf16 b))

/-- Sort by the keys. -/
def sortByKey {α : Type} (entries : List (String × α)) : List (String × α) :=
  entries.insertionSort fun a b => KeyLe a.1 b.1

theorem sortByKey_map {α β : Type} (f : α → β) (entries : List (String × α)) :
    sortByKey (entries.map fun e => (e.1, f e.2)) = (sortByKey entries).map fun e => (e.1, f e.2) :=
  (List.map_insertionSort (fun a b : String × α => KeyLe a.1 b.1) (fun a b : String × β => KeyLe a.1 b.1)
    (fun e => (e.1, f e.2)) entries fun _ _ _ _ => Iff.rfl).symm

mutual

/-- The value with its keys sorted, at every depth. -/
def sortKeys : Value → Value
  | .null => .null
  | .bool b => .bool b
  | .num n => .num n
  | .str s => .str s
  | .arr xs => .arr (sortAll xs)
  | .obj members => .obj (sortByKey (sortMembers members))
termination_by structural value => value

def sortAll : List Value → List Value
  | [] => []
  | value :: values => sortKeys value :: sortAll values
termination_by structural values => values

def sortMember : String × Value → String × Value
  | (key, value) => (key, sortKeys value)
termination_by structural member => member

def sortMembers : List (String × Value) → List (String × Value)
  | [] => []
  | member :: members => sortMember member :: sortMembers members
termination_by structural members => members

end

mutual

/-- **Sorting the keys** rearranges the members. -/
theorem rearranged_sortKeys (value : Value) : Rearranged value (sortKeys value) := by
  match value with
  | .null => exact .null
  | .bool b => exact .bool b
  | .num n => exact .num n
  | .str s => exact .str s
  | .arr xs => exact .arr (rearranged_sortAll xs)
  | .obj members =>
    exact .obj (rearranged_sortMembers members) (List.perm_insertionSort _ _).symm
termination_by structural value

theorem rearranged_sortAll (values : List Value) : RearrangedAll values (sortAll values) := by
  match values with
  | [] => exact .nil
  | value :: values => exact .cons (rearranged_sortKeys value) (rearranged_sortAll values)
termination_by structural values

theorem rearranged_sortMember (member : String × Value) : Rearranged member.2 (sortMember member).2 := by
  match member with
  | (key, value) => exact rearranged_sortKeys value
termination_by structural member

theorem rearranged_sortMembers (members : List (String × Value)) :
    RearrangedMembers members (sortMembers members) := by
  match members with
  | [] => exact .nil
  | (key, value) :: members =>
    exact .cons (rearranged_sortMember (key, value)) (rearranged_sortMembers members)
termination_by structural members

end

/-- **The text with sorted keys** tells a value up to key order. -/
theorem same_of_print_sortKeys {a b : Value} (h : print (sortKeys a) = print (sortKeys b)) : Same a b :=
  ⟨sortKeys a, rearranged_sortKeys a, print_injective h ▸ rearranged_sortKeys b⟩

/-! ### One order for each set of keys -/

section Order

/-- The code units of a character, followed by others, tell the character. -/
theorem utf16_char_inj {c c' : Char} {us us' : List ℕ}
    (h : (if c.toNat < 0x10000 then [c.toNat]
        else [0xD800 + (c.toNat - 0x10000) / 0x400, 0xDC00 + (c.toNat - 0x10000) % 0x400]) ++ us =
      (if c'.toNat < 0x10000 then [c'.toNat]
        else [0xD800 + (c'.toNat - 0x10000) / 0x400, 0xDC00 + (c'.toNat - 0x10000) % 0x400]) ++ us') :
    c = c' ∧ us = us' := by
  -- a high surrogate is no character
  have hscalar : ∀ c : Char, c.toNat < 0xD800 ∨ 0xDFFF < c.toNat ∧ c.toNat < 0x110000 := fun c => c.valid
  have hc := hscalar c
  have hc' := hscalar c'
  split at h <;> split at h <;> simp only [List.cons_append, List.nil_append, List.cons.injEq] at h
  · exact ⟨Char.toNat_inj.mp h.1, h.2⟩
  · omega
  · omega
  · exact ⟨Char.toNat_inj.mp (by omega), h.2.2⟩

theorem utf16_injective : Function.Injective utf16 := by
  suffices h : ∀ cs cs' : List Char, utf16 (String.ofList cs) = utf16 (String.ofList cs') → cs = cs' by
    intro a b hab
    rw [← String.ofList_toList (s := a), ← String.ofList_toList (s := b)] at hab
    exact String.toList_injective (h _ _ hab)
  intro cs
  induction cs with
  | nil =>
    intro cs' h
    cases cs' with
    | nil => rfl
    | cons c' cs' =>
      simp only [utf16, String.toList_ofList, List.flatMap_nil, List.flatMap_cons] at h
      split at h <;> cases h
  | cons c cs ih =>
    intro cs' h
    cases cs' with
    | nil =>
      simp only [utf16, String.toList_ofList, List.flatMap_nil, List.flatMap_cons] at h
      split at h <;> cases h
    | cons c' cs' =>
      simp only [utf16, String.toList_ofList, List.flatMap_cons] at h ih
      obtain ⟨rfl, hrest⟩ := utf16_char_inj h
      rw [ih cs' hrest]

theorem keyLe_antisymm {a b : String} (h : KeyLe a b) (h' : KeyLe b a) : a = b :=
  utf16_injective (le_antisymm h h')

variable {α : Type} {entries entries' : List (String × α)}

instance : Std.Total fun a b : String × α => KeyLe a.1 b.1 where
  total a b := le_total (utf16 a.1) (utf16 b.1)

instance : IsTrans (String × α) fun a b => KeyLe a.1 b.1 where
  trans _ _ _ h h' := le_trans h h'

theorem pairwise_sortByKey (entries : List (String × α)) :
    (sortByKey entries).Pairwise fun a b => KeyLe a.1 b.1 :=
  List.pairwise_insertionSort _ entries

theorem perm_sortByKey (entries : List (String × α)) : (sortByKey entries).Perm entries :=
  List.perm_insertionSort _ entries

theorem sortByKey_sortByKey (entries : List (String × α)) :
    sortByKey (sortByKey entries) = sortByKey entries :=
  (pairwise_sortByKey entries).insertionSort_eq

/-- **Entries with distinct keys** have one sorted order. -/
theorem sortByKey_eq_of_perm (hnodup : (entries.map Prod.fst).Nodup) (h : entries.Perm entries') :
    sortByKey entries = sortByKey entries' := by
  refine List.Perm.eq_of_pairwise (fun a b ha hb hab hba => ?_) (pairwise_sortByKey entries)
    (pairwise_sortByKey entries') ((perm_sortByKey entries).trans (h.trans (perm_sortByKey entries').symm))
  have ha' := (perm_sortByKey entries).subset ha
  have hb' := h.symm.subset ((perm_sortByKey entries').subset hb)
  exact List.inj_on_of_nodup_map hnodup ha' hb' (keyLe_antisymm hab hba)

theorem perm_of_sortByKey_eq (h : sortByKey entries = sortByKey entries') : entries.Perm entries' :=
  (perm_sortByKey entries).symm.trans (h ▸ perm_sortByKey entries')

theorem nodup_keys_filterMap {β : Type} {f : String × α → Option (String × β)}
    (hf : ∀ e e', f e = some e' → e'.1 = e.1) (hnodup : (entries.map Prod.fst).Nodup) :
    ((entries.filterMap f).map Prod.fst).Nodup := by
  refine List.Pairwise.map _ (fun _ _ h => h) (List.pairwise_filterMap.mpr ?_)
  refine (List.pairwise_map.mp hnodup).imp fun {a b} hne a' ha b' hb => ?_
  rw [hf a a' ha, hf b b' hb]
  exact hne

/-- Entries are picked out, each under its key, before or after they are sorted. -/
theorem sortByKey_filterMap {β : Type} {f : String × α → Option (String × β)}
    (hf : ∀ e e', f e = some e' → e'.1 = e.1) (hnodup : (entries.map Prod.fst).Nodup) :
    sortByKey (entries.filterMap f) = (sortByKey entries).filterMap f := by
  have hperm : (entries.filterMap f).Perm ((sortByKey entries).filterMap f) :=
    (perm_sortByKey entries).symm.filterMap f
  have hsorted : ((sortByKey entries).filterMap f).Pairwise fun a b => KeyLe a.1 b.1 := by
    refine List.pairwise_filterMap.mpr ((pairwise_sortByKey entries).imp fun {a b} hle a' ha b' hb => ?_)
    rw [hf a a' ha, hf b b' hb]
    exact hle
  rw [sortByKey_eq_of_perm (nodup_keys_filterMap hf hnodup) hperm]
  exact hsorted.insertionSort_eq

end Order

/-! ### Values as objects have them -/

mutual

/-- No key is there twice, at any depth. -/
def DistinctKeys : Value → Prop
  | .null | .bool _ | .num _ | .str _ => True
  | .arr xs => DistinctKeysAll xs
  | .obj members => (members.map Prod.fst).Nodup ∧ DistinctKeysMembers members
termination_by structural value => value

def DistinctKeysAll : List Value → Prop
  | [] => True
  | value :: values => DistinctKeys value ∧ DistinctKeysAll values
termination_by structural values => values

def DistinctKeysMember : String × Value → Prop
  | (_, value) => DistinctKeys value
termination_by structural member => member

def DistinctKeysMembers : List (String × Value) → Prop
  | [] => True
  | member :: members => DistinctKeysMember member ∧ DistinctKeysMembers members
termination_by structural members => members

end

theorem sortMember_eq (member : String × Value) : sortMember member = (member.1, sortKeys member.2) := by
  obtain ⟨key, value⟩ := member
  rfl

theorem sortMembers_eq_map (members : List (String × Value)) :
    sortMembers members = members.map fun member => (member.1, sortKeys member.2) := by
  induction members with
  | nil => rfl
  | cons member members ih => rw [sortMembers, ih, sortMember_eq, List.map_cons]

theorem mem_sortMembers {key : String} {value : Value} {members : List (String × Value)} :
    (key, value) ∈ sortMembers members ↔ ∃ value', (key, value') ∈ members ∧ sortKeys value' = value := by
  rw [sortMembers_eq_map, List.mem_map]
  constructor
  · rintro ⟨⟨key', value'⟩, hmem, heq⟩
    cases heq
    exact ⟨value', hmem, rfl⟩
  · rintro ⟨value', hmem, rfl⟩
    exact ⟨(key, value'), hmem, rfl⟩

theorem distinctKeysAll_iff {values : List Value} :
    DistinctKeysAll values ↔ ∀ value ∈ values, DistinctKeys value := by
  induction values with
  | nil => simp [DistinctKeysAll]
  | cons value values ih => rw [DistinctKeysAll, ih, List.forall_mem_cons]

theorem distinctKeysMembers_iff {members : List (String × Value)} :
    DistinctKeysMembers members ↔ ∀ member ∈ members, DistinctKeys member.2 := by
  induction members with
  | nil => simp [DistinctKeysMembers]
  | cons member members ih =>
    obtain ⟨key, value⟩ := member
    rw [DistinctKeysMembers, ih, List.forall_mem_cons]
    rfl

theorem keys_sortMembers (members : List (String × Value)) :
    (sortMembers members).map Prod.fst = members.map Prod.fst := by
  rw [sortMembers_eq_map, List.map_map]
  rfl

mutual

/-- A rearranged value has the same sorted keys. -/
theorem sortKeys_of_rearranged (value : Value) {value' : Value} (hdistinct : DistinctKeys value)
    (h : Rearranged value value') : sortKeys value = sortKeys value' := by
  match value with
  | .null | .bool b | .num n | .str s =>
    cases h
    rfl
  | .arr xs =>
    cases h with
    | arr h => rw [sortKeys, sortKeys, sortAll_of_rearranged xs hdistinct h]
  | .obj members =>
    cases h with
    | obj h hperm =>
      have hsorted := sortMembers_of_rearranged members hdistinct.2 h
      have hkeys : ((sortMembers members).map Prod.fst).Nodup := keys_sortMembers members ▸ hdistinct.1
      rw [sortKeys, sortKeys, sortByKey_eq_of_perm hkeys]
      rw [hsorted, sortMembers_eq_map, sortMembers_eq_map]
      exact hperm.map _
termination_by structural value

theorem sortAll_of_rearranged (values : List Value) {values' : List Value}
    (hdistinct : DistinctKeysAll values) (h : RearrangedAll values values') :
    sortAll values = sortAll values' := by
  match values with
  | [] =>
    cases h
    rfl
  | value :: values =>
    cases h with
    | cons h hs =>
      rw [sortAll, sortAll, sortKeys_of_rearranged value hdistinct.1 h,
        sortAll_of_rearranged values hdistinct.2 hs]
termination_by structural values

theorem sortMember_of_rearranged (member : String × Value) {value : Value}
    (hdistinct : DistinctKeysMember member) (h : Rearranged member.2 value) :
    sortMember member = (member.1, sortKeys value) := by
  match member with
  | (key, value') => rw [sortMember, sortKeys_of_rearranged value' hdistinct h]
termination_by structural member

theorem sortMembers_of_rearranged (members : List (String × Value)) {members' : List (String × Value)}
    (hdistinct : DistinctKeysMembers members) (h : RearrangedMembers members members') :
    sortMembers members = sortMembers members' := by
  match members with
  | [] =>
    cases h
    rfl
  | (key, value) :: members =>
    cases h with
    | cons h hs =>
      rw [sortMembers, sortMembers, sortMember_of_rearranged (key, value) hdistinct.1 h,
        sortMembers_of_rearranged members hdistinct.2 hs]
      rfl
termination_by structural members

end

/-- **Values with distinct keys** are equal up to key order when they are equal once their keys have
been sorted. -/
theorem same_iff {a b : Value} (ha : DistinctKeys a) (hb : DistinctKeys b) :
    Same a b ↔ sortKeys a = sortKeys b := by
  constructor
  · rintro ⟨c, hac, hbc⟩
    rw [sortKeys_of_rearranged a ha hac, sortKeys_of_rearranged b hb hbc]
  · intro h
    exact ⟨sortKeys a, rearranged_sortKeys a, h ▸ rearranged_sortKeys b⟩

end Json
