import Ahjoor.Json.KeyOrder

/-!
# Paths into a value

A path names what is inside a value, by the indices of arrays and the keys of objects on the way.
`At value path part` says that `part` is there. A key that is written twice leads to two parts.
-/

namespace Json

/-- A step into a value. -/
inductive PathStep
  | item (i : ℕ)
  | key (k : String)
  deriving DecidableEq, Repr

/-- What is at the end of a path. -/
inductive At : Value → List PathStep → Value → Prop
  | here (value : Value) : At value [] value
  | item {values : List Value} {i : ℕ} {value part : Value} {path : List PathStep}
      (hvalue : values[i]? = some value) (h : At value path part) : At (.arr values) (.item i :: path) part
  | key {members : List (String × Value)} {k : String} {value part : Value} {path : List PathStep}
      (hvalue : (k, value) ∈ members) (h : At value path part) : At (.obj members) (.key k :: path) part

/-- Nothing is inside the value. -/
def Value.isLeaf : Value → Bool
  | .arr (_ :: _) | .obj (_ :: _) => false
  | _ => true

section At

variable {value part : Value} {path : List PathStep}

theorem at_item_iff {values : List Value} {i : ℕ} :
    At (.arr values) (.item i :: path) part ↔ ∃ value, values[i]? = some value ∧ At value path part := by
  constructor
  · rintro (_ | ⟨hvalue, h⟩)
    exact ⟨_, hvalue, h⟩
  · rintro ⟨value, hvalue, h⟩
    exact .item hvalue h

theorem at_key_iff {members : List (String × Value)} {k : String} :
    At (.obj members) (.key k :: path) part ↔ ∃ value, (k, value) ∈ members ∧ At value path part := by
  constructor
  · rintro (_ | _ | ⟨hvalue, h⟩)
    exact ⟨_, hvalue, h⟩
  · rintro ⟨value, hvalue, h⟩
    exact .key hvalue h

/-- Nothing is inside a leaf. -/
theorem At.eq_of_isLeaf (h : At value path part) (hleaf : value.isLeaf = true) :
    path = [] ∧ part = value := by
  cases h with
  | here => exact ⟨rfl, rfl⟩
  | @item values i value part path hvalue h =>
    cases values with
    | nil => cases hvalue
    | cons value values => cases hleaf
  | @key members k value part path hvalue h =>
    cases members with
    | nil => cases hvalue
    | cons member members => cases hleaf

/-- One key leads to one value. -/
theorem eq_of_mem_of_nodup {α : Type} {members : List (String × α)} (hnodup : (members.map Prod.fst).Nodup)
    {k : String} {a b : α} (ha : (k, a) ∈ members) (hb : (k, b) ∈ members) : a = b :=
  congrArg Prod.snd (List.inj_on_of_nodup_map hnodup ha hb rfl)

end At

/-! ### Induction -/

/-- **Induction on values**, by what their arrays and objects hold. -/
@[elab_as_elim]
theorem Value.induction {motive : Value → Prop} (null : motive .null) (bool : ∀ b, motive (.bool b))
    (num : ∀ n, motive (.num n)) (str : ∀ s, motive (.str s))
    (arr : ∀ values, (∀ value ∈ values, motive value) → motive (.arr values))
    (obj : ∀ members : List (String × Value), (∀ member ∈ members, motive member.2) →
      motive (.obj members)) (value : Value) : motive value :=
  @Value.rec motive (fun values => ∀ value ∈ values, motive value)
    (fun members => ∀ member ∈ members, motive member.2) (fun member => motive member.2)
    null bool num str arr obj
    (List.forall_mem_nil _) (fun _ _ hvalue hvalues => List.forall_mem_cons.mpr ⟨hvalue, hvalues⟩)
    (List.forall_mem_nil _) (fun _ _ hmember hmembers => List.forall_mem_cons.mpr ⟨hmember, hmembers⟩)
    (fun _ _ hvalue => hvalue) value

end Json
