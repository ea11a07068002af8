import Ahjoor.Store.Table
import Mathlib.Data.List.MinMax
import Mathlib.Data.Prod.Lex

/-!
# The newest row

A search that orders the rows and takes one. Among the rows of a table that have one time the order is
that of their keys.
-/

namespace Store

variable {α κ : Type} [LinearOrder κ] {key : α → κ} {rows : List α} {a b : α}

/-- `ORDER BY key DESC LIMIT 1`. -/
def latest (key : α → κ) (rows : List α) : Option α := rows.argmax key

/-- `ORDER BY key ASC LIMIT 1`. -/
def earliest (key : α → κ) (rows : List α) : Option α := rows.argmin key

theorem latest_eq_none : latest key rows = none ↔ rows = [] := List.argmax_eq_none

@[simp] theorem latest_singleton : latest key [a] = some a := List.argmax_singleton

theorem mem_of_latest (h : latest key rows = some a) : a ∈ rows := List.argmax_mem h

theorem le_of_latest (h : latest key rows = some a) (hb : b ∈ rows) : key b ≤ key a :=
  List.le_of_mem_argmax hb h

theorem earliest_eq_none : earliest key rows = none ↔ rows = [] := List.argmin_eq_none

theorem mem_of_earliest (h : earliest key rows = some a) : a ∈ rows := List.argmin_mem h

end Store

namespace Store.Table

variable {α τ : Type} [Entity α] [LinearOrder τ] {t : Table α} {time : α → τ} {p q : α → Bool}
  {a b : α}

/-- Where a row stands: by its time, and among the rows of one time by its key. -/
def place (time : α → τ) (a : α) : τ ×ₗ ℕ := toLex (time a, Entity.id a)

/-- The newest row that `p` selects. -/
def newest (t : Table α) (time : α → τ) (p : α → Bool) : Option α :=
  latest (place time) (t.filter p)

theorem newest_eq_some : t.newest time p = some a ↔
    (t.row (Entity.id a) = some a ∧ p a = true) ∧
      ∀ b, t.row (Entity.id b) = some b → p b = true → place time b ≤ place time a := by
  constructor
  · intro h
    refine ⟨t.mem_filter.mp (mem_of_latest h), fun b hb hp => ?_⟩
    exact le_of_latest h (t.mem_filter.mpr ⟨hb, hp⟩)
  · rintro ⟨⟨hrow, hp⟩, hle⟩
    have hmem : a ∈ t.filter p := t.mem_filter.mpr ⟨hrow, hp⟩
    cases hmax : t.newest time p with
    | none => exact absurd (latest_eq_none.mp hmax) (List.ne_nil_of_mem hmem)
    | some b =>
      obtain ⟨hrow', hp'⟩ := t.mem_filter.mp (mem_of_latest hmax)
      have hplace : place time b = place time a :=
        le_antisymm (hle b hrow' hp') (le_of_latest hmax hmem)
      -- two rows of one place have one key
      have hid : Entity.id b = Entity.id a := congrArg (fun x => (ofLex x).2) hplace
      rw [← hrow', hid, hrow]

theorem newest_eq_none : t.newest time p = none ↔ ∀ i a, t.row i = some a → p a = false := by
  rw [newest, latest_eq_none, filter, List.filter_eq_nil_iff]
  constructor
  · intro h i a ha
    have hmem : a ∈ t.rows := t.mem_rows.mpr (by rw [t.id_of_row ha]; exact ha)
    simpa using h a hmem
  · intro h a ha
    rw [h _ a (t.mem_rows.mp ha)]
    exact Bool.false_ne_true

/-- A row that is stored anew is the newest when nothing else that is selected is newer. -/
theorem newest_put (hq : q b = true)
    (hle : ∀ c, t.row (Entity.id c) = some c → Entity.id c ≠ Entity.id b → q c = true →
      place time c ≤ place time b) : (t.put b).newest time q = some b := by
  refine newest_eq_some.mpr ⟨⟨t.row_put_self b, hq⟩, fun c hc hqc => ?_⟩
  obtain heq | hne := eq_or_ne (Entity.id c) (Entity.id b)
  · rw [heq, row_put_self] at hc
    rw [Option.some.inj hc]
  · rw [row_put_of_ne t hne] at hc
    exact hle c hc hne hqc

/-- A search sees no more than the rows that it selects. -/
theorem newest_congr {t' : Table α}
    (h : ∀ a, p a = true → (t.row (Entity.id a) = some a ↔ t'.row (Entity.id a) = some a)) :
    t.newest time p = t'.newest time p := by
  refine Option.ext fun a => ?_
  rw [newest_eq_some, newest_eq_some]
  refine and_congr ?_ (forall_congr' fun b => ?_)
  · exact ⟨fun ha => ⟨(h a ha.2).mp ha.1, ha.2⟩, fun ha => ⟨(h a ha.2).mpr ha.1, ha.2⟩⟩
  · exact ⟨fun hb hrow hp => hb ((h b hp).mpr hrow) hp, fun hb hrow hp => hb ((h b hp).mp hrow) hp⟩

end Store.Table
