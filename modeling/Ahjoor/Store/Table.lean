import Mathlib.Data.List.Basic
import Mathlib.Logic.Function.Basic

/-!
# Tables of keyed rows

A `Table` holds the rows of one entity type under their primary keys. The keys are natural
numbers handed out by the table, and the structure carries its own well-formedness: a row is
stored under its own key, and below the next key to be handed out. Storing a row overwrites
whatever its key held (`put`), inserting gives the row a fresh key (`insert`), and a bulk
update rewrites every row that a condition selects (`modify`).

Rows are read through `row`, so a fact about one key is a fact about a function update; `rows`
lists them in the order of their keys, which is the order the searches use.
-/

namespace Store

/-- A row type with a primary key. -/
class Entity (α : Type) where
  /-- The primary key. -/
  id : α → ℕ
  /-- The row under another key. -/
  withId : ℕ → α → α
  id_withId (i : ℕ) (a : α) : id (withId i a) = i

attribute [simp] Entity.id_withId

/-- The rows of one entity type, each under its own key. -/
structure Table (α : Type) [Entity α] where
  next : ℕ
  row : ℕ → Option α
  id_of_row : ∀ {i a}, row i = some a → Entity.id a = i
  lt_next : ∀ {i a}, row i = some a → i < next

namespace Table

variable {α : Type} [Entity α]

/-- No rows. -/
def empty : Table α := ⟨0, fun _ => none, by simp, by simp⟩

/-- Store a row under its key. -/
def put (t : Table α) (a : α) : Table α where
  next := max t.next (Entity.id a + 1)
  row := Function.update t.row (Entity.id a) (some a)
  id_of_row {i b} h := by
    by_cases hi : i = Entity.id a
    · subst hi
      simp only [Function.update_self, Option.some.injEq] at h
      rw [h]
    · rw [Function.update_of_ne hi] at h
      exact t.id_of_row h
  lt_next {i b} h := by
    by_cases hi : i = Entity.id a
    · omega
    · rw [Function.update_of_ne hi] at h
      have := t.lt_next h
      omega

/-- Store a row under a fresh key; also the row as stored. -/
def insert (t : Table α) (a : α) : α × Table α :=
  (Entity.withId t.next a, t.put (Entity.withId t.next a))

/-- Store rows one after another. -/
def putAll (t : Table α) (as : List α) : Table α := as.foldl put t

/-- Rewrite every row that `p` selects, under the key it has. -/
def modify (t : Table α) (p : α → Bool) (f : α → α) : Table α where
  next := t.next
  row i := (t.row i).map fun a => if p a then Entity.withId i (f a) else a
  id_of_row {i b} h := by
    obtain ⟨a, ha, rfl⟩ := Option.map_eq_some_iff.mp h
    split_ifs
    · exact Entity.id_withId i (f a)
    · exact t.id_of_row ha
  lt_next {i b} h := by
    obtain ⟨a, ha, -⟩ := Option.map_eq_some_iff.mp h
    exact t.lt_next ha

/-- The rows in the order of their keys. -/
def rows (t : Table α) : List α := (List.range t.next).filterMap t.row

/-- The first row that `p` selects. -/
def find? (t : Table α) (p : α → Bool) : Option α := t.rows.find? p

/-- All rows that `p` selects. -/
def filter (t : Table α) (p : α → Bool) : List α := t.rows.filter p

/-- The rows with fewer or other columns, under the keys that they have. -/
def map {β : Type} [Entity β] (t : Table α) (f : α → β) (hf : ∀ a, Entity.id (f a) = Entity.id a) :
    Table β where
  next := t.next
  row i := (t.row i).map f
  id_of_row {i b} h := by
    obtain ⟨a, ha, rfl⟩ := Option.map_eq_some_iff.mp h
    rw [hf, t.id_of_row ha]
  lt_next {i b} h := by
    obtain ⟨a, ha, -⟩ := Option.map_eq_some_iff.mp h
    exact t.lt_next ha

/-! ### Reading one key -/

@[simp] theorem row_put_self (t : Table α) (a : α) : (t.put a).row (Entity.id a) = some a :=
  Function.update_self ..

theorem row_put (t : Table α) (a : α) (i : ℕ) :
    (t.put a).row i = if i = Entity.id a then some a else t.row i :=
  Function.update_apply ..

theorem row_put_of_ne (t : Table α) {a : α} {i : ℕ} (h : i ≠ Entity.id a) :
    (t.put a).row i = t.row i :=
  Function.update_of_ne h ..

theorem row_putAll_of_ne {t : Table α} {as : List α} {i : ℕ} (h : ∀ a ∈ as, Entity.id a ≠ i) :
    (t.putAll as).row i = t.row i := by
  induction as generalizing t with
  | nil => rfl
  | cons a as ih =>
    obtain ⟨ha, has⟩ := List.forall_mem_cons.mp h
    exact (ih has).trans (t.row_put_of_ne ha.symm)

/-- Where rows are stored, one of them is found. -/
theorem exists_row_putAll {t : Table α} {as : List α} {i : ℕ} (h : ∃ a ∈ as, Entity.id a = i) :
    ∃ a ∈ as, (t.putAll as).row i = some a := by
  induction as generalizing t with
  | nil =>
    obtain ⟨a, ha, -⟩ := h
    cases ha
  | cons a as ih =>
    by_cases hlater : ∃ b ∈ as, Entity.id b = i
    · obtain ⟨b, hb, hrow⟩ := ih (t := t.put a) hlater
      exact ⟨b, List.mem_cons_of_mem a hb, hrow⟩
    · obtain ⟨b, hb, rfl⟩ := h
      obtain rfl : b = a := by
        refine (List.mem_cons.mp hb).resolve_right fun hmem => hlater ⟨b, hmem, rfl⟩
      refine ⟨b, List.mem_cons_self, ?_⟩
      have hkeep : ((t.put b).putAll as).row (Entity.id b) = (t.put b).row (Entity.id b) :=
        row_putAll_of_ne fun a ha heq => hlater ⟨a, ha, heq⟩
      exact hkeep.trans (t.row_put_self b)

theorem row_modify (t : Table α) (p : α → Bool) (f : α → α) (i : ℕ) :
    (t.modify p f).row i = (t.row i).map fun a => if p a then Entity.withId i (f a) else a := rfl

theorem row_next (t : Table α) : t.row t.next = none := by
  by_contra h
  obtain ⟨a, ha⟩ := Option.ne_none_iff_exists'.mp h
  exact absurd (t.lt_next ha) (Nat.lt_irrefl _)

@[simp] theorem id_insert (t : Table α) (a : α) : Entity.id (t.insert a).1 = t.next :=
  Entity.id_withId ..

/-- Inserting leaves the rows that were there alone. -/
theorem row_insert_of_row (t : Table α) (a : α) {i : ℕ} {b : α} (h : t.row i = some b) :
    (t.insert a).2.row i = some b := by
  have hne : i ≠ Entity.id (Entity.withId t.next a) := by
    rw [Entity.id_withId]
    exact Nat.ne_of_lt (t.lt_next h)
  exact (t.row_put_of_ne hne).trans h

/-! ### Searches -/

theorem mem_rows (t : Table α) {a : α} : a ∈ t.rows ↔ t.row (Entity.id a) = some a := by
  constructor
  · intro h
    obtain ⟨i, -, hi⟩ := List.mem_filterMap.mp h
    rw [t.id_of_row hi]
    exact hi
  · intro h
    exact List.mem_filterMap.mpr ⟨_, List.mem_range.mpr (t.lt_next h), h⟩

theorem mem_filter (t : Table α) {p : α → Bool} {a : α} :
    a ∈ t.filter p ↔ t.row (Entity.id a) = some a ∧ p a = true := by
  rw [filter, List.mem_filter, mem_rows]

theorem of_find?_eq_some {t : Table α} {p : α → Bool} {a : α} (h : t.find? p = some a) :
    t.row (Entity.id a) = some a ∧ p a = true :=
  ⟨(t.mem_rows).mp (List.mem_of_find?_eq_some h), List.find?_some h⟩

theorem find?_eq_none {t : Table α} {p : α → Bool} :
    t.find? p = none ↔ ∀ i a, t.row i = some a → p a = false := by
  constructor
  · intro h i a ha
    have hmem : a ∈ t.rows := t.mem_rows.mpr (by rw [t.id_of_row ha]; exact ha)
    simpa using List.find?_eq_none.mp h a hmem
  · intro h
    refine List.find?_eq_none.mpr fun a ha => ?_
    simpa using h _ a (t.mem_rows.mp ha)

/-- A row that is inserted comes last. -/
theorem rows_insert (t : Table α) (a : α) :
    (t.insert a).2.rows = t.rows ++ [Entity.withId t.next a] := by
  have hnext : (t.insert a).2.next = t.next + 1 := by
    change max t.next (Entity.id (Entity.withId t.next a) + 1) = t.next + 1
    rw [Entity.id_withId]
    omega
  have hself : (t.insert a).2.row t.next = some (Entity.withId t.next a) := by
    have h : (t.put (Entity.withId t.next a)).row _ = _ := t.row_put_self _
    rwa [Entity.id_withId] at h
  have hold : ∀ i ∈ List.range t.next, (t.insert a).2.row i = t.row i := by
    intro i hi
    refine t.row_put_of_ne ?_
    rw [Entity.id_withId]
    exact Nat.ne_of_lt (List.mem_range.mp hi)
  rw [rows, hnext, List.range_succ, List.filterMap_append, List.filterMap_congr hold,
    List.filterMap_cons_some hself]
  rfl

/-! ### Fewer columns -/

@[ext] theorem ext {t t' : Table α} (hnext : t.next = t'.next) (hrow : ∀ i, t.row i = t'.row i) :
    t = t' := by
  cases t
  cases t'
  obtain rfl := hnext
  obtain rfl := funext hrow
  rfl

section Map

variable {β : Type} [Entity β] {f : α → β} {hf : ∀ a, Entity.id (f a) = Entity.id a}

theorem row_map (t : Table α) (i : ℕ) : (t.map f hf).row i = (t.row i).map f := rfl

/-- Rewriting a row does not show where its columns are left out. -/
theorem map_put_of_row {t : Table α} {a b : α} (h : t.row (Entity.id a) = some b)
    (hab : f a = f b) : (t.put a).map f hf = t.map f hf := by
  refine ext ?_ fun i => ?_
  · have hlt := t.lt_next h
    change max t.next (Entity.id a + 1) = t.next
    omega
  · rw [row_map, row_map, row_put]
    split
    next hi => rw [hi, h, Option.map_some, Option.map_some, hab]
    next => rfl

theorem map_modify {t : Table α} {p : α → Bool} {g : α → α}
    (h : ∀ a, f (Entity.withId (Entity.id a) (g a)) = f a) :
    (t.modify p g).map f hf = t.map f hf := by
  refine ext rfl fun i => ?_
  rw [row_map, row_map, row_modify, Option.map_map]
  refine Option.map_congr fun a ha => ?_
  have hid := t.id_of_row ha
  change f (if p a then Entity.withId i (g a) else a) = f a
  split
  · rw [← hid, h]
  · rfl

theorem rows_map (t : Table α) : (t.map f hf).rows = t.rows.map f :=
  (List.map_filterMap ..).symm

/-- A search that does not look at the columns left out. -/
theorem find?_map (t : Table α) (q : β → Bool) :
    (t.map f hf).find? q = (t.find? (q ∘ f)).map f := by
  rw [find?, rows_map]
  exact List.find?_map ..

end Map

end Table

end Store
