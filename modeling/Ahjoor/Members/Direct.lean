import Ahjoor.Members.Alone

/-!
# Queries outside transactions

What a query does that a call which runs alone makes outside any transaction: the rules of `Solo`
for every decision of the environment, and those of `Comes` for the outcome when nothing fails.
-/

namespace Ahjoor.Members

open Async

variable {missing : OnMissing} {pid : ℕ} {w : World} {d : Tables}

/-! ### Whatever the environment decides -/

section Solo

variable {X : Exc → Unit → World → Prop}

/-- A query that comes back has read the tables, and its write has taken effect. -/
theorem solo_db {q : Query} {Q : q.Ret → Unit → World → Prop}
    (hok : ∀ a, q.read missing w.tables = .ok a → Q a () (w.execute missing q))
    (herr : ∀ e w', X e () w') : Solo (exec missing) pid (db q) Q X () w := by
  refine Solo.call fun choice r w' hexec => ?_
  cases r with
  | error e => exact herr e w'
  | ok a =>
    rcases exec_db hexec with ⟨-, e, he⟩ | ⟨-, rfl, ha | ⟨e, he⟩⟩
    · cases he
    · exact hok a ha.symm
    · cases he

theorem solo_db_read {q : Query} (hq : q.isRead = true) {a : q.Ret}
    (ha : q.read missing w.tables = .ok a) {Q : q.Ret → Unit → World → Prop} (hok : Q a () w)
    (herr : ∀ e w', X e () w') : Solo (exec missing) pid (db q) Q X () w := by
  refine solo_db (fun b hb => ?_) herr
  obtain rfl := Except.ok.inj (ha.symm.trans hb)
  rwa [execute_of_isRead hq]

theorem solo_db_write {x : Write} {Q : Unit → Unit → World → Prop}
    (hok : w.tables.conflict missing x = none →
      Q () () { w with tables := w.tables.commit missing [x] })
    (herr : ∀ e w', X e () w') : Solo (exec missing) pid (db (.write x)) Q X () w := by
  refine solo_db (fun a ha => ?_) herr
  cases hconflict : w.tables.conflict missing x with
  | some constraint =>
    simp only [Query.read, hconflict] at ha
    cases ha
  | none =>
    rw [execute_write hconflict]
    exact hok hconflict

end Solo

/-! ### When nothing fails -/

/-- A query outside a transaction, while nobody holds a lock. -/
theorem comes_db (hw : Idle w) (q : Query) :
    Comes (working missing) pid (db q) (q.read missing w.tables)
      (fun w' => w' = w.execute missing q) () w := by
  have hwithin : Within pid w.tables [] (w.hold pid []) := hw.within
  have hunblocked : w.blocks missing pid q = false := not_blocks hwithin.group hwithin.entries q
  refine Comes.call .done (working_done ?_) rfl
  rw [exec, hunblocked]
  rfl

theorem comes_db_read (hw : Idle w) {q : Query} (hq : q.isRead = true) {a : q.Ret}
    (ha : q.read missing w.tables = .ok a) :
    Comes (working missing) pid (db q) (.ok a) (w = ·) () w := by
  have hread : Comes (working missing) pid (db q) _ _ () w := comes_db hw q
  rw [ha, execute_of_isRead hq] at hread
  exact hread.mono fun _ h => h.symm

/-- A write that the tables accept. -/
theorem comes_db_write (hw : Idle w) {x : Write} (hx : w.tables.conflict missing x = none) :
    Comes (working missing) pid (db (.write x)) (.ok ())
      (fun w' => Idle w' ∧ w'.tables = w.tables.commit missing [x]) () w := by
  have hwrite : Comes (working missing) pid (db (.write x)) _ _ () w := comes_db hw (.write x)
  simp only [Query.read, hx] at hwrite
  refine hwrite.mono fun w' hw' => ?_
  rw [hw', execute_write hx]
  exact ⟨⟨hw.group, hw.entries⟩, rfl⟩

end Ahjoor.Members
