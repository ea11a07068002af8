import Ahjoor.Async.Interleaving
import Ahjoor.Members.Database

/-!
# The database behind the members of a group

What concurrent calls share: the tables, the writes of the open transactions, and the row locks.
A transaction sees the committed rows and its own writes, which are applied when it commits.

`SELECT … FOR UPDATE` on the group makes others wait that lock it too, that write it, or that
insert a row which refers to it; locked waitlist entries make others wait that write them. Reads
wait for nobody, and neither do deletions and updates of memberships.
-/

namespace Ahjoor.Members

open Async

/-- The tables, the writes of the open transactions, and who has locked the group and the entries
of its waitlist. -/
structure World where
  tables : Tables
  pending : ℕ → Option (List Write) := fun _ => none
  groupHolder : Option ℕ := none
  entryHolder : Uuid → Option ℕ := fun _ => none

/-- A world in which no call has started. -/
def started (d : Tables) : World where
  tables := d

/-! ### Operations -/

/-- An awaited operation. -/
inductive Op
  /-- a query outside any transaction -/
  | db (q : Query)
  | startTransaction
  /-- `SELECT … FOR UPDATE` of the group -/
  | lockGroup
  /-- `SELECT … FOR UPDATE` of the first entries that wait -/
  | lockWaiting (limit : ℕ)
  /-- a query inside the transaction of the call -/
  | tx (q : Query)
  | commitTransaction
  | rollbackTransaction
  | notify (n : Notification)
  | deployRoscaContract (group : GroupRow)
  | dispatchEvent (event : String)
  /-- the database drops the transaction of a call whose connection is gone -/
  | dropSession (pid : ℕ)

/-- What an operation returns. -/
def Op.Ret : Op → Type
  | db q | tx q => Except Exc q.Ret
  | lockGroup => Except Exc (Option GroupRow)
  | lockWaiting _ => Except Exc (List WaitlistEntry)
  | startTransaction | commitTransaction | notify _ | dispatchEvent _ => Except Exc Unit
  | deployRoscaContract _ => Except Exc String
  | rollbackTransaction | dropSession _ => Unit

/-- What the environment decides about one operation. -/
inductive Choice
  | done
  | fails (message : String)
  | lost (message : String)
  | deployed (contractAddress : String)

/-! ### What an operation does -/

namespace World

/-- Somebody else has locked the group. -/
def groupHeld (w : World) (pid : ℕ) : Bool := w.groupHolder.any (· ≠ pid)

/-- Somebody else has locked the entry. -/
def entryHeld (w : World) (pid : ℕ) (id : Uuid) : Bool := (w.entryHolder id).any (· ≠ pid)

/-- The write has to wait. -/
def blocksWrite (missing : OnMissing) (w : World) (pid : ℕ) (x : Write) : Bool :=
  (w.tables.inserts missing x && w.groupHeld pid) ||
    match x with
    | .saveEntry entry => w.entryHeld pid entry.id
    | .closeGap position => w.tables.waitlist.any fun e =>
        e.status = .waiting ∧ position < e.position ∧ w.entryHeld pid e.id
    | .saveGroup _ => w.groupHeld pid
    | .insertMember _ | .saveMember _ | .removeMember _ | .insertEntry _ => false

/-- The query has to wait. -/
def blocks (missing : OnMissing) (w : World) (pid : ℕ) : Query → Bool
  | .write x => w.blocksWrite missing pid x
  | _ => false

/-- A query outside any transaction takes effect. -/
def execute (missing : OnMissing) (w : World) (q : Query) : World :=
  { w with tables := (q.writes missing w.tables).elim w.tables fun x => w.tables.commit missing [x] }

/-- The open transaction of `pid` with more writes. -/
def hold (w : World) (pid : ℕ) (xs : List Write) : World :=
  { w with pending := Function.update w.pending pid (some xs) }

/-- The group is locked by `pid`. -/
def lockGroup (w : World) (pid : ℕ) : World :=
  { w with groupHolder := if w.tables.group.isSome then some pid else w.groupHolder }

/-- Entries are locked by `pid`. -/
def lockEntries (w : World) (pid : ℕ) (entries : List WaitlistEntry) : World :=
  { w with entryHolder := fun id =>
      if id ∈ entries.map (·.id) then some pid else w.entryHolder id }

/-- End the transaction of `pid` and release its locks. -/
def release (w : World) (pid : ℕ) : World where
  tables := w.tables
  pending := Function.update w.pending pid none
  groupHolder := if w.groupHolder = some pid then none else w.groupHolder
  entryHolder := fun id => if w.entryHolder id = some pid then none else w.entryHolder id

/-- Apply the writes of the transaction of `pid` and end it. -/
def commit (missing : OnMissing) (w : World) (pid : ℕ) (xs : List Write) : World :=
  release { w with tables := w.tables.commit missing xs } pid

end World

/-- What an operation of call `pid` does. -/
def exec (missing : OnMissing) : (o : Op) → ℕ → Choice → World → Option (o.Ret × World)
  | .db q, pid, .done, w =>
      if w.blocks missing pid q then none else some (q.read missing w.tables, w.execute missing q)
  | .db _, _, .fails msg, w => some (.error (.error msg), w)
  | .db q, pid, .lost msg, w =>
      if w.blocks missing pid q then none else some (.error (.error msg), w.execute missing q)
  | .startTransaction, pid, .done, w => some (.ok (), w.hold pid [])
  | .startTransaction, _, .fails msg, w => some (.error (.error msg), w)
  | .lockGroup, pid, .done, w =>
      (w.pending pid).bind fun _ =>
        if w.groupHeld pid then none else some (.ok w.tables.group, w.lockGroup pid)
  | .lockGroup, _, .fails msg, w => some (.error (.error msg), w)
  | .lockWaiting limit, pid, .done, w =>
      (w.pending pid).bind fun xs =>
        let entries := (w.tables.view missing xs).nextWaiting limit
        if entries.any fun e => w.entryHeld pid e.id then none
        else some (.ok entries, w.lockEntries pid entries)
  | .lockWaiting _, _, .fails msg, w => some (.error (.error msg), w)
  | .tx q, pid, .done, w =>
      (w.pending pid).bind fun xs =>
        if w.blocks missing pid q then none
        else some (q.read missing (w.tables.view missing xs),
          w.hold pid (xs ++ (q.writes missing (w.tables.view missing xs)).toList))
  | .tx _, _, .fails msg, w => some (.error (.error msg), w)
  | .commitTransaction, pid, .done, w =>
      (w.pending pid).map fun xs => (.ok (), w.commit missing pid xs)
  | .commitTransaction, pid, .fails msg, w => some (.error (.error msg), w.release pid)
  | .commitTransaction, pid, .lost msg, w =>
      (w.pending pid).map fun xs => (.error (.error msg), w.commit missing pid xs)
  | .rollbackTransaction, pid, .done, w => some ((), w.release pid)
  | .rollbackTransaction, _, .fails _, w => some ((), w)
  | .notify _, _, .done, w | .dispatchEvent _, _, .done, w => some (.ok (), w)
  | .notify _, _, .fails msg, w | .dispatchEvent _, _, .fails msg, w =>
      some (.error (.error msg), w)
  | .deployRoscaContract _, _, .deployed contractAddress, w => some (.ok contractAddress, w)
  | .deployRoscaContract _, _, .fails msg, w => some (.error (.error msg), w)
  | .dropSession p, _, .done, w => some ((), w.release p)
  | _, _, _, _ => none

/-! ### The open transactions -/

theorem pending_release_self (w : World) (p : ℕ) : (w.release p).pending p = none :=
  Function.update_self ..

theorem pending_release {w : World} {p q : ℕ} {xs : List Write}
    (h : xs ∈ (w.release p).pending q) : xs ∈ w.pending q := by
  by_cases hq : q = p
  · subst hq
    rw [pending_release_self] at h
    cases h
  · exact (Function.update_of_ne hq none w.pending) ▸ h

/-- The transactions and the lock of the others stay. -/
theorem kept_release (w : World) (p q : ℕ) : (w.release p).pending q = none ∨
    ((w.release p).pending q = w.pending q ∧
      (w.groupHolder = some q → (w.release p).groupHolder = some q)) := by
  by_cases hq : q = p
  · exact .inl (hq ▸ pending_release_self w p)
  · refine .inr ⟨Function.update_of_ne hq _ _, fun hheld => ?_⟩
    change (if w.groupHolder = some p then none else w.groupHolder) = some q
    rw [hheld, if_neg fun h => hq (Option.some.inj h)]

theorem pending_hold (w : World) (p : ℕ) (xs : List Write) : (w.hold p xs).pending p = some xs :=
  Function.update_self ..

/-! ### What an operation can do -/

section Operations

variable {missing : OnMissing} {pid : ℕ} {choice : Choice} {w w' : World}

/-- A query outside a transaction fails without effect, or takes effect. -/
theorem exec_db {q : Query} {r : Except Exc q.Ret}
    (h : exec missing (.db q) pid choice w = some (r, w')) :
    (w' = w ∧ ∃ e, r = .error e) ∨
      (w.blocks missing pid q = false ∧ w' = w.execute missing q ∧
        (r = q.read missing w.tables ∨ ∃ e, r = .error e)) := by
  cases choice with
  | done =>
    simp only [exec] at h
    split at h
    · cases h
    next hblocked =>
      cases h
      exact .inr ⟨Bool.eq_false_iff.mpr hblocked, rfl, .inl rfl⟩
  | fails msg =>
    cases h
    exact .inl ⟨rfl, _, rfl⟩
  | lost msg =>
    simp only [exec] at h
    split at h
    · cases h
    next hblocked =>
      cases h
      exact .inr ⟨Bool.eq_false_iff.mpr hblocked, rfl, .inr ⟨_, rfl⟩⟩
  | deployed contractAddress => cases h

theorem exec_startTransaction {r : Except Exc Unit}
    (h : exec missing .startTransaction pid choice w = some (r, w')) :
    (w' = w ∧ ∃ e, r = .error e) ∨ (r = .ok () ∧ w' = w.hold pid []) := by
  cases choice with
  | done =>
    cases h
    exact .inr ⟨rfl, rfl⟩
  | fails msg =>
    cases h
    exact .inl ⟨rfl, _, rfl⟩
  | lost msg => cases h
  | deployed contractAddress => cases h

/-- The lock of the group is granted when nobody else holds it. -/
theorem exec_lockGroup {r : Except Exc (Option GroupRow)}
    (h : exec missing .lockGroup pid choice w = some (r, w')) :
    (w' = w ∧ ∃ e, r = .error e) ∨
      ∃ xs, w.pending pid = some xs ∧ w.groupHeld pid = false ∧ r = .ok w.tables.group ∧
        w' = w.lockGroup pid := by
  cases choice with
  | done =>
    obtain ⟨xs, hxs, h⟩ := Option.bind_eq_some_iff.mp h
    split at h
    · cases h
    next hheld =>
      cases h
      exact .inr ⟨xs, hxs, Bool.eq_false_iff.mpr hheld, rfl, rfl⟩
  | fails msg =>
    cases h
    exact .inl ⟨rfl, _, rfl⟩
  | lost msg => cases h
  | deployed contractAddress => cases h

theorem exec_lockWaiting {limit : ℕ} {r : Except Exc (List WaitlistEntry)}
    (h : exec missing (.lockWaiting limit) pid choice w = some (r, w')) :
    (w' = w ∧ ∃ e, r = .error e) ∨
      ∃ xs, w.pending pid = some xs ∧
        (∀ e ∈ (w.tables.view missing xs).nextWaiting limit, w.entryHeld pid e.id = false) ∧
        r = .ok ((w.tables.view missing xs).nextWaiting limit) ∧
        w' = w.lockEntries pid ((w.tables.view missing xs).nextWaiting limit) := by
  cases choice with
  | done =>
    obtain ⟨xs, hxs, h⟩ := Option.bind_eq_some_iff.mp h
    simp only at h
    split at h
    · cases h
    next hheld =>
      cases h
      refine .inr ⟨xs, hxs, fun e he => ?_, rfl, rfl⟩
      exact Bool.eq_false_iff.mpr fun hb => hheld (List.any_eq_true.mpr ⟨e, he, hb⟩)
  | fails msg =>
    cases h
    exact .inl ⟨rfl, _, rfl⟩
  | lost msg => cases h
  | deployed contractAddress => cases h

/-- A query inside a transaction sees the writes of the transaction; its own write is held back. -/
theorem exec_tx {q : Query} {r : Except Exc q.Ret}
    (h : exec missing (.tx q) pid choice w = some (r, w')) :
    (w' = w ∧ ∃ e, r = .error e) ∨
      ∃ xs, w.pending pid = some xs ∧ r = q.read missing (w.tables.view missing xs) ∧
        w' = w.hold pid (xs ++ (q.writes missing (w.tables.view missing xs)).toList) := by
  cases choice with
  | done =>
    obtain ⟨xs, hxs, h⟩ := Option.bind_eq_some_iff.mp h
    split at h
    · cases h
    · cases h
      exact .inr ⟨xs, hxs, rfl, rfl⟩
  | fails msg =>
    cases h
    exact .inl ⟨rfl, _, rfl⟩
  | lost msg => cases h
  | deployed contractAddress => cases h

/-- A commit drops the transaction with an error, or applies its writes. -/
theorem exec_commitTransaction {r : Except Exc Unit}
    (h : exec missing .commitTransaction pid choice w = some (r, w')) :
    (w' = w.release pid ∧ ∃ e, r = .error e) ∨
      ∃ xs, w.pending pid = some xs ∧ w' = w.commit missing pid xs ∧
        (r = .ok () ∨ ∃ e, r = .error e) := by
  cases choice with
  | done =>
    obtain ⟨xs, hxs, h⟩ := Option.map_eq_some_iff.mp h
    cases h
    exact .inr ⟨xs, hxs, rfl, .inl rfl⟩
  | fails msg =>
    cases h
    exact .inl ⟨rfl, _, rfl⟩
  | lost msg =>
    obtain ⟨xs, hxs, h⟩ := Option.map_eq_some_iff.mp h
    cases h
    exact .inr ⟨xs, hxs, rfl, .inr ⟨_, rfl⟩⟩
  | deployed contractAddress => cases h

theorem exec_rollbackTransaction {r : Unit}
    (h : exec missing .rollbackTransaction pid choice w = some (r, w')) :
    w' = w ∨ w' = w.release pid := by
  cases choice with
  | done =>
    cases h
    exact .inr rfl
  | fails msg =>
    cases h
    exact .inl rfl
  | lost msg => cases h
  | deployed contractAddress => cases h

theorem exec_dropSession {p : ℕ} {r : Unit}
    (h : exec missing (.dropSession p) pid choice w = some (r, w')) : w' = w.release p := by
  cases choice with
  | done =>
    cases h
    rfl
  | fails msg => cases h
  | lost msg => cases h
  | deployed contractAddress => cases h

/-- The operation reaches something other than the database. -/
def Op.isExternal : Op → Bool
  | .notify _ | .deployRoscaContract _ | .dispatchEvent _ => true
  | _ => false

theorem exec_external {o : Op} (ho : o.isExternal = true) {r : o.Ret}
    (h : exec missing o pid choice w = some (r, w')) : w' = w := by
  cases o with
  | notify n => cases choice <;> cases h <;> rfl
  | deployRoscaContract group => cases choice <;> cases h <;> rfl
  | dispatchEvent event => cases choice <;> cases h <;> rfl
  | _ => cases ho

end Operations

end Ahjoor.Members
