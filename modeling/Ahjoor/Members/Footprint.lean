import Ahjoor.Members.WaitlistService

/-!
# The operations of the services on members

Which operations each service can perform, in terms of a set `P` that contains them.
-/

namespace Ahjoor.Members

open Async

/-- The query changes nothing. -/
def Query.isRead : Query → Bool
  | .write _ => false
  | _ => true

theorem execute_of_isRead {missing : OnMissing} {q : Query} (hq : q.isRead = true) (w : World) :
    w.execute missing q = w := by
  cases q with
  | write x => cases hq
  | _ => rfl

/-- A write that the tables accept. -/
theorem execute_write {missing : OnMissing} {w : World} {x : Write}
    (h : w.tables.conflict missing x = none) :
    w.execute missing (.write x) = { w with tables := w.tables.commit missing [x] } := by
  simp only [World.execute, Query.writes, h, Option.isNone_none, if_true, Option.elim_some]

/-- A write that the tables refuse. -/
theorem execute_refused {missing : OnMissing} {w : World} {x : Write} {constraint : String}
    (h : w.tables.conflict missing x = some constraint) : w.execute missing (.write x) = w := by
  simp only [World.execute, Query.writes, h, Option.isNone_some, Bool.false_eq_true, if_false,
    Option.elim_none]

/-- What a query outside a transaction leaves of the world. -/
theorem execute_cases (missing : OnMissing) (w : World) (q : Query) :
    w.execute missing q = w ∨ ∃ x, q = .write x ∧ w.tables.conflict missing x = none ∧
      w.execute missing q = { w with tables := w.tables.commit missing [x] } := by
  cases q with
  | write x =>
    cases hconflict : w.tables.conflict missing x with
    | some constraint => exact .inl (execute_refused hconflict)
    | none => exact .inr ⟨x, rfl, hconflict, execute_write hconflict⟩
  | _ => exact .inl (execute_of_isRead rfl w)

theorem writes_of_isRead {missing : OnMissing} {q : Query} (hq : q.isRead = true) (d : Tables) :
    q.writes missing d = none := by
  cases q with
  | write x => cases hq
  | _ => rfl

/-- A write that the tables have accepted. -/
theorem writes_of_read_ok {missing : OnMissing} {x : Write} {d : Tables}
    {a : Unit}
    (h : (Query.write x).read missing d = .ok a) : (Query.write x).writes missing d = some x := by
  cases hconflict : d.conflict missing x with
  | none => simp only [Query.writes, hconflict, Option.isNone_none, if_true]
  | some constraint =>
    simp only [Query.read, hconflict] at h
    cases h

variable {P : Op → Prop} {α : Type}

theorem uses_db {q : Query} (h : P (.db q)) : Routine.Uses P (db q) := Routine.uses_call h

theorem uses_tx {q : Query} (h : P (.tx q)) : Routine.Uses P (tx q) := Routine.uses_call h

theorem uses_notify {n : Notification} (h : P (.notify n)) : Routine.Uses P (notify n) :=
  Routine.uses_call h

theorem uses_transaction {body : Service α} (hstart : P .startTransaction)
    (hcommit : P .commitTransaction) (hrollback : P .rollbackTransaction)
    (hbody : Routine.Uses P body) : Routine.Uses P (transaction body) := by
  refine Routine.uses_bind (Routine.uses_call hstart) fun _ => Routine.uses_tryCatch ?_ fun _ => ?_
  · exact Routine.uses_bind hbody fun a =>
      Routine.uses_bind (Routine.uses_call hcommit) fun _ => Routine.uses_pure a
  · exact Routine.uses_bind (Routine.uses_call hrollback) fun _ => Routine.uses_throw _

section Members

variable (hread : ∀ q : Query, q.isRead = true → P (.db q))
  (htxRead : ∀ q : Query, q.isRead = true → P (.tx q)) (hlock : P .lockGroup)
  (hinsert : ∀ m, P (.tx (.write (.insertMember m))))
  (hremove : ∀ m, P (.db (.write (.removeMember m))))
  (hsave : ∀ m, P (.db (.write (.saveMember m)))) (hexternal : ∀ o : Op, o.isExternal = true → P o)

include htxRead in
theorem uses_newPayoutOrder (strategy : PayoutOrderStrategy) :
    Routine.Uses P (newPayoutOrder strategy) := by
  cases strategy with
  | sequential =>
    exact Routine.uses_bind (uses_tx (htxRead .maxPayoutOrder rfl)) fun _ => Routine.uses_pure _
  | random => exact Routine.uses_pure _
  | adminDefined => exact Routine.uses_pure _

include htxRead hlock hinsert in
theorem uses_insertMember (userId : Uuid) (walletAddress : String) :
    Routine.Uses P (insertMember userId walletAddress) := by
  refine Routine.uses_bind (Routine.uses_call hlock) fun found => ?_
  refine Routine.uses_bind (Routine.uses_valueOr found _) fun group => ?_
  refine Routine.uses_bind (Routine.uses_throwWhen _ _) fun _ => ?_
  refine Routine.uses_bind (uses_tx (htxRead .countMembers rfl)) fun memberCount => ?_
  refine Routine.uses_bind (Routine.uses_throwWhen _ _) fun _ => ?_
  refine Routine.uses_bind (uses_tx (htxRead (.findMember userId) rfl)) fun existing => ?_
  refine Routine.uses_bind (Routine.uses_throwWhen _ _) fun _ => ?_
  refine Routine.uses_bind (uses_newPayoutOrder htxRead _) fun payoutOrder => ?_
  exact uses_tx (hinsert _)

include hread in
theorem uses_validateGroupNotActive : Routine.Uses P validateGroupNotActive := by
  refine Routine.uses_bind (uses_db (hread .findGroup rfl)) fun found => ?_
  refine Routine.uses_bind (Routine.uses_valueOr found _) fun group => ?_
  exact Routine.uses_throwWhen _ _

include hread hremove in
theorem uses_removeMember (userId : Uuid) : Routine.Uses P (removeMember userId) := by
  refine Routine.uses_bind (uses_validateGroupNotActive hread) fun _ => ?_
  refine Routine.uses_bind (uses_db (hread (.findMember userId) rfl)) fun found => ?_
  refine Routine.uses_bind (Routine.uses_valueOr found _) fun membership => ?_
  exact uses_db (hremove _)

include hsave in
theorem uses_resequence (departing : Option ℤ) (members : List Member) :
    Routine.Uses P (resequence departing members) := by
  induction members with
  | nil => exact Routine.uses_pure ()
  | cons member members ih =>
    unfold resequence
    split
    · exact Routine.uses_bind (uses_db (hsave _)) fun _ => ih
    · exact ih

include hread hremove hsave hexternal in
theorem uses_leaveGroup (userId : Uuid) : Routine.Uses P (leaveGroup userId) := by
  refine Routine.uses_bind (uses_db (hread .findGroup rfl)) fun found => ?_
  refine Routine.uses_bind (Routine.uses_valueOr found _) fun group => ?_
  refine Routine.uses_bind (Routine.uses_throwWhen _ _) fun _ => ?_
  refine Routine.uses_bind (uses_db (hread (.findMember userId) rfl)) fun found => ?_
  refine Routine.uses_bind (Routine.uses_valueOr found _) fun membership => ?_
  refine Routine.uses_bind (uses_db (hremove membership)) fun _ => ?_
  refine Routine.uses_bind (uses_db (hread .findMembers rfl)) fun remainingMembers => ?_
  refine Routine.uses_bind (uses_resequence hsave _ _) fun _ => ?_
  exact uses_notify (hexternal _ rfl)

include hread in
theorem uses_asAdmin (requestingUserId : Uuid) (message : String) :
    Routine.Uses P (asAdmin requestingUserId message) := by
  refine Routine.uses_bind (uses_db (hread .findGroup rfl)) fun found => ?_
  refine Routine.uses_bind (Routine.uses_valueOr found _) fun group => ?_
  refine Routine.uses_bind (uses_db (hread (.findMember _) rfl)) fun found => ?_
  refine Routine.uses_bind (Routine.uses_valueOr found _) fun requestingMembership => ?_
  exact Routine.uses_bind (Routine.uses_throwWhen _ _) fun _ => Routine.uses_pure group

include hread hsave hexternal in
theorem uses_suspendMember (targetUserId requestingUserId : Uuid) (reason : String) :
    Routine.Uses P (suspendMember targetUserId requestingUserId reason) := by
  refine Routine.uses_bind (Routine.uses_throwWhen _ _) fun _ => ?_
  refine Routine.uses_bind (uses_asAdmin hread _ _) fun group => ?_
  refine Routine.uses_bind (uses_db (hread (.findMember _) rfl)) fun found => ?_
  refine Routine.uses_bind (Routine.uses_valueOr found _) fun targetMembership => ?_
  split
  · exact Routine.uses_pure ()
  · exact Routine.uses_bind (uses_db (hsave _)) fun _ => uses_notify (hexternal _ rfl)

include hread hsave hexternal in
theorem uses_reinstateMember (targetUserId requestingUserId : Uuid) :
    Routine.Uses P (reinstateMember targetUserId requestingUserId) := by
  refine Routine.uses_bind (uses_asAdmin hread _ _) fun group => ?_
  refine Routine.uses_bind (uses_db (hread (.findMember _) rfl)) fun found => ?_
  refine Routine.uses_bind (Routine.uses_valueOr found _) fun targetMembership => ?_
  exact Routine.uses_bind (uses_db (hsave _)) fun _ => uses_notify (hexternal _ rfl)

end Members

section Waitlist

variable (hread : ∀ q : Query, q.isRead = true → P (.db q))
include hread

/-- What a join performs. -/
theorem uses_joinWaitlist (hinsert : ∀ e, P (.db (.write (.insertEntry e)))) (maxWaitlist : ℤ)
    (userId : Uuid) (walletAddress : String) :
    Routine.Uses P (joinWaitlist maxWaitlist userId walletAddress) := by
  refine Routine.uses_bind (uses_db (hread .findGroup rfl)) fun found => ?_
  refine Routine.uses_bind (Routine.uses_valueOr found _) fun group => ?_
  refine Routine.uses_bind (uses_db (hread (.findMember userId) rfl)) fun isMember => ?_
  refine Routine.uses_bind (Routine.uses_throwWhen _ _) fun _ => ?_
  refine Routine.uses_bind (uses_db (hread (.findWaiting userId) rfl)) fun existing => ?_
  refine Routine.uses_bind (Routine.uses_throwWhen _ _) fun _ => ?_
  refine Routine.uses_bind (uses_db (hread .countMembers rfl)) fun memberCount => ?_
  refine Routine.uses_bind (Routine.uses_throwWhen _ _) fun _ => ?_
  refine Routine.uses_bind (uses_db (hread .countWaiting rfl)) fun waitlistCount => ?_
  refine Routine.uses_bind (Routine.uses_throwWhen _ _) fun _ => ?_
  exact Routine.uses_bind (uses_db (hinsert _)) fun _ => Routine.uses_pure _

theorem uses_leaveWaitlist (hsave : ∀ e, P (.db (.write (.saveEntry e))))
    (hgap : ∀ position, P (.db (.write (.closeGap position)))) (userId : Uuid) :
    Routine.Uses P (leaveWaitlist userId) := by
  refine Routine.uses_bind (uses_db (hread (.findWaiting userId) rfl)) fun found => ?_
  refine Routine.uses_bind (Routine.uses_valueOr found _) fun entry => ?_
  exact Routine.uses_bind (uses_db (hsave _)) fun _ => uses_db (hgap _)

end Waitlist

section Admission

variable (htxRead : ∀ q : Query, q.isRead = true → P (.tx q)) (hlock : P .lockGroup)
  (hlockWaiting : ∀ limit, P (.lockWaiting limit)) (hinsert : ∀ m, P (.tx (.write (.insertMember m))))
  (hadmission : ∀ e, P (.tx (.write (.saveEntry e))))

include hinsert hadmission in
theorem uses_admitEntries (entries : List WaitlistEntry) (n : ℤ) :
    Routine.Uses P (admitEntries entries n) := by
  induction entries generalizing n with
  | nil => exact Routine.uses_pure _
  | cons entry entries ih =>
    refine Routine.uses_bind (uses_tx (hinsert _)) fun _ => ?_
    refine Routine.uses_bind (uses_tx (hadmission _)) fun _ => ?_
    exact Routine.uses_bind (ih (n + 1)) fun _ => Routine.uses_pure _

include htxRead hlock hlockWaiting hinsert hadmission in
theorem uses_admitFromWaitlistInTransaction (maxToAdmit : Option ℤ) :
    Routine.Uses P (admitFromWaitlistInTransaction maxToAdmit) := by
  refine Routine.uses_bind (Routine.uses_call hlock) fun found => ?_
  cases found with
  | none => exact Routine.uses_pure _
  | some group =>
    refine Routine.uses_bind (uses_tx (htxRead .countMembers rfl)) fun memberCount => ?_
    dsimp only
    split
    · exact Routine.uses_pure _
    split
    · exact Routine.uses_pure _
    refine Routine.uses_bind (Routine.uses_call (hlockWaiting _)) fun entries => ?_
    split
    · exact Routine.uses_pure _
    refine Routine.uses_bind (uses_tx (htxRead .maxPayoutOrder rfl)) fun maxOrder => ?_
    exact uses_admitEntries hinsert hadmission _ _

end Admission

section Activation

variable (hread : ∀ q : Query, q.isRead = true → P (.db q))
  (hsave : ∀ m, P (.db (.write (.saveMember m)))) (hgroup : ∀ g, P (.db (.write (.saveGroup g))))
  (hexternal : ∀ o : Op, o.isExternal = true → P o)

include hsave in
theorem uses_assignPayoutOrders (strategy : PayoutOrderStrategy) (random : ℕ → ℕ)
    (members : List Member) : Routine.Uses P (assignPayoutOrders strategy random members) := by
  cases strategy with
  | sequential => exact Routine.uses_pure ()
  | random => exact Routine.uses_forEach fun x _ => uses_db (hsave _)
  | adminDefined =>
    exact Routine.uses_bind (Routine.uses_throwWhen _ _) fun _ => Routine.uses_throwWhen _ _

include hgroup in
theorem uses_rollBackActivation (savedGroup : GroupRow) :
    Routine.Uses P (rollBackActivation savedGroup) :=
  Routine.uses_bind (uses_db (hgroup _)) fun _ => Routine.uses_throw _

include hgroup hexternal in
theorem uses_storeContractAddress (savedGroup : GroupRow) :
    Routine.Uses P (storeContractAddress savedGroup) :=
  Routine.uses_bind (uses_db (hgroup _)) fun _ =>
    Routine.uses_tryCatch (Routine.uses_call (hexternal _ rfl)) fun _ => Routine.uses_pure ()

include hread hsave hgroup hexternal in
theorem uses_activateGroup (adminWallet : String) (random : ℕ → ℕ) :
    Routine.Uses P (activateGroup adminWallet random) := by
  refine Routine.uses_bind (uses_db (hread .findGroupWithMembers rfl)) fun found => ?_
  refine Routine.uses_bind (Routine.uses_valueOr found _) fun x => ?_
  refine Routine.uses_bind (Routine.uses_throwWhen _ _) fun _ => ?_
  refine Routine.uses_bind (Routine.uses_throwWhen _ _) fun _ => ?_
  refine Routine.uses_bind (Routine.uses_throwWhen _ _) fun _ => ?_
  refine Routine.uses_bind (uses_assignPayoutOrders hsave _ _ _) fun _ => ?_
  refine Routine.uses_bind (uses_db (hgroup _)) fun _ => ?_
  refine Routine.uses_bind (Routine.uses_tryCatch (Routine.uses_call (hexternal _ rfl)) fun _ =>
    Routine.uses_pure none) fun deployed => ?_
  cases deployed with
  | none => exact uses_rollBackActivation hgroup _
  | some contractAddress =>
    exact Routine.uses_tryCatch (uses_storeContractAddress hgroup hexternal _) fun _ =>
      uses_rollBackActivation hgroup _

end Activation

end Ahjoor.Members
