import Ahjoor.Groups.PayoutService
import Ahjoor.Stellar.Footprint

/-!
# The payout protocol

The calls that share the payout records: `distributePayout` for a group and a round, the sweep
`pollUnconfirmedPayouts`, the reconciliation jobs, and the queue's housekeeping. Each has its
*discipline*: what it may do next, given what it has done and read so far.

The disciplines say what the protocol relies on. A payment starts only after the call's own
insert of the record; a record is saved only as a copy of one that the call has inserted or
read, and a call knows of every status it overwrites; a payment is recorded as `FAILED` only
without a hash and after the call has seen it fail; the recipient is flagged only after the
record is `SUBMITTED` and enqueued. That the code keeps them is proved from the bodies; what
follows for the shared records is proved from them.
-/

namespace Ahjoor

open Async Bullmq StellarService PayoutService

/-! ### Calls -/

/-- The calls of the payout protocol. -/
inductive PayoutCall
  | distribute (groupId : Uuid) (round : ℤ)
  | sweep
  | reconcile (jobId : ℕ)
  | stalled (jobId : ℕ)
  | expired (jobId : ℕ)

/-- The body of each call. -/
def payoutBody (sdk : Sdk) (cfg : Config) : PayoutCall → Prog Op.Ret (Except Exc Unit)
  | .distribute groupId round => entry (distributePayout sdk cfg groupId round)
  | .sweep => entry pollUnconfirmedPayouts
  | .reconcile jobId => entry (PayoutReconciliationProcessor.runJob cfg jobId)
  | .stalled jobId => entry (Routine.perform (Op.stallJob jobId))
  | .expired jobId => entry (Routine.perform (Op.expireJob jobId))

/-- Any number of these calls on one world. -/
def payoutSystem (sdk : Sdk) (cfg : Config) :
    System Op.Ret Choice World PayoutCall (Except Exc Unit) :=
  ⟨exec, payoutBody sdk cfg⟩

/-- A history of the payout protocol. -/
abbrev PayoutHist := Hist Op.Ret World PayoutCall (Except Exc Unit)

/-- A state of the payout protocol. -/
abbrev PayoutState := State Op.Ret World PayoutCall (Except Exc Unit)

/-- A scheduling decision. -/
abbrev PayoutMove := Move Choice PayoutCall

/-- The call `pid` performs `n` operations that take effect and answer. -/
def dones {Call : Type} (pid n : ℕ) : List (Move Choice Call) := List.replicate n (.run pid .done)

/-! ### What a log says about the records -/

/-- The record that an operation saves. -/
def Op.savedPayout : Op → Option PayoutTransaction
  | .db (.savePayout p) => some p
  | _ => none

/-- The records that an entry hands to its call. -/
def shown : Entry Op.Ret → List PayoutTransaction
  | ⟨.db (.insertPayout _), .ok p⟩ => [p]
  | ⟨.db (.findPayout _), .ok p⟩ | ⟨.db (.findPayoutByOrderId _), .ok p⟩ => Option.toList p
  | ⟨.db (.findPayouts _), .ok ps⟩ => ps
  | _ => []

/-- The records saved, whether or not the save was acknowledged. -/
def saves (L : Log Op.Ret) : List PayoutTransaction := L.filterMap fun e => e.1.savedPayout

/-- The insert of `created` was acknowledged with the stored record. -/
def Inserted (L : Log Op.Ret) (created stored : PayoutTransaction) : Prop :=
  ⟨.db (.insertPayout created), .ok stored⟩ ∈ L

/-- No insert was acknowledged. -/
def NotInserted (L : Log Op.Ret) : Prop := ∀ created stored, ¬ Inserted L created stored

/-- The database stores what it is given under a key of its own. -/
def Honest (L : Log Op.Ret) : Prop :=
  ∀ created stored, Inserted L created stored → stored = { created with id := stored.id }

/-- A copy of the record that the call has inserted. -/
def Own (L : Log Op.Ret) (p : PayoutTransaction) : Prop :=
  ∃ created stored, Inserted L created stored ∧ p.id = stored.id ∧
    p.payoutOrderId = stored.payoutOrderId

/-- The save was acknowledged. -/
def SavedOk (L : Log Op.Ret) (p : PayoutTransaction) : Prop :=
  ⟨.db (.savePayout p), .ok ()⟩ ∈ L

/-- The enqueueing of the record was acknowledged. -/
def Enqueued (L : Log Op.Ret) (id : Uuid) : Prop :=
  ⟨.addJob id (payoutReconciliationJob id), .ok ()⟩ ∈ L

/-- The submission for the group's round has started. -/
def Submitting (L : Log Op.Ret) (groupId : Uuid) (round : ℤ) : Prop :=
  ⟨.note (.submissionStarted groupId round), ()⟩ ∈ L

/-- A final status. -/
def PayoutTransactionStatus.Settled (s : PayoutTransactionStatus) : Prop :=
  s = .confirmed ∨ s = .failed

instance (s : PayoutTransactionStatus) : Decidable s.Settled :=
  inferInstanceAs (Decidable (_ ∨ _))

/-- The outcome is open: `SUBMITTED`, or `PENDING_SUBMISSION` with a hash. -/
def PayoutTransaction.Open (p : PayoutTransaction) : Prop :=
  p.status = .submitted ∨ p.status = .pendingSubmission ∧ truthy p.txHash = true

instance (p : PayoutTransaction) : Decidable p.Open := inferInstanceAs (Decidable (_ ∨ _))

/-! ### Payments -/

/-- The network's answer is within the tolerance of the locked rate. -/
def rateAccepted (result : SendReply) (destinationAmount lockedRate : String)
    (toleranceBps : ℕ) : Prop :=
  (do
    let effectiveRate ← extractEffectiveRate result destinationAmount lockedRate
    isRateWithinTolerance lockedRate effectiveRate toleranceBps) = .ok true

instance (result : SendReply) (destinationAmount lockedRate : String) (toleranceBps : ℕ) :
    Decidable (rateAccepted result destinationAmount lockedRate toleranceBps) :=
  inferInstanceAs (Decidable (_ = _))

/-- The group that an entry has read. -/
def readGroup : Entry Op.Ret → Option Group
  | ⟨.db (.findGroup _), .ok group⟩ => group
  | _ => none

/-- The record whose insert an entry acknowledges. -/
def createdPayout : Entry Op.Ret → Option PayoutTransaction
  | ⟨.db (.insertPayout created), .ok _⟩ => some created
  | _ => none

/-- The terms of a path payment as the call has them: an amount that it has recorded, and the
tolerance of a group that it has read. -/
def terms (L : Log Op.Ret) : List (String × ℕ) :=
  (L.filterMap createdPayout).flatMap fun created =>
    created.requestedAmount.toList.flatMap fun amount =>
      (L.filterMap readGroup).map fun group => (amount, group.fxToleranceBps.getD 200)

/-- The operation is a path payment. -/
def Operation.isPathPayment : Operation → Bool
  | .pathPaymentStrictReceive .. => true
  | _ => false

/-- An attempt to send a path payment, made after the log `L`, whose outcome the call takes for
a failure: an error that ends the failover, or an answer outside the tolerance. -/
def TakenForFailure (e : Entry Op.Ret) (L : Log Op.Ret) : Prop :=
  match e with
  | ⟨.rpc n i _ (.sendTransaction tx), (_, reply)⟩ =>
      tx.operation.isPathPayment = true ∧
        match reply with
        | .error x => n ≤ i + 1 ∨ isTransientRpcFailure x = false
        | .ok result => ∃ t ∈ terms L, ¬ rateAccepted (Option.getD result {}) t.1 "1" t.2
  | _ => False

/-- The call has sent nothing, or has taken its newest attempt for a failure. -/
def SeenToFail (L : Log Op.Ret) : Prop :=
  ∀ e L₀, lastSend L = some (e, L₀) → TakenForFailure e L₀

/-- The saves of `distributePayout`. -/
inductive MaySave (groupId : Uuid) (round : ℤ) (L : Log Op.Ret) : PayoutTransaction → Prop
  /-- the hash, before the transaction is sent -/
  | hash {p} (hown : Own L p) (hsaves : saves L = []) (hstatus : p.status = .pendingSubmission)
      (hhash : truthy p.txHash = true) : MaySave groupId round L p
  /-- `SUBMITTED` -/
  | submitted {p} (hown : Own L p) (hsaves : ∀ q ∈ saves L, q.status = .pendingSubmission)
      (hstatus : p.status = .submitted) (hhash : truthy p.txHash = true) :
      MaySave groupId round L p
  /-- `FAILED` -/
  | failed {p} (hown : Own L p) (hsaves : ∀ q ∈ saves L, q.status = .failed)
      (hstatus : p.status = .failed) (hhash : p.txHash = none)
      (hmark : Submitting L groupId round) (hwhy : SeenToFail L) :
      MaySave groupId round L p

/-- Operations that neither touch the records nor the queue nor send anything. -/
def Op.isMinor : Op → Bool
  | .db (.findPayoutByOrderId _) | .db (.findPayout _) | .db (.findPayouts _) => false
  | .db q => q.isRead
  | .note (.payoutStarted _ _) => true
  | o => o.isRemote

/-- What `distributePayout(groupId, round)` may do next. -/
inductive MayPay (groupId : Uuid) (round : ℤ) (L : Log Op.Ret) : Op → Prop
  | minor {o} (h : o.isMinor = true) : MayPay groupId round L o
  | lookup (h : NotInserted L) :
      MayPay groupId round L (.db (.findPayoutByOrderId (buildPayoutOrderId groupId round)))
  | insert {created : PayoutTransaction}
      (hkey : created.payoutOrderId = buildPayoutOrderId groupId round)
      (hstatus : created.status = .pendingSubmission) (hhash : created.txHash = none)
      (hfirst : NotInserted L) : MayPay groupId round L (.db (.insertPayout created))
  | submit {created stored} (hown : Inserted L created stored)
      (hfirst : ¬ Submitting L groupId round) :
      MayPay groupId round L (.note (.submissionStarted groupId round))
  | send {n i initial tx} (hmark : Submitting L groupId round)
      (hsaves : ∀ q ∈ saves L, q.status = .pendingSubmission) :
      MayPay groupId round L (.rpc n i initial (.sendTransaction tx))
  | save {p} (h : MaySave groupId round L p) : MayPay groupId round L (.db (.savePayout p))
  | enqueue {p : PayoutTransaction} (hown : Own L p) (hstatus : p.status = .submitted)
      (hsaved : SavedOk L p) :
      MayPay groupId round L (.addJob p.id (payoutReconciliationJob p.id))
  | resume {p : PayoutTransaction} {key : String}
      (hread : ⟨.db (.findPayoutByOrderId key), .ok (some p)⟩ ∈ L) (hstatus : p.status = .submitted) :
      MayPay groupId round L (.addJob p.id (payoutReconciliationJob p.id))
  | flag {m : Membership} {p : PayoutTransaction} {txHash : String}
      (hread : ⟨.db (.findMembership { groupId := some groupId, payoutOrder := some (round - 1) }),
        .ok (some m)⟩ ∈ L)
      (hown : Own L p) (hstatus : p.status = .submitted) (hsaved : SavedOk L p)
      (hqueued : Enqueued L p.id) :
      MayPay groupId round L (.db (.saveMembership
        { m with hasReceivedPayout := true, transactionHash := some txHash }))

/-! ### Sweeps and jobs -/

/-- What `pollUnconfirmedPayouts()` may do next. -/
inductive MaySweep : Log Op.Ret → Op → Prop
  | read : MaySweep [] (.db (.findPayouts [.submitted, .pendingSubmission]))
  | enqueue {L} {ps : List PayoutTransaction} {p : PayoutTransaction}
      (hread : ⟨.db (.findPayouts [.submitted, .pendingSubmission]), .ok ps⟩ ∈ L) (hp : p ∈ ps)
      (hhash : p.txHash ≠ none) : MaySweep L (.addJob p.id (payoutReconciliationJob p.id))

/-- `p` is the record `t` with the final status that the chain has reported. -/
inductive Settles (L : Log Op.Ret) (t : PayoutTransaction) : PayoutTransaction → Prop
  | confirmed (h : Reported L (t.txHash.getD "") .confirmed) :
      Settles L t { t with status := .confirmed }
  | failed (h : Reported L (t.txHash.getD "") .failed) : Settles L t { t with status := .failed }

/-- The job's own record of what it found: no payout, a settled one, or one it has settled. -/
def Handled (L : Log Op.Ret) (id : Uuid) : Prop :=
  ⟨.db (.findPayout id), .ok none⟩ ∈ L ∨
    ∃ t, ⟨.db (.findPayout id), .ok (some t)⟩ ∈ L ∧
      (¬ t.Open ∨ ∃ p, SavedOk L p ∧ p.id = t.id ∧ p.status.Settled)

/-- What a worker's run of the job `jobId` may do next. -/
inductive MayReconcile (jobId : ℕ) : Log Op.Ret → Op → Prop
  | take : MayReconcile jobId [] (.takeJob jobId)
  | remote {L o} (h : o.isRemote = true) : MayReconcile jobId L o
  | read {L} {job : Job Uuid} (htake : ⟨.takeJob jobId, some job⟩ ∈ L)
      (hfirst : ∀ e ∈ L, shown e = []) (hsaves : saves L = []) :
      MayReconcile jobId L (.db (.findPayout job.data))
  | settle {L} {job : Job Uuid} {t p} (htake : ⟨.takeJob jobId, some job⟩ ∈ L)
      (hread : ⟨.db (.findPayout job.data), .ok (some t)⟩ ∈ L) (hopen : t.Open)
      (hhash : truthy t.txHash = true) (hsaves : saves L = []) (hp : Settles L t p) :
      MayReconcile jobId L (.db (.savePayout p))
  | finish {L} {job : Job Uuid} {success : Bool} (htake : ⟨.takeJob jobId, some job⟩ ∈ L)
      (hdone : success = true → Handled L job.data) : MayReconcile jobId L (.finishJob jobId success)

/-! ### The disciplines -/

/-- What each call may do next. -/
def May : PayoutCall → Log Op.Ret → Op → Prop
  | .distribute groupId round => MayPay groupId round
  | .sweep => MaySweep
  | .reconcile jobId => MayReconcile jobId
  | .stalled jobId => fun _ o => o = .stallJob jobId
  | .expired jobId => fun _ o => o = .expireJob jobId

/-- What each call may do next, as long as the database is honest. -/
def Permits (c : PayoutCall) (L : Log Op.Ret) (o : Op) : Prop := Honest L → May c L o

/-- What a call that returns has done: a payment it recorded is flagged, and a sweep has
enqueued what it read. -/
def Achieves : PayoutCall → Except Exc Unit → Log Op.Ret → Prop
  | .distribute _ _, result, L => Honest L → result = .ok () →
      NotInserted L ∨ ∃ m, ⟨.db (.saveMembership m), .ok ()⟩ ∈ L
  | .sweep, result, L => result = .ok () →
      ∃ ps : List PayoutTransaction, ⟨.db (.findPayouts [.submitted, .pendingSubmission]), .ok ps⟩ ∈ L ∧
        ∀ p ∈ ps, p.txHash ≠ none → Enqueued L p.id
  | _, _, _ => True

/-! ### Logs and single entries -/

section Logs

@[simp] theorem saves_nil : saves [] = [] := rfl

theorem saves_cons {e : Entry Op.Ret} (h : e.1.savedPayout = none) (L : Log Op.Ret) :
    saves (e :: L) = saves L :=
  List.filterMap_cons_none h

theorem forall_saves_cons {P : PayoutTransaction → Prop} {p : PayoutTransaction}
    {r : (Op.db (.savePayout p)).Ret} {L : Log Op.Ret} (hp : P p) (h : ∀ q ∈ saves L, P q) :
    ∀ q ∈ saves (⟨.db (.savePayout p), r⟩ :: L), P q :=
  List.forall_mem_cons.mpr ⟨hp, h⟩

theorem mem_saves {p : PayoutTransaction} {L : Log Op.Ret} :
    p ∈ saves L ↔ ∃ r, ⟨.db (.savePayout p), r⟩ ∈ L := by
  constructor
  · intro h
    obtain ⟨⟨o, r⟩, hmem, ho⟩ := List.mem_filterMap.mp h
    cases o with
    | db q =>
      cases q with
      | savePayout q =>
        obtain rfl : q = p := Option.some.inj ho
        exact ⟨r, hmem⟩
      | _ => cases ho
    | _ => cases ho
  · rintro ⟨r, hmem⟩
    exact List.mem_filterMap.mpr ⟨_, hmem, rfl⟩

theorem savedPayout_of_isRemote {o : Op} (h : o.isRemote = true) : o.savedPayout = none := by
  cases o with
  | db q => cases h
  | _ => rfl

theorem savedPayout_of_isMinor {o : Op} (h : o.isMinor = true) : o.savedPayout = none := by
  cases o with
  | db q => cases q <;> first | rfl | cases h
  | _ => rfl

theorem isMinor_of_isRemote {o : Op} (h : o.isRemote = true) : o.isMinor = true := by
  cases o with
  | db q => cases h
  | note n => cases h
  | rpc n i initial req => exact h
  | _ => first | rfl | cases h

theorem isSend_of_isMinor {o : Op} (h : o.isMinor = true) : o.isSend = false := by
  cases o with
  | rpc n i initial req => exact isSend_of_isRemote h
  | _ => rfl

theorem NotInserted.cons {L : Log Op.Ret} (h : NotInserted L) {e : Entry Op.Ret}
    (he : ∀ created, e.1 ≠ .db (.insertPayout created)) : NotInserted (e :: L) :=
  fun created stored hmem =>
    (List.mem_cons.mp hmem).elim (fun heq => he created (by rw [← heq])) (h created stored)

theorem mem_terms {L : Log Op.Ret} {groupId : Uuid} {group : Group} {created stored : PayoutTransaction}
    {amount : String} (hgroup : ⟨.db (.findGroup groupId), .ok (some group)⟩ ∈ L)
    (hins : Inserted L created stored) (hamount : created.requestedAmount = some amount) :
    (amount, group.fxToleranceBps.getD 200) ∈ terms L :=
  List.mem_flatMap.mpr ⟨created, List.mem_filterMap.mpr ⟨_, hins, rfl⟩,
    List.mem_flatMap.mpr ⟨amount, by simp [hamount],
      List.mem_map.mpr ⟨group, List.mem_filterMap.mpr ⟨_, hgroup, rfl⟩, rfl⟩⟩⟩

theorem SeenToFail.cons {L : Log Op.Ret} (h : SeenToFail L) {e : Entry Op.Ret}
    (hsend : e.1.isSend = false) : SeenToFail (e :: L) := by
  rw [SeenToFail, lastSend_cons hsend]
  exact h

theorem seenToFail_of_unsent {L : Log Op.Ret} (h : lastSend L = none) : SeenToFail L :=
  fun _ _ hlast => by rw [h] at hlast; cases hlast

theorem Own.cons {L : Log Op.Ret} {p : PayoutTransaction} (h : Own L p) (e : Entry Op.Ret) :
    Own (e :: L) p := by
  obtain ⟨created, stored, hins, hp⟩ := h
  exact ⟨created, stored, List.mem_cons_of_mem e hins, hp⟩

end Logs

end Ahjoor
