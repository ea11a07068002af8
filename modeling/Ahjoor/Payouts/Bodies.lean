import Ahjoor.Payouts.Protocol

/-!
# The bodies keep the disciplines

Each body of the payout protocol is followed construct by construct, for every reply that its
operations can be given. The assertions between the constructs say how far a payout has come:
`Before` the insert, `Base` after it, `Hashed` once its hash is known, `Failable` where the
`catch` block records the failure.
-/

namespace Ahjoor

open Async Bullmq StellarService PayoutService

/-! ### Path payments -/

section PathPayment

variable {σ : Type} {D : Log Op.Ret → Op → Prop} {L : Log Op.Ret} {s : σ}

/-- The two outcomes that `distributePayout` records as a failure. -/
def PathPaymentOutcome.Bad (o : PathPaymentOutcome) : Prop := o = .slippageExceeded ∨ o = .failed

/-- The result for an answer is bad or an exception only when the rate was not accepted, and
carries the hash. -/
theorem pathPaymentResult_cases (result : SendReply) (txHash destinationAmount code
    lockedRate : String) (toleranceBps : ℕ) :
    match pathPaymentResult result txHash destinationAmount code lockedRate toleranceBps with
    | .ok res => res.txHash = some txHash ∧
        (res.outcome.Bad → ¬ rateAccepted result destinationAmount lockedRate toleranceBps)
    | .error _ => ¬ rateAccepted result destinationAmount lockedRate toleranceBps := by
  unfold pathPaymentResult rateAccepted
  cases hrate : extractEffectiveRate result destinationAmount lockedRate with
  | error e => simp [bind, Except.bind]
  | ok rate =>
    cases hwithin : isRateWithinTolerance lockedRate rate toleranceBps with
    | error e => simp [bind, Except.bind, hwithin]
    | ok within =>
      cases within with
      | false => simp [bind, Except.bind, hwithin, pure, Except.pure]
      | true =>
        simp only [bind, Except.bind, hwithin, pure, Except.pure, Bool.not_true,
          Bool.false_eq_true, if_false]
        split_ifs <;> simp [PathPaymentOutcome.Bad]

/-- What a path payment's bad outcome says about its sending: nothing was sent, or the newest
attempt was of a path payment and ended the failover, or its answer was outside the tolerance. -/
def PaymentFailed (A : Log Op.Ret → Prop) (amount lockedRate : String) (toleranceBps : ℕ)
    (L : Log Op.Ret) : Prop :=
  lastSend L = none ∨ ∃ tx : Transaction, tx.operation.isPathPayment = true ∧
    (Stopped tx L ∨ ∃ reply, Answered tx A L reply ∧
      ¬ rateAccepted (reply.getD {}) amount lockedRate toleranceBps)

theorem isPathPayment_of_pathPayment? {sdk : Sdk} {source dest : Asset} {sendMax wallet amount : String}
    {op : Operation} (h : sdk.pathPayment? source sendMax wallet dest amount = some op) :
    op.isPathPayment = true := by
  unfold Sdk.pathPayment? at h
  split at h
  · cases h
    rfl
  · cases h

theorem obeys_pathPaymentHash (result : SendReply) {A : Log Op.Ret → Prop}
    (hA : Admits D (·.isRemote = true) A) (h : A L) :
    Obeys D (pathPaymentHash result : Service σ String)
      (fun hash t L' => hash ≠ "" ∧ t = s ∧ A L') (fun _ _ _ => False) s L := by
  unfold pathPaymentHash
  split
  · next hash _ => exact Obeys.pure ⟨hash.2, rfl, h⟩
  · refine Obeys.bind (Obeys.perform (hA.allowed L .now h rfl) fun t : ℕ => ?_)
    have hne : (s!"path_payment_{t}" : String) ≠ "" := fun heq =>
      absurd (String.append_eq_empty_iff.mp heq).1 (by decide)
    exact Obeys.pure ⟨hne, rfl, hA.kept L .now t h rfl⟩

/-- **The rule for the `try` block of `submitPathPayment`.** -/
theorem obeys_sendPathPayment (sdk : Sdk) (cfg : Config) {A : Log Op.Ret → Prop}
    (hA : Admits D (·.isRemote = true) A) (hsend : Admits D (·.isSend = true) A)
    (sourceAsset destinationAsset : Asset) (code amount lockedRate : String) (toleranceBps : ℕ)
    (senderWallet : String) (h : A L) (hunsent : lastSend L = none) :
    Obeys D (sendPathPayment sdk cfg sourceAsset destinationAsset code amount lockedRate
        toleranceBps senderWallet)
      (fun result t L' => t = s ∧ A L' ∧
        (result.outcome.Bad → PaymentFailed A amount lockedRate toleranceBps L') ∧
        ∀ hash, result.txHash = some hash → hash ≠ "")
      (fun _ t L' => t = s ∧ A L' ∧ PaymentFailed A amount lockedRate toleranceBps L') s L := by
  have hunsent' : Admits D (·.isRemote = true) fun L => A L ∧ lastSend L = none :=
    admits_lastSend hA (· = none)
  refine Obeys.bind (obeys_evaluate (fun sendMax _ => ?_) fun e _ => ⟨rfl, h, .inl hunsent⟩)
  refine Obeys.bind (obeys_orThrow (fun operation hop => ?_) fun _ => ⟨rfl, h, .inl hunsent⟩)
  refine Obeys.bind (obeys_orThrow (fun tx htx => ?_) fun _ => ⟨rfl, h, .inl hunsent⟩)
  have hpath : tx.operation.isPathPayment = true := by
    rw [operation_of_build htx]
    exact isPathPayment_of_pathPayment? hop
  refine Obeys.bind ((Obeys.of_uses hunsent' (uses_withFailover cfg fun _ _ _ => rfl)
    ⟨h, hunsent⟩).mono (fun resourceFee t L' hL' => ?_)
    fun _ t L' hL' => ⟨hL'.1, hL'.2.1, .inl hL'.2.2⟩)
  obtain ⟨rfl, h, hunsent⟩ := hL'
  have hsent : ({ tx with resourceFee := some resourceFee } : Transaction).operation.isPathPayment =
    true := hpath
  refine Obeys.bind ((obeys_send cfg hsend _ h hunsent).mono (fun reply t L' hL' => ?_)
    fun _ t L' hL' => ⟨hL'.1, hL'.2.1, .inr ⟨_, hsent, .inl hL'.2.2⟩⟩)
  obtain ⟨rfl, h, hanswered⟩ := hL'
  have hanswered' : Admits D (·.isRemote = true) fun L =>
      A L ∧ Answered { tx with resourceFee := some resourceFee } A L reply :=
    admits_lastSend hA fun last => ∃ n i initial start L₀, A L₀ ∧ last =
      some (⟨.rpc n i initial (.sendTransaction { tx with resourceFee := some resourceFee }),
        (start, .ok reply)⟩, L₀)
  refine Obeys.bind ((obeys_pathPaymentHash (reply.getD {}) hanswered' ⟨h, hanswered⟩).mono
    (fun txHash t L' hL' => ?_) fun _ _ _ => False.elim)
  obtain ⟨hne, rfl, h, hanswered⟩ := hL'
  have hcases := pathPaymentResult_cases (reply.getD {}) txHash amount code lockedRate toleranceBps
  refine obeys_evaluate (fun result hresult => ?_) fun e he => ?_
  · rw [hresult] at hcases
    refine ⟨rfl, h, fun hbad => .inr ⟨_, hsent, .inr ⟨reply, hanswered, hcases.2 hbad⟩⟩,
      fun hash hhash => ?_⟩
    rw [hcases.1] at hhash
    exact Option.some.inj hhash ▸ hne
  · rw [he] at hcases
    exact ⟨rfl, h, .inr ⟨_, hsent, .inr ⟨reply, hanswered, hcases⟩⟩⟩

/-- **The rule for `submitPathPayment`.** A bad outcome means that the payment has failed as far
as the call can see; an exception means that nothing was sent. -/
theorem obeys_submitPathPayment (sdk : Sdk) (cfg : Config) {A : Log Op.Ret → Prop}
    (hA : Admits D (·.isRemote = true) A) (hsend : Admits D (·.isSend = true) A)
    (sourceCode : String) (sourceIssuer : Option String) (code : String) (issuer : Option String)
    (amount lockedRate : String) (toleranceBps : ℕ) (senderWallet : String) (h : A L)
    (hunsent : lastSend L = none) :
    Obeys D (submitPathPayment sdk cfg sourceCode sourceIssuer code issuer amount lockedRate
        toleranceBps senderWallet)
      (fun result t L' => t = s ∧ A L' ∧
        (result.outcome.Bad → PaymentFailed A amount lockedRate toleranceBps L') ∧
        ∀ hash, result.txHash = some hash → hash ≠ "")
      (fun _ t L' => t = s ∧ A L' ∧ lastSend L' = none) s L := by
  refine Obeys.bind ((Obeys.of_uses (admits_lastSend hA (· = none)) (uses_validateConfiguration cfg)
    ⟨h, hunsent⟩).mono (fun _ t L' hL' => ?_) fun _ _ _ h => h)
  obtain ⟨rfl, h, hunsent⟩ := hL'
  refine Obeys.bind (obeys_evaluate (fun sourceAsset _ => ?_) fun e _ => ⟨rfl, h, hunsent⟩)
  refine Obeys.bind (obeys_evaluate (fun destinationAsset _ => ?_) fun e _ => ⟨rfl, h, hunsent⟩)
  split
  · exact Obeys.pure ⟨rfl, h, by simp [PathPaymentOutcome.Bad], by simp⟩
  · refine Obeys.tryCatch ((obeys_sendPathPayment sdk cfg hA hsend _ _ _ _ _ _ _ h hunsent).mono
      (fun _ _ _ h => h) fun e t L' hL' => ?_)
    obtain ⟨rfl, h, hfailed⟩ := hL'
    exact Obeys.pure ⟨rfl, h, fun _ => hfailed, by simp [pathPaymentFailure]⟩

end PathPayment

/-! ### How far a payout has come -/

section Distribute

variable {groupId : Uuid} {round : ℤ}

/-- Nothing is recorded, sent or saved yet. -/
structure Before (groupId : Uuid) (round : ℤ) (L : Log Op.Ret) : Prop where
  notInserted : NotInserted L
  saves : saves L = []
  unsent : lastSend L = none
  unmarked : ¬ Submitting L groupId round

/-- What the call has read: the group and the recipient. -/
structure HasRead (groupId : Uuid) (round : ℤ) (group : Group) (recipient : Membership)
    (L : Log Op.Ret) : Prop where
  group : ⟨.db (.findGroup groupId), .ok (some group)⟩ ∈ L
  recipient : ⟨.db (.findMembership { groupId := some groupId, payoutOrder := some (round - 1) }),
    .ok (some recipient)⟩ ∈ L

/-- The record `stored` is inserted, and the captured entity `p` is a copy of it. -/
structure Base (groupId : Uuid) (round : ℤ) (group : Group) (recipient : Membership)
    (created stored : PayoutTransaction) (p : PayoutTransaction) (L : Log Op.Ret) : Prop where
  read : HasRead groupId round group recipient L
  inserted : Inserted L created stored
  id : p.id = stored.id
  key : p.payoutOrderId = stored.payoutOrderId

theorem not_submitting_cons {L : Log Op.Ret} (h : ¬ Submitting L groupId round) {e : Entry Op.Ret}
    (he : e.1 ≠ .note (.submissionStarted groupId round)) : ¬ Submitting (e :: L) groupId round :=
  fun hmem => (List.mem_cons.mp hmem).elim (fun heq => he (by rw [← heq])) h

theorem Before.cons {L : Log Op.Ret} (h : Before groupId round L) {e : Entry Op.Ret}
    (hinsert : ∀ created, e.1 ≠ .db (.insertPayout created)) (hsaved : e.1.savedPayout = none)
    (hsend : e.1.isSend = false) (hmark : e.1 ≠ .note (.submissionStarted groupId round)) :
    Before groupId round (e :: L) where
  notInserted := h.notInserted.cons hinsert
  saves := by rw [saves_cons hsaved, h.saves]
  unsent := by rw [lastSend_cons hsend, h.unsent]
  unmarked := not_submitting_cons h.unmarked hmark

theorem Before.minor {L : Log Op.Ret} (h : Before groupId round L) {o : Op}
    (ho : o.isMinor = true) (r : o.Ret) : Before groupId round (⟨o, r⟩ :: L) :=
  h.cons (fun created heq => by cases heq; cases ho) (savedPayout_of_isMinor ho)
    (isSend_of_isMinor ho) fun heq => by cases heq; cases ho

theorem HasRead.cons {group : Group} {recipient : Membership} {L : Log Op.Ret}
    (h : HasRead groupId round group recipient L) (e : Entry Op.Ret) :
    HasRead groupId round group recipient (e :: L) :=
  ⟨List.mem_cons_of_mem e h.group, List.mem_cons_of_mem e h.recipient⟩

theorem Base.cons {group : Group} {recipient : Membership} {created stored p : PayoutTransaction}
    {L : Log Op.Ret} (h : Base groupId round group recipient created stored p L)
    (e : Entry Op.Ret) : Base groupId round group recipient created stored p (e :: L) :=
  ⟨h.read.cons e, List.mem_cons_of_mem e h.inserted, h.id, h.key⟩

theorem Base.own {group : Group} {recipient : Membership} {created stored p : PayoutTransaction}
    {L : Log Op.Ret} (h : Base groupId round group recipient created stored p L) : Own L p :=
  ⟨created, stored, h.inserted, h.id, h.key⟩

/-- A query of `findRecipient`. -/
theorem obeys_minor {σ : Type} {q : Query} {Q : q.Ret → σ → Log Op.Ret → Prop} {s : σ}
    {L : Log Op.Ret} (hq : (Op.db q).isMinor = true)
    (hok : ∀ a, Q a s (⟨.db q, .ok a⟩ :: L)) :
    Obeys (Permits (.distribute groupId round)) (query q : Service σ q.Ret) Q
      (fun _ _ _ => True) s L :=
  obeys_query (fun _ => .minor hq) hok fun _ => trivial

theorem obeys_findRecipient {L : Log Op.Ret} (h : Before groupId round L) :
    Obeys (Permits (.distribute groupId round)) (findRecipient groupId round : Service Unit _)
      (fun x _ L' => Before groupId round L' ∧ HasRead groupId round x.1 x.2.2 L')
      (fun _ _ _ => True) () L := by
  refine Obeys.bind (obeys_minor rfl fun group? => ?_)
  refine Obeys.bind (obeys_orThrow (fun group hgroup => ?_) fun _ => trivial)
  obtain rfl : group? = some group := hgroup
  refine Obeys.bind (obeys_throwIf (fun _ => trivial) fun _ => ?_)
  refine Obeys.bind (obeys_throwIf (fun _ => trivial) fun _ => ?_)
  refine Obeys.bind (obeys_minor rfl fun recipient? => ?_)
  refine Obeys.bind (obeys_orThrow (fun recipient hrecipient => ?_) fun _ => trivial)
  obtain rfl : recipient? = some recipient := hrecipient
  refine Obeys.bind (obeys_throwIf (fun _ => trivial) fun _ => ?_)
  refine Obeys.bind (obeys_minor rfl fun outstandingPenalties => ?_)
  split
  · refine Obeys.bind (obeys_emit (fun _ => .minor rfl) ?_ fun _ => trivial)
    exact Obeys.throw trivial
  · exact Obeys.pure ⟨((h.minor rfl _).minor rfl _).minor rfl _,
      ⟨by simp, by simp⟩⟩

/-! ### From the insert to the flag -/

section Recorded

variable {group : Group} {recipient : Membership} {created stored : PayoutTransaction}

/-- The payment has started, and nothing is saved yet. -/
structure Marked (groupId : Uuid) (round : ℤ) (group : Group) (recipient : Membership)
    (created stored p : PayoutTransaction) (L : Log Op.Ret) : Prop
    extends Base groupId round group recipient created stored p L where
  saves : saves L = []
  status : p.status = .pendingSubmission
  hash : p.txHash = none
  mark : Submitting L groupId round

/-- The hash is known, and nothing but the hash may have been saved. -/
structure Hashed (groupId : Uuid) (round : ℤ) (group : Group) (recipient : Membership)
    (created stored p : PayoutTransaction) (L : Log Op.Ret) : Prop
    extends Base groupId round group recipient created stored p L where
  saves : ∀ q ∈ saves L, q.status = .pendingSubmission
  status : p.status = .pendingSubmission
  hash : truthy p.txHash = true
  mark : Submitting L groupId round

/-- The payment has failed without a hash, and nothing but that may have been saved. -/
structure Failable (groupId : Uuid) (round : ℤ) (group : Group) (recipient : Membership)
    (created stored p : PayoutTransaction) (L : Log Op.Ret) : Prop
    extends Base groupId round group recipient created stored p L where
  saves : ∀ q ∈ saves L, q.status = .failed
  hash : p.txHash = none
  mark : Submitting L groupId round
  seen : SeenToFail L

/-- What holds when the `try` block throws: the call has a hash, or may record the failure. -/
def Caught (groupId : Uuid) (round : ℤ) (group : Group) (recipient : Membership)
    (created stored p : PayoutTransaction) (L : Log Op.Ret) : Prop :=
  truthy p.txHash = true ∨ Failable groupId round group recipient created stored p L

/-- The record is `SUBMITTED` and enqueued. -/
structure Finished (groupId : Uuid) (round : ℤ) (group : Group) (recipient : Membership)
    (created stored p : PayoutTransaction) (L : Log Op.Ret) : Prop
    extends Base groupId round group recipient created stored p L where
  status : p.status = .submitted
  saved : SavedOk L p
  queued : Enqueued L p.id

variable {p : PayoutTransaction} {L : Log Op.Ret}

theorem Marked.cons (h : Marked groupId round group recipient created stored p L)
    {e : Entry Op.Ret} (he : e.1.savedPayout = none) :
    Marked groupId round group recipient created stored p (e :: L) :=
  ⟨h.toBase.cons e, by rw [saves_cons he, h.saves], h.status, h.hash,
    List.mem_cons_of_mem e h.mark⟩

theorem Hashed.cons (h : Hashed groupId round group recipient created stored p L)
    {e : Entry Op.Ret} (he : e.1.savedPayout = none) :
    Hashed groupId round group recipient created stored p (e :: L) :=
  ⟨h.toBase.cons e, by rw [saves_cons he]; exact h.saves, h.status, h.hash,
    List.mem_cons_of_mem e h.mark⟩

theorem exists_of_isSend {o : Op} (h : o.isSend = true) :
    ∃ n i initial tx, o = .rpc n i initial (.sendTransaction tx) := by
  cases o with
  | rpc n i initial req =>
    cases req with
    | sendTransaction tx => exact ⟨n, i, initial, tx, rfl⟩
    | _ => cases h
  | _ => cases h

theorem savedPayout_of_isSend {o : Op} (h : o.isSend = true) : o.savedPayout = none := by
  obtain ⟨n, i, initial, tx, rfl⟩ := exists_of_isSend h
  rfl

theorem admits_marked (P : Op → Prop)
    (hP : ∀ o, P o → o.isRemote = true ∨ o.isSend = true) :
    Admits (Permits (.distribute groupId round)) P
      (Marked groupId round group recipient created stored p) where
  allowed L o h ho := fun _ => by
    rcases hP o ho with ho | ho
    · exact .minor (isMinor_of_isRemote ho)
    · obtain ⟨n, i, initial, tx, rfl⟩ := exists_of_isSend ho
      exact .send h.mark (by simp [h.saves])
  kept L o r h ho := h.cons ((hP o ho).elim savedPayout_of_isRemote savedPayout_of_isSend)

theorem admits_hashed (P : Op → Prop)
    (hP : ∀ o, P o → o.isRemote = true ∨ o.isSend = true) :
    Admits (Permits (.distribute groupId round)) P
      (Hashed groupId round group recipient created stored p) where
  allowed L o h ho := fun _ => by
    rcases hP o ho with ho | ho
    · exact .minor (isMinor_of_isRemote ho)
    · obtain ⟨n, i, initial, tx, rfl⟩ := exists_of_isSend ho
      exact .send h.mark h.saves
  kept L o r h ho := h.cons ((hP o ho).elim savedPayout_of_isRemote savedPayout_of_isSend)

/-- The callback of `disbursePayout`: store the hash before the transaction is sent. -/
theorem obeys_storeHash (hash : Hash)
    (h : Marked groupId round group recipient created stored p L) :
    Obeys (Permits (.distribute groupId round))
      (do
        modify fun p => { p with txHash := some hash.1 }
        savePayoutTransaction)
      (fun _ => Hashed groupId round group recipient created stored)
      (fun _ p _ => truthy p.txHash = true) p L := by
  have htruthy : truthy (some hash.1) = true := by simpa using hash.2
  refine Obeys.bind (Obeys.modify ?_)
  refine Obeys.bind (Obeys.get (obeys_query (fun _ => .save ?_) (fun _ => ?_) fun _ => htruthy))
  · exact .hash ⟨created, stored, h.inserted, h.id, h.key⟩ h.saves h.status htruthy
  · exact ⟨⟨h.read.cons _, List.mem_cons_of_mem _ h.inserted, h.id, h.key⟩,
      forall_saves_cons h.status (by simp [h.saves]), h.status, htruthy, List.mem_cons_of_mem _ h.mark⟩

/-- Saving a failure. -/
theorem obeys_saveFailed (h : Failable groupId round group recipient created stored p L)
    (hstatus : p.status = .failed) :
    Obeys (Permits (.distribute groupId round)) savePayoutTransaction
      (fun _ => Failable groupId round group recipient created stored)
      (fun _ => Failable groupId round group recipient created stored) p L := by
  have after : ∀ r, Failable groupId round group recipient created stored p
      (⟨.db (.savePayout p), r⟩ :: L) := fun r =>
    ⟨h.toBase.cons _, forall_saves_cons hstatus h.saves, h.hash, List.mem_cons_of_mem _ h.mark,
      h.seen.cons rfl⟩
  exact Obeys.bind (Obeys.get (obeys_query
    (fun _ => .save (.failed h.toBase.own h.saves hstatus h.hash h.mark h.seen))
    (fun _ => after _) fun _ => after _))

/-- The branch that pays through the contract. -/
theorem obeys_payByContract (sdk : Sdk) (cfg : Config) (contractAddress code : String)
    (issuer : Option String) (amount : String)
    (h : Marked groupId round group recipient created stored p L) (hunsent : lastSend L = none) :
    Obeys (Permits (.distribute groupId round))
      (do
        let txHash ← disbursePayout sdk cfg contractAddress recipient.walletAddress amount
          (some fun calculatedHash => do
            modify fun p => { p with txHash := some calculatedHash }
            savePayoutTransaction)
          (some code) issuer
        modify fun p => { p with
          txHash := some txHash
          deliveredAmount := some amount
          pathPaymentOutcome := some .fullFill }
        pure txHash)
      (fun _ => Hashed groupId round group recipient created stored)
      (fun _ => Caught groupId round group recipient created stored) p L := by
  refine Obeys.bind ((obeys_disbursePayout sdk cfg
    (A := fun p L => Marked groupId round group recipient created stored p L ∧ lastSend L = none)
    (B := Hashed groupId round group recipient created stored)
    (Y := fun p _ => truthy p.txHash = true)
    (fun p => admits_lastSend (admits_marked _ fun _ => .inl) (· = none))
    (fun p => admits_hashed _ fun _ => .inl) (fun p => admits_hashed _ fun _ => .inr)
    (fun hash p L h => obeys_storeHash hash h.1) _ _ _ _ _ ⟨h, hunsent⟩).mono
    (fun txHash p L h => ?_) fun _ p L h => ?_)
  · obtain ⟨hne, h⟩ := h
    have htruthy : truthy (some txHash) = true := by simpa using hne
    refine Obeys.bind (Obeys.modify (Obeys.pure ?_))
    rcases h with ⟨h, -⟩ | h
    · exact ⟨⟨h.read, h.inserted, h.id, h.key⟩, by simp [h.saves], h.status, htruthy, h.mark⟩
    · exact ⟨⟨h.read, h.inserted, h.id, h.key⟩, h.saves, h.status, htruthy, h.mark⟩
  · rcases h with ⟨h, hunsent⟩ | h | h
    · exact .inr ⟨h.toBase, by simp [h.saves], h.hash, h.mark, seenToFail_of_unsent hunsent⟩
    · exact .inl h.hash
    · exact .inl h

/-- A failed payment is one that the call takes for a failure. -/
theorem seenToFail_of_paymentFailed {A : Log Op.Ret → Prop} {amount : String} {toleranceBps : ℕ}
    (hA : ∀ L, A L → (amount, toleranceBps) ∈ terms L)
    (h : PaymentFailed A amount "1" toleranceBps L) : SeenToFail L := by
  rcases h with hnone | ⟨tx, hpath, hstopped | ⟨reply, ⟨n, i, initial, start, L₁, hL₁, hlast⟩, hrate⟩⟩
  · exact seenToFail_of_unsent hnone
  · intro e L₀ hlast
    obtain ⟨n, i, initial, start, x, rfl, hstop⟩ := hstopped e L₀ hlast
    exact ⟨hpath, hstop⟩
  · intro e L₀ hlast'
    rw [hlast] at hlast'
    cases hlast'
    exact ⟨hpath, _, hA L₁ hL₁, hrate⟩

/-- The branch that pays by a path payment. -/
theorem obeys_payByPathPayment (sdk : Sdk) (cfg : Config) (sourceCode code : String)
    (issuer : Option String) {amount : String} (hamount : created.requestedAmount = some amount)
    (h : Marked groupId round group recipient created stored p L) (hunsent : lastSend L = none) :
    Obeys (Permits (.distribute groupId round))
      (do
        let result ← submitPathPayment sdk cfg sourceCode group.assetIssuer code issuer amount "1"
          (group.fxToleranceBps.getD 200) recipient.walletAddress
        if result.outcome = .slippageExceeded ∨ result.outcome = .failed then do
          modify fun p => { p with
            status := .failed
            failureReason := some (result.reason.getD result.outcome.toString)
            pathPaymentOutcome := some result.outcome }
          savePayoutTransaction
          throw (badGateway
            ("Payout conversion " ++ result.outcome.toString ++ ": " ++
              result.reason.getD "Path payment failed"))
        else do
          let txHash := result.txHash.getD s!"payout_{buildPayoutOrderId groupId round}"
          modify fun p => { p with
            txHash := some txHash
            deliveredAmount := some result.deliveredAmount
            pathPaymentOutcome := some result.outcome
            fxRate := some result.lockedRate }
          pure txHash)
      (fun _ => Hashed groupId round group recipient created stored)
      (fun _ => Caught groupId round group recipient created stored) p L := by
  refine Obeys.bind ((obeys_submitPathPayment sdk cfg (admits_marked (p := p) _ fun _ => .inl)
    (admits_marked _ fun _ => .inr) _ _ _ _ _ _ _ _ h hunsent).mono
    (fun result p' L h => ?_) fun _ p' L h => ?_)
  · obtain ⟨rfl, h, hfailed, hhash⟩ := h
    split
    next hbad =>
      have hseen := seenToFail_of_paymentFailed
        (fun L₀ (h : Marked groupId round group recipient created stored p' L₀) =>
          mem_terms h.read.group h.inserted hamount) (hfailed hbad)
      have hfailable : Failable groupId round group recipient created stored { p' with
          status := .failed
          failureReason := some (result.reason.getD result.outcome.toString)
          pathPaymentOutcome := some result.outcome } L :=
        ⟨⟨h.read, h.inserted, h.id, h.key⟩, by simp [h.saves], h.hash, h.mark, hseen⟩
      refine Obeys.bind (Obeys.modify ?_)
      exact Obeys.bind ((obeys_saveFailed hfailable rfl).mono
        (fun _ _ _ h => Obeys.throw (.inr h)) fun _ _ _ h => .inr h)
    next hgood =>
      have htruthy : truthy (some (result.txHash.getD s!"payout_{buildPayoutOrderId groupId round}")) =
          true := by
        cases htx : result.txHash with
        | some hash => simpa using hhash hash htx
        | none =>
          have hne : (s!"payout_{buildPayoutOrderId groupId round}" : String) ≠ "" := fun heq =>
            absurd (String.append_eq_empty_iff.mp heq).1 (by decide)
          simpa using hne
      refine Obeys.bind (Obeys.modify (Obeys.pure ?_))
      exact ⟨⟨h.read, h.inserted, h.id, h.key⟩, by simp [h.saves], h.status, htruthy, h.mark⟩
  · obtain ⟨rfl, h, hunsent⟩ := h
    exact .inr ⟨h.toBase, by simp [h.saves], h.hash, h.mark, seenToFail_of_unsent hunsent⟩

theorem obeys_pay (sdk : Sdk) (cfg : Config) (contractAddress code : String)
    (issuer : Option String) {amount : String} (hamount : created.requestedAmount = some amount)
    (h : Base groupId round group recipient created stored p L) (hsaves : saves L = [])
    (hstatus : p.status = .pendingSubmission) (hhash : p.txHash = none)
    (hunsent : lastSend L = none) (hunmarked : ¬ Submitting L groupId round) :
    Obeys (Permits (.distribute groupId round))
      (pay sdk cfg groupId round group contractAddress recipient code issuer amount)
      (fun _ => Hashed groupId round group recipient created stored)
      (fun _ => Caught groupId round group recipient created stored) p L := by
  have hmark : Permits (.distribute groupId round) L (.note (.submissionStarted groupId round)) :=
    fun _ => .submit h.inserted hunmarked
  have hmarked : Marked groupId round group recipient created stored p
      (⟨.note (.submissionStarted groupId round), ()⟩ :: L) :=
    ⟨h.cons _, by rw [saves_cons rfl, hsaves], hstatus, hhash, List.mem_cons_self⟩
  have hunsent' : lastSend (⟨.note (.submissionStarted groupId round), ()⟩ :: L) = none := by
    rw [lastSend_cons rfl, hunsent]
  unfold pay
  dsimp only
  split
  · exact Obeys.bind (obeys_note hmark
      (obeys_payByPathPayment sdk cfg _ _ _ hamount hmarked hunsent'))
  · exact Obeys.bind (obeys_note hmark
      (obeys_payByContract sdk cfg _ _ _ _ hmarked hunsent'))

/-- The `try` block of `distributePayout`. -/
theorem obeys_submitPayout (sdk : Sdk) (cfg : Config) (contractAddress code : String)
    (issuer : Option String) {amount : String} (hamount : created.requestedAmount = some amount)
    (h : Base groupId round group recipient created stored p L) (hsaves : saves L = [])
    (hstatus : p.status = .pendingSubmission) (hhash : p.txHash = none)
    (hunsent : lastSend L = none) (hunmarked : ¬ Submitting L groupId round) :
    Obeys (Permits (.distribute groupId round))
      (submitPayout sdk cfg groupId round group contractAddress recipient code issuer amount)
      (fun _ => Finished groupId round group recipient created stored)
      (fun _ => Caught groupId round group recipient created stored) p L := by
  refine Obeys.bind ((obeys_pay sdk cfg _ _ _ hamount h hsaves hstatus hhash hunsent hunmarked).mono
    (fun txHash p L h => ?_) fun _ _ _ h => h)
  refine Obeys.bind (obeys_throwIf (fun _ => .inl h.hash) fun _ => ?_)
  refine Obeys.bind (Obeys.modify ?_)
  have hown : Own L { p with status := .submitted } := ⟨created, stored, h.inserted, h.id, h.key⟩
  refine Obeys.bind (Obeys.bind (Obeys.get (obeys_query
    (fun _ => .save (.submitted hown h.saves rfl h.hash)) (fun _ => ?_) fun _ => .inl h.hash)))
  refine Obeys.bind (Obeys.get ?_)
  refine Obeys.bind (Obeys.call (fun _ => .enqueue (hown.cons _) rfl List.mem_cons_self) fun r => ?_)
  cases r with
  | error e => exact .inl h.hash
  | ok _ =>
    exact Obeys.pure ⟨⟨(h.read.cons _).cons _,
      List.mem_cons_of_mem _ (List.mem_cons_of_mem _ h.inserted), h.id, h.key⟩, rfl,
      List.mem_cons_of_mem _ List.mem_cons_self, List.mem_cons_self⟩

/-- The `catch` block of `distributePayout`. -/
theorem obeys_recordFailure (e : Exc) {Q : String → PayoutTransaction → Log Op.Ret → Prop}
    (h : Caught groupId round group recipient created stored p L) :
    Obeys (Permits (.distribute groupId round)) (recordFailure e) Q (fun _ _ _ => True) p L := by
  refine Obeys.bind (Obeys.get (Obeys.bind (obeys_performIf (fun hnone => ?_) fun _ => ?_)))
  · refine Obeys.bind (Obeys.modify ?_)
    have hfailable := h.resolve_left (by simpa using hnone)
    have hfailed : Failable groupId round group recipient created stored
        { p with status := .failed } L :=
      ⟨⟨hfailable.read, hfailable.inserted, hfailable.id, hfailable.key⟩, hfailable.saves,
        hfailable.hash, hfailable.mark, hfailable.seen⟩
    exact (obeys_saveFailed hfailed rfl).mono (fun _ _ _ _ => Obeys.throw trivial)
      fun _ _ _ _ => trivial
  · exact Obeys.throw trivial

/-- The flag, once the payout is submitted and enqueued. -/
theorem obeys_finishPayout {σ : Type} {s : σ} (txHash : String)
    (h : Finished groupId round group recipient created stored p L) :
    Obeys (Permits (.distribute groupId round))
      (finishPayout round group recipient txHash : Service σ String)
      (fun _ _ L' => ∃ m, ⟨.db (.saveMembership m), .ok ()⟩ ∈ L') (fun _ _ _ => True) s L := by
  refine Obeys.bind (obeys_query
    (fun _ => .flag h.read.recipient h.own h.status h.saved h.queued) (fun _ => ?_) fun _ => trivial)
  refine Obeys.bind (Obeys.tryCatch (obeys_emit (fun _ => .minor rfl) ?_ fun _ => Obeys.pure ?_))
  · exact Obeys.pure ⟨_, List.mem_cons_of_mem _ List.mem_cons_self⟩
  · exact Obeys.pure ⟨_, List.mem_cons_of_mem _ List.mem_cons_self⟩

end Recorded

/-! ### The three bodies -/

/-- From a dishonest reply on, nothing is asked of a call. -/
theorem obeys_of_dishonest {σ α : Type} {m : Service σ α} {Q : α → σ → Log Op.Ret → Prop}
    {X : Exc → σ → Log Op.Ret → Prop} {s : σ} {L : Log Op.Ret} (h : ¬ Honest L)
    (hQ : ∀ a t L', ¬ Honest L' → Q a t L') (hX : ∀ e t L', ¬ Honest L' → X e t L') :
    Obeys (Permits (.distribute groupId round)) m Q X s L := by
  have dishonest : ∀ L', L <:+ L' → ¬ Honest L' := fun L' hL' hh =>
    h fun created stored hins => hh created stored (hL'.subset hins)
  exact Obeys.of_forall (fun L' hL' o hh => absurd hh (dishonest L' hL'))
    (fun L' hL' a t => hQ a t L' (dishonest L' hL'))
    (fun L' hL' e t => hX e t L' (dishonest L' hL')) m

/-- `payNew` from the insert on. -/
theorem obeys_payRecorded (sdk : Sdk) (cfg : Config) {group : Group} (contractAddress : String)
    {recipient : Membership} {created stored : PayoutTransaction} {L : Log Op.Ret} {amount : String}
    (hamount : created.requestedAmount = some amount)
    (h : Base groupId round group recipient created stored stored L) (hsaves : saves L = [])
    (hstatus : stored.status = .pendingSubmission) (hhash : stored.txHash = none)
    (hunsent : lastSend L = none) (hunmarked : ¬ Submitting L groupId round) :
    Obeys (Permits (.distribute groupId round))
      (Routine.scope stored (tryCatch
          (submitPayout sdk cfg groupId round group contractAddress recipient created.assetCode
            created.assetIssuer amount) recordFailure) >>= fun x =>
        (finishPayout round group recipient x.1 : Service Unit String))
      (fun _ _ L' => ∃ m, ⟨.db (.saveMembership m), .ok ()⟩ ∈ L') (fun _ _ _ => True) () L := by
  refine Obeys.bind ?_
  refine Obeys.scope ?_
  refine Obeys.tryCatch ?_
  exact (obeys_submitPayout sdk cfg _ _ _ hamount h hsaves hstatus hhash hunsent hunmarked).mono
    (fun txHash p L' hL' => obeys_finishPayout txHash hL') fun e p L' hL' => obeys_recordFailure e hL'

theorem obeys_payNew (sdk : Sdk) (cfg : Config) (group : Group) (contractAddress : String)
    (recipient : Membership) {L : Log Op.Ret} (h : Before groupId round L)
    (hread : HasRead groupId round group recipient L) :
    Obeys (Permits (.distribute groupId round))
      (payNew sdk cfg groupId round group contractAddress recipient : Service Unit String)
      (fun _ _ L' => Honest L' → ∃ m, ⟨.db (.saveMembership m), .ok ()⟩ ∈ L')
      (fun _ _ _ => True) () L := by
  refine Obeys.bind (Obeys.bind (obeys_minor rfl fun contributions => ?_))
  refine obeys_evaluate (fun amount _ => ?_) fun _ _ => trivial
  replace h := h.minor (o := .db (.findContributions _)) rfl (.ok contributions)
  replace hread := hread.cons ⟨.db (.findContributions _), .ok contributions⟩
  refine Obeys.bind (obeys_query (fun _ => .insert rfl rfl rfl h.notInserted)
    (fun stored => ?_) fun _ => trivial)
  by_cases hstored : stored =
      { createPayoutTransaction groupId round group amount with id := PayoutTransaction.id stored }
  · refine (obeys_payRecorded sdk cfg contractAddress rfl
      ⟨hread.cons _, List.mem_cons_self, rfl, rfl⟩ ?_ ?_ ?_ ?_ ?_).mono
      (fun _ _ _ h _ => h) fun _ _ _ h => h
    · rw [saves_cons rfl, h.saves]
    · rw [hstored]; rfl
    · rw [hstored]; rfl
    · rw [lastSend_cons rfl, h.unsent]
    · exact not_submitting_cons h.unmarked (by simp)
  · refine obeys_of_dishonest (fun hh => ?_) (fun _ _ L' hL' hh => absurd hh hL') fun _ _ _ _ => trivial
    exact hstored (hh _ _ List.mem_cons_self)

/-- **`distributePayout` keeps its discipline.** -/
theorem follows_distributePayout (sdk : Sdk) (cfg : Config) :
    Follows (Permits (.distribute groupId round)) (Achieves (.distribute groupId round))
      (entry (distributePayout sdk cfg groupId round)) [] := by
  refine follows_entry ((?_ : Obeys _ _ (fun _ _ L => Honest L → NotInserted L ∨
    ∃ m, ⟨.db (.saveMembership m), .ok ()⟩ ∈ L) (fun _ _ _ => True) () []).mono
    (fun _ _ L h hh _ => h hh) fun _ _ _ _ _ => nofun)
  have before : Before groupId round [] := ⟨fun _ _ => List.not_mem_nil, rfl, rfl, List.not_mem_nil⟩
  refine Obeys.bind (obeys_note (fun _ => .minor rfl) ?_)
  refine Obeys.bind ((obeys_findRecipient (before.minor rfl _)).mono (fun x _ L h => ?_)
    fun _ _ _ h => h)
  obtain ⟨h, hread⟩ := h
  refine Obeys.bind (obeys_query (fun _ => .lookup h.notInserted) (fun existing => ?_) fun _ => trivial)
  have h' := h.cons (e := ⟨.db (.findPayoutByOrderId (buildPayoutOrderId groupId round)), .ok existing⟩)
    (by simp) rfl rfl (by simp)
  cases existing with
  | some existing =>
    refine Obeys.bind (obeys_performIf (fun hsubmitted => ?_) fun _ => ?_)
    · refine Obeys.call (fun _ => .resume List.mem_cons_self (by simpa using hsubmitted)) fun r => ?_
      cases r with
      | ok _ => exact Obeys.pure fun _ => .inl (h'.notInserted.cons (by simp))
      | error e => trivial
    · exact Obeys.pure fun _ => .inl h'.notInserted
  | none =>
    exact (obeys_payNew sdk cfg _ _ _ h' (hread.cons _)).mono (fun _ _ _ h hh => .inr (h hh))
      fun _ _ _ h => h

end Distribute

/-! ### Sweeps and jobs -/

theorem obeys_addPayoutReconciliation {σ : Type} {D : Log Op.Ret → Op → Prop} {id : Uuid}
    {Q : Unit → σ → Log Op.Ret → Prop} {X : Exc → σ → Log Op.Ret → Prop} {s : σ} {L : Log Op.Ret}
    (hD : D L (.addJob id (payoutReconciliationJob id)))
    (hok : Q () s (⟨.addJob id (payoutReconciliationJob id), .ok ()⟩ :: L))
    (herr : ∀ e, X e s (⟨.addJob id (payoutReconciliationJob id), .error e⟩ :: L)) :
    Obeys D (addPayoutReconciliation id) Q X s L :=
  Obeys.call hD fun r => by
    cases r with
    | ok _ => exact hok
    | error e => exact herr e

/-- **The sweep keeps its discipline.** -/
theorem follows_pollUnconfirmedPayouts :
    Follows (Permits .sweep) (Achieves .sweep) (entry pollUnconfirmedPayouts) [] := by
  refine follows_entry ((?_ : Obeys _ _ (fun _ _ L => ∃ ps : List PayoutTransaction,
    ⟨.db (.findPayouts [.submitted, .pendingSubmission]), .ok ps⟩ ∈ L ∧
      ∀ p ∈ ps, p.txHash ≠ none → Enqueued L p.id) (fun _ _ _ => True) () []).mono
    (fun _ _ L h _ => h) fun _ _ _ _ => by simp [Achieves])
  refine Obeys.bind (obeys_query (fun _ => .read) (fun ps : List PayoutTransaction => ?_) fun _ => trivial)
  -- the rest of the list is still to do, and what is done stays enqueued
  refine (Obeys.forEach
    (J := fun xs _ L => ⟨.db (.findPayouts [.submitted, .pendingSubmission]), .ok ps⟩ ∈ L ∧
      (∀ p ∈ xs, p ∈ ps ∧ p.txHash ≠ none) ∧
      ∀ p ∈ ps, p.txHash ≠ none → p ∈ xs ∨ Enqueued L p.id)
    (fun p xs t L hJ => ?_) ⟨List.mem_cons_self, ?_, ?_⟩).mono (fun _ _ L hJ => ?_) fun _ _ _ h => h
  · obtain ⟨hread, hxs, hps⟩ := hJ
    obtain ⟨hp, hhash⟩ := hxs p List.mem_cons_self
    refine obeys_addPayoutReconciliation (fun _ => .enqueue hread hp hhash) ⟨List.mem_cons_of_mem _ hread,
      fun q hq => hxs q (List.mem_cons_of_mem _ hq), fun q hq hqhash => ?_⟩ fun _ => trivial
    rcases hps q hq hqhash with hq | hq
    · rcases List.mem_cons.mp hq with rfl | hq
      · exact .inr List.mem_cons_self
      · exact .inl hq
    · exact .inr (List.mem_cons_of_mem _ hq)
  · intro p hp
    obtain ⟨hp, hhash⟩ := List.mem_filter.mp hp
    exact ⟨hp, Option.isSome_iff_ne_none.mp hhash⟩
  · intro p hp hhash
    exact .inl (List.mem_filter.mpr ⟨hp, Option.isSome_iff_ne_none.mpr hhash⟩)
  · exact ⟨ps, hJ.1, fun p hp hhash => (hJ.2.2 p hp hhash).resolve_left List.not_mem_nil⟩

section Reconcile

variable {jobId : ℕ}

/-- The job is taken, and has found the record `t`. -/
structure Found (jobId : ℕ) (job : Job Uuid) (t : PayoutTransaction) (L : Log Op.Ret) : Prop where
  take : ⟨.takeJob jobId, some job⟩ ∈ L
  read : ⟨.db (.findPayout job.data), .ok (some t)⟩ ∈ L
  saves : saves L = []

theorem admits_found {job : Job Uuid} {t : PayoutTransaction} :
    Admits (Permits (.reconcile jobId)) (·.isRemote = true) (Found jobId job t) where
  allowed L o _ ho := fun _ => .remote ho
  kept L o r h ho := ⟨List.mem_cons_of_mem _ h.take, List.mem_cons_of_mem _ h.read, by
    rw [saves_cons (savedPayout_of_isRemote ho), h.saves]⟩

theorem obeys_settle (cfg : Config) {job : Job Uuid} {t : PayoutTransaction} {L : Log Op.Ret}
    (h : Found jobId job t L) (hopen : t.Open) (hhash : truthy t.txHash = true) :
    Obeys (Permits (.reconcile jobId))
      (PayoutReconciliationProcessor.settle cfg t (t.txHash.getD "") : Service Unit _)
      (fun _ _ L' => ⟨.takeJob jobId, some job⟩ ∈ L' ∧ Handled L' job.data)
      (fun _ _ L' => ⟨.takeJob jobId, some job⟩ ∈ L') () L := by
  refine Obeys.bind ((obeys_getTransactionStatus cfg admits_found _ h).mono (fun st _ L h => ?_)
    fun _ _ _ h => h.2.take)
  obtain ⟨-, h, hreport⟩ := h
  have done : ∀ p : PayoutTransaction, p.id = t.id → p.status.Settled →
      Handled (⟨.db (.savePayout p), .ok ()⟩ :: L) job.data := fun p hid hsettled =>
    .inr ⟨t, List.mem_cons_of_mem _ h.read, .inr ⟨p, List.mem_cons_self, hid, hsettled⟩⟩
  cases st with
  | confirmed =>
    exact Obeys.bind (obeys_query
      (fun _ => .settle h.take h.read hopen hhash h.saves (.confirmed hreport))
      (fun _ => Obeys.pure ⟨List.mem_cons_of_mem _ h.take, done _ rfl (.inl rfl)⟩)
      fun _ => List.mem_cons_of_mem _ h.take)
  | failed =>
    exact Obeys.bind (obeys_query
      (fun _ => .settle h.take h.read hopen hhash h.saves (.failed hreport))
      (fun _ => Obeys.pure ⟨List.mem_cons_of_mem _ h.take, done _ rfl (.inr rfl)⟩)
      fun _ => List.mem_cons_of_mem _ h.take)
  | pending => exact Obeys.throw h.take

theorem obeys_process (cfg : Config) {job : Job Uuid} {L : Log Op.Ret}
    (htake : ⟨.takeJob jobId, some job⟩ ∈ L) (hshown : ∀ e ∈ L, shown e = [])
    (hsaves : saves L = []) :
    Obeys (Permits (.reconcile jobId))
      (PayoutReconciliationProcessor.process cfg job : Service Unit _)
      (fun _ _ L' => ⟨.takeJob jobId, some job⟩ ∈ L' ∧ Handled L' job.data)
      (fun _ _ L' => ⟨.takeJob jobId, some job⟩ ∈ L') () L := by
  refine Obeys.bind (obeys_throwIf (fun _ => htake) fun _ => ?_)
  refine Obeys.bind (obeys_query (fun _ => .read htake hshown hsaves) (fun t? => ?_)
    fun _ => List.mem_cons_of_mem _ htake)
  cases t? with
  | none => exact Obeys.pure ⟨List.mem_cons_of_mem _ htake, .inl List.mem_cons_self⟩
  | some t =>
    have h : Found jobId job t (⟨.db (.findPayout job.data), .ok (some t)⟩ :: L) :=
      ⟨List.mem_cons_of_mem _ htake, List.mem_cons_self, by rw [saves_cons rfl, hsaves]⟩
    dsimp only
    split
    next hnoop =>
      have hclosed : ¬ t.Open := fun hopen => hopen.elim hnoop.1 hnoop.2
      exact Obeys.pure ⟨h.take, .inr ⟨t, h.read, .inl hclosed⟩⟩
    next hopen =>
      split
      · exact Obeys.throw h.take
      next hhash =>
        refine obeys_settle cfg h ?_ (by simpa using hhash)
        by_contra hclosed
        exact hopen (not_or.mp hclosed)

/-- **The job keeps its discipline.** -/
theorem follows_runJob (cfg : Config) :
    Follows (Permits (.reconcile jobId)) (Achieves (.reconcile jobId))
      (entry (PayoutReconciliationProcessor.runJob cfg jobId)) [] := by
  refine follows_entry ((?_ : Obeys _ _ (fun _ _ _ => True) (fun _ _ _ => True) () []).mono
    (fun _ _ _ h => h) fun _ _ _ h => h)
  refine Obeys.bind (Obeys.perform (fun _ => .take) fun job? => ?_)
  cases job? with
  | none => exact Obeys.pure trivial
  | some job =>
    have hshown : ∀ e ∈ [(⟨.takeJob jobId, some job⟩ : Entry Op.Ret)], shown e = [] :=
      List.forall_mem_singleton.mpr rfl
    refine Obeys.bind (Obeys.tryCatch (Obeys.bind ((obeys_process cfg List.mem_cons_self
      hshown rfl).mono (fun _ _ L h => ?_) fun _ _ L h => ?_)))
    · exact Obeys.pure (Obeys.perform (fun _ => .finish h.1 fun _ => h.2) fun _ => trivial)
    · exact Obeys.pure (Obeys.perform (fun _ => .finish h (by simp)) fun _ => trivial)

end Reconcile

/-! ### All bodies -/

/-- **Every body of the payout protocol keeps its discipline.** -/
theorem follows_payoutBody (sdk : Sdk) (cfg : Config) (c : PayoutCall) :
    Follows (Permits c) (Achieves c) (payoutBody sdk cfg c) [] := by
  cases c with
  | distribute groupId round => exact follows_distributePayout sdk cfg
  | sweep => exact follows_pollUnconfirmedPayouts
  | reconcile jobId => exact follows_runJob cfg
  | stalled jobId => exact follows_entry (Obeys.perform (fun _ => rfl) fun _ => trivial)
  | expired jobId => exact follows_entry (Obeys.perform (fun _ => rfl) fun _ => trivial)

end Ahjoor
