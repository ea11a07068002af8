import Ahjoor.Groups.PayoutService
import Ahjoor.Stellar.Footprint

/-!
# What the payout service uses of the world

A payout reads the tables and writes payout records, and at its end it saves the membership of the
recipient, as it has read it at the beginning. It leaves the groups alone and opens no database
transaction.
-/

namespace Ahjoor

open Async StellarService

variable {σ α : Type}

/-- The query is one that a payout uses before its end. -/
def Query.ofPayout : Query → Bool
  | insertPayout _ | savePayout _ => true
  | q => q.isRead

/-- The operation is one that a payout performs before its end. -/
def Op.ofPayout : Op → Bool
  | .db q => q.ofPayout
  | .rpc _ _ _ _ | .emit _ | .ask _ | .addJob _ _ | .randomKeyPair | .now | .note _ => true
  | _ => false

theorem ofPayout_of_isRemote {o : Op} (h : o.isRemote = true) : o.ofPayout = true := by
  cases o <;> first | rfl | cases h

namespace PayoutService

/-- The routine performs operations of a payout only. -/
def Pays (m : Service σ α) : Prop := m.Performs fun o => o.ofPayout = true

theorem pays_of_uses {m : Service σ α} (h : m.Uses fun o => o.ofPayout = true) : Pays m :=
  h.performs

theorem pays_remote {m : Service σ α} (h : m.Uses fun o => o.isRemote = true) : Pays m :=
  (h.mono fun _ => ofPayout_of_isRemote).performs

theorem pays_pure (a : α) : Pays (pure a : Service σ α) := pays_of_uses (Routine.uses_pure a)

theorem pays_throw (e : Exc) : Pays (throw e : Service σ α) := pays_of_uses (Routine.uses_throw e)

theorem pays_query {q : Query} (h : q.ofPayout = true) : Pays (query q : Service σ q.Ret) :=
  pays_of_uses (uses_query h)

theorem pays_withFailover (cfg : Config) {req : Request} :
    Pays (withFailover cfg req : Service σ req.Reply) :=
  pays_of_uses (uses_withFailover cfg fun _ _ _ => rfl)

section

variable (sdk : Sdk) (cfg : Config)

theorem pays_addPayoutReconciliation (id : Uuid) :
    Pays (addPayoutReconciliation id : Service σ Unit) :=
  pays_of_uses (Routine.uses_call rfl)

theorem pays_disbursePayout {onBeforeSubmit : String → Service σ Unit}
    (hcallback : ∀ hash, Pays (onBeforeSubmit hash)) (contractAddress recipientWallet amount : String)
    (assetCode assetIssuer : Option String) :
    Pays (disbursePayout sdk cfg contractAddress recipientWallet amount (some onBeforeSubmit)
      assetCode assetIssuer) := by
  refine Routine.performs_bind (pays_of_uses (uses_throwIf _ _)) fun _ =>
    Routine.performs_bind (pays_of_uses (uses_throwIf _ _)) fun _ =>
    Routine.performs_bind (pays_of_uses (uses_throwIf _ _)) fun _ =>
    Routine.performs_bind (pays_of_uses (uses_validateConfiguration cfg)) fun _ =>
    Routine.performs_bind (pays_remote (uses_checkIssuerBalance cfg)) fun _ =>
    Routine.performs_bind (pays_remote (uses_checkContractState sdk cfg _ _ _)) fun _ =>
    Routine.performs_tryCatch (Routine.performs_bind (pays_of_uses (Routine.uses_perform rfl))
      fun keyPair => ?_) fun _ => pays_throw _
  split
  · exact Routine.performs_bind (pays_of_uses (uses_dateNow rfl)) fun _ => pays_pure _
  · next tx _ =>
    exact Routine.performs_bind (pays_remote (uses_prepareIfSupported cfg tx)) fun tx =>
      Routine.performs_bind (pays_remote (uses_simulateTransactionAndGetFee cfg tx)) fun _ =>
      Routine.performs_bind (pays_of_uses (uses_throwIf _ _)) fun _ =>
      Routine.performs_bind (hcallback _) fun _ =>
      Routine.performs_bind (pays_withFailover cfg) fun _ =>
      Routine.performs_bind (pays_remote (uses_recordFeeSpend cfg _)) fun _ => pays_pure _

theorem pays_submitPathPayment (sourceAssetCode : String) (sourceAssetIssuer : Option String)
    (destinationAssetCode : String) (destinationAssetIssuer : Option String)
    (destinationAmount lockedRate : String) (toleranceBps : ℕ) (senderWallet : String) :
    Pays (submitPathPayment sdk cfg sourceAssetCode sourceAssetIssuer destinationAssetCode
      destinationAssetIssuer destinationAmount lockedRate toleranceBps senderWallet :
        Service σ PathPaymentResult) := by
  refine Routine.performs_bind (pays_of_uses (uses_validateConfiguration cfg)) fun _ =>
    Routine.performs_bind (pays_of_uses (uses_evaluate _)) fun _ =>
    Routine.performs_bind (pays_of_uses (uses_evaluate _)) fun _ => ?_
  split
  · exact pays_pure _
  · refine Routine.performs_tryCatch (Routine.performs_bind (pays_of_uses (uses_evaluate _))
      fun _ => Routine.performs_bind (pays_of_uses (uses_orThrow _ _)) fun _ =>
      Routine.performs_bind (pays_of_uses (uses_orThrow _ _)) fun _ =>
      Routine.performs_bind (pays_withFailover cfg) fun _ =>
      Routine.performs_bind (pays_withFailover cfg) fun reply =>
      Routine.performs_bind ?_ fun _ => pays_of_uses (uses_evaluate _)) fun _ => pays_pure _
    rw [pathPaymentHash]
    split
    · exact pays_pure _
    · exact Routine.performs_bind (pays_of_uses (uses_dateNow rfl)) fun _ => pays_pure _

theorem pays_savePayoutTransaction : Pays savePayoutTransaction :=
  Routine.performs_bind (pays_of_uses Routine.uses_get) fun _ => pays_query rfl

theorem pays_pay (groupId : Uuid) (round : ℤ) (group : Group) (contractAddress : String)
    (recipient : Membership) (payoutAssetCode : String) (payoutAssetIssuer : Option String)
    (amount : String) : Pays (pay sdk cfg groupId round group contractAddress recipient
      payoutAssetCode payoutAssetIssuer amount) := by
  rw [pay]
  split
  · refine Routine.performs_bind (pays_of_uses (Routine.uses_perform rfl)) fun _ =>
      Routine.performs_bind (pays_submitPathPayment sdk cfg _ _ _ _ _ _ _ _) fun result => ?_
    split
    · exact Routine.performs_bind (Routine.performs_modify _) fun _ =>
        Routine.performs_bind pays_savePayoutTransaction fun _ => pays_throw _
    · exact Routine.performs_bind (Routine.performs_modify _) fun _ => pays_pure _
  · refine Routine.performs_bind (pays_of_uses (Routine.uses_perform rfl)) fun _ =>
      Routine.performs_bind (pays_disbursePayout sdk cfg (fun _ => ?_) _ _ _ _ _) fun _ =>
      Routine.performs_bind (Routine.performs_modify _) fun _ => pays_pure _
    exact Routine.performs_bind (Routine.performs_modify _) fun _ => pays_savePayoutTransaction

theorem pays_submitPayout (groupId : Uuid) (round : ℤ) (group : Group) (contractAddress : String)
    (recipient : Membership) (payoutAssetCode : String) (payoutAssetIssuer : Option String)
    (amount : String) : Pays (submitPayout sdk cfg groupId round group contractAddress recipient
      payoutAssetCode payoutAssetIssuer amount) :=
  Routine.performs_bind (pays_pay sdk cfg _ _ _ _ _ _ _ _) fun _ =>
    Routine.performs_bind (pays_of_uses (uses_throwIf _ _)) fun _ =>
    Routine.performs_bind (Routine.performs_modify _) fun _ =>
    Routine.performs_bind pays_savePayoutTransaction fun _ =>
    Routine.performs_bind (pays_of_uses Routine.uses_get) fun _ =>
    Routine.performs_bind (pays_addPayoutReconciliation _) fun _ => pays_pure _

theorem pays_recordFailure (e : Exc) : Pays (recordFailure e) := by
  refine Routine.performs_bind (pays_of_uses Routine.uses_get) fun _ =>
    Routine.performs_bind ?_ fun _ => pays_throw _
  rw [performIf]
  split
  · exact Routine.performs_bind (Routine.performs_modify _) fun _ => pays_savePayoutTransaction
  · exact pays_pure ()

end

end PayoutService

/-! ### The membership of the recipient -/

/-- The columns of a membership that no payout and no round changes. -/
structure Member where
  id : Uuid
  groupId : Uuid
  userId : Uuid
  walletAddress : String
  status : MembershipStatus
  deriving DecidableEq

/-- Whose membership it is. -/
def Membership.member (m : Membership) : Member :=
  ⟨m.id, m.groupId, m.userId, m.walletAddress, m.status⟩

/-- The call has read the membership, up to what a payout changes of it. -/
def Reread (L : Log Op.Ret) (m : Membership) : Prop :=
  ∃ sel m₀, ⟨.db (.findMembership sel), .ok (some m₀)⟩ ∈ L ∧ m.member = m₀.member

theorem Reread.cons {L : Log Op.Ret} {m : Membership} (h : Reread L m) (e : Entry Op.Ret) :
    Reread (e :: L) m := by
  obtain ⟨sel, m₀, hmem, hsame⟩ := h
  exact ⟨sel, m₀, List.mem_cons_of_mem e hmem, hsame⟩

theorem Reread.of_read {L : Log Op.Ret} {sel : MembershipWhere} {found : Option Membership}
    {m : Membership} (h : found = some m) : Reread (⟨.db (.findMembership sel), .ok found⟩ :: L) m :=
  ⟨sel, m, h ▸ List.mem_cons_self, rfl⟩

/-- The discipline lets a payout through, and the payout keeps the fact `A`. -/
structure LetsPay (D : Log Op.Ret → Op → Prop) (A : Log Op.Ret → Prop) : Prop where
  pays : Admits D (·.ofPayout = true) A
  saves : ∀ L m, A L → Reread L m → D L (.db (.saveMembership m))
  kept : ∀ L m r, A L → A (⟨.db (.saveMembership m), r⟩ :: L)

namespace PayoutService

section

variable {D : Log Op.Ret → Op → Prop} {A : Log Op.Ret → Prop} {s : σ} {L : Log Op.Ret}

/-- What has been read stays read. -/
theorem admits_reread (h : LetsPay D A) (m : Membership) :
    Admits D (·.ofPayout = true) fun L => A L ∧ Reread L m where
  allowed L o hA ho := h.pays.allowed L o hA.1 ho
  kept L o r hA ho := ⟨h.pays.kept L o r hA.1 ho, hA.2.cons _⟩

theorem obeys_findRecipient (h : LetsPay D A) (groupId : Uuid) (round : ℤ) (hA : A L) :
    Obeys D (findRecipient groupId round : Service σ (Group × String × Membership))
      (fun found _ L => A L ∧ Reread L found.2.2) (fun _ _ => A) s L := by
  have hkept : ∀ {L o} {r : Op.Ret o}, A L → o.ofPayout = true → A (⟨o, r⟩ :: L) :=
    fun hA ho => h.pays.kept _ _ _ hA ho
  refine Obeys.bind (obeys_query (h.pays.allowed _ _ hA rfl) (fun group? => ?_) fun _ => hkept hA rfl)
  refine Obeys.bind (obeys_orThrow (fun group _ => ?_) fun _ => hkept hA rfl)
  refine Obeys.bind (obeys_throwIf (fun _ => hkept hA rfl) fun _ => ?_)
  refine Obeys.bind (obeys_throwIf (fun _ => hkept hA rfl) fun _ => ?_)
  refine Obeys.bind (obeys_query (h.pays.allowed _ _ (hkept hA rfl) rfl) (fun recipient? => ?_)
    fun _ => hkept (hkept hA rfl) rfl)
  refine Obeys.bind (obeys_orThrow (fun recipient hrecipient => ?_)
    fun _ => hkept (hkept hA rfl) rfl)
  refine Obeys.bind (obeys_throwIf (fun _ => hkept (hkept hA rfl) rfl) fun _ => ?_)
  refine Obeys.bind (obeys_query (h.pays.allowed _ _ (hkept (hkept hA rfl) rfl) rfl)
    (fun outstandingPenalties : ℕ => ?_) fun _ => hkept (hkept (hkept hA rfl) rfl) rfl)
  change Obeys D (if _ then _ else _) _ _ _ _
  split
  · refine Obeys.bind (obeys_emit (h.pays.allowed _ _ (hkept (hkept (hkept hA rfl) rfl) rfl) rfl)
      (Obeys.throw ?_) fun _ => ?_)
    · exact hkept (hkept (hkept (hkept hA rfl) rfl) rfl) rfl
    · exact hkept (hkept (hkept (hkept hA rfl) rfl) rfl) rfl
  · exact Obeys.pure ⟨hkept (hkept (hkept hA rfl) rfl) rfl, (Reread.of_read hrecipient).cons _⟩

variable (sdk : Sdk) (cfg : Config)

theorem obeys_payNew (h : LetsPay D A) (groupId : Uuid) (round : ℤ) (group : Group)
    (contractAddress : String) (recipient : Membership) (hA : A L) (hread : Reread L recipient) :
    Obeys D (payNew sdk cfg groupId round group contractAddress recipient : Service σ String)
      (fun _ _ => A) (fun _ _ => A) s L := by
  have hadmits := admits_reread h recipient
  refine Obeys.bind ((Obeys.of_performs hadmits (Routine.performs_bind (pays_query rfl) fun _ =>
    pays_of_uses (uses_evaluate _)) ⟨hA, hread⟩).mono (fun amount s L hL => ?_) fun _ _ _ h => h.1)
  refine Obeys.bind ((Obeys.of_performs hadmits (pays_query rfl) hL).mono (fun stored s L hL => ?_)
    fun _ _ _ h => h.1)
  refine Obeys.bind ((Obeys.of_performs hadmits (Routine.performs_scope (Routine.performs_tryCatch
    (pays_submitPayout sdk cfg _ _ _ _ _ _ _ _) pays_recordFailure)) hL).mono
      (fun paid s L hL => ?_) fun _ _ _ h => h.1)
  obtain ⟨hA, hread⟩ := hL
  refine Obeys.bind (obeys_query (h.saves L _ hA hread) (fun _ => ?_) fun _ => h.kept _ _ _ hA)
  refine Obeys.of_performs h.pays (Routine.performs_bind (Routine.performs_tryCatch
    (pays_of_uses (uses_emit rfl)) fun _ => pays_pure ()) fun _ => pays_pure _) (h.kept _ _ _ hA)

/-- **What a payout does**: it leaves the groups alone, and the membership that it saves is the one
that it has read. -/
theorem obeys_distributePayout (h : LetsPay D A) (groupId : Uuid) (round : ℤ) (hA : A L) :
    Obeys D (distributePayout sdk cfg groupId round : Service σ String) (fun _ _ => A) (fun _ _ => A)
      s L := by
  refine Obeys.bind (obeys_note (h.pays.allowed _ _ hA rfl) ?_)
  refine Obeys.bind ((obeys_findRecipient h groupId round (h.pays.kept _ _ _ hA rfl)).mono
    (fun found s L hL => ?_) fun _ _ _ h => h)
  obtain ⟨group, contractAddress, recipient⟩ := found
  obtain ⟨hA, hread⟩ := hL
  refine Obeys.bind (obeys_query (h.pays.allowed _ _ hA rfl) (fun existing => ?_)
    fun _ => h.pays.kept _ _ _ hA rfl)
  cases existing with
  | none => exact obeys_payNew sdk cfg h _ _ _ _ _ (h.pays.kept _ _ _ hA rfl) (hread.cons _)
  | some existing =>
    exact Obeys.of_performs h.pays (Routine.performs_bind
      (pays_of_uses (uses_performIf _ (Routine.uses_call rfl))) fun _ => pays_pure _)
        (h.pays.kept _ _ _ hA rfl)

end

end PayoutService

end Ahjoor
