import Ahjoor.Contributions.ContributionsService
import Ahjoor.Stellar.Footprint

/-!
# Settling a contribution

Two writers settle the status of a contribution: the confirmation jobs, which poll the chain until
their deadline, and the reconciliation runs, which ask the chain about the contributions that have
been `ON_CHAIN_SUBMITTED` for too long. Both write without looking at the row again.

What they write is a discipline on their logs: a status that the chain has reported for the
contribution's hash, or the `FAILED` of a job whose deadline has expired.
-/

namespace Ahjoor

open Async StellarService

variable {σ : Type}

/-! ### The reconciliation -/

namespace ContributionsService

section

variable (cfg : Config)

/-- The reconciliation of one stuck contribution. Its failure is only logged. -/
def reconcileContribution (contribution : Contribution) : Service σ Unit :=
  tryCatch
    (do
      let status : TxStatus ← getTransactionStatus cfg contribution.transactionHash
      match status with
      | .confirmed => query (.updateContribution contribution.id { status := some .confirmed })
      | .failed => query (.updateContribution contribution.id { status := some .failed })
      | .pending => pure ())
    fun _ => pure ()

/-- `reconcileStuckContributions(staleAfterMs)`, as far as it concerns one contribution: the others
that it handles at the same time are other rows. The column `updatedAt` is given beside them. -/
def reconcileStuckContributions (staleAfterMs : ℤ) (updatedAt : Uuid → ℤ) (contributionId : Uuid) :
    Service σ Unit := do
  let now ← dateNow
  let found : List Contribution ← query (.findContributions { status := some .onChainSubmitted })
  let stuck := found.filter fun c => updatedAt c.id < now - staleAfterMs
  match stuck.find? fun c => c.id == contributionId with
  | none => pure ()
  | some contribution => reconcileContribution cfg contribution

end

end ContributionsService

/-! ### Calls -/

/-- The calls that settle a contribution. -/
inductive SettlementCall
  | process (polls : ℕ) (userId : Uuid) (deadline : ℕ)
  | reconcile (staleAfterMs : ℤ) (updatedAt : Uuid → ℤ)

section

variable (cfg : Config) (contributionId : Uuid) (transactionHash : String)

/-- The body of each call, for the contribution and its transaction. -/
def settlementBody : SettlementCall → Prog Op.Ret (Except Exc Unit)
  | .process polls userId deadline =>
      entry (TxConfirmationProcessor.process cfg polls
        { contributionId, transactionHash, userId, deadline })
  | .reconcile staleAfterMs updatedAt =>
      entry (ContributionsService.reconcileStuckContributions cfg staleAfterMs updatedAt
        contributionId)

/-- Any number of these calls on one world. -/
def settlementSystem : System Op.Ret Choice World SettlementCall (Except Exc Unit) :=
  ⟨exec, settlementBody cfg contributionId transactionHash⟩

end

/-- A history of the settlement of a contribution. -/
abbrev SettlementHist := Hist Op.Ret World SettlementCall (Except Exc Unit)

/-- A state of the settlement of a contribution. -/
abbrev SettlementState := State Op.Ret World SettlementCall (Except Exc Unit)

/-! ### What a call may do next -/

/-- A final status. -/
def ContributionStatus.Settled (s : ContributionStatus) : Prop := s = .confirmed ∨ s = .failed

instance ContributionStatus.decidableSettled (s : ContributionStatus) : Decidable s.Settled :=
  inferInstanceAs (Decidable (_ ∨ _))

/-- The status that records an answer of the chain, once it is final. -/
def TxStatus.settlement : TxStatus → Option ContributionStatus
  | .pending => none
  | .confirmed => some .confirmed
  | .failed => some .failed

/-- The operation leaves the contributions as they are. -/
def Op.sparesContributions : Op → Bool
  | .db q => q.isRead
  | .commit => false
  | _ => true

/-- The write of a status. -/
def settleOp (contributionId : Uuid) (s : ContributionStatus) : Op :=
  .db (.updateContribution contributionId { status := some s })

/-- The call has just read the clock, at its deadline or later. -/
def Expired (deadline : ℕ) (L : Log Op.Ret) : Prop :=
  ∃ t : ℕ, ∃ L', L = ⟨.now, t⟩ :: L' ∧ deadline ≤ t

/-- The call takes the hash from its job, or from the row that it has read. -/
def KnowsHash (contributionId : Uuid) (transactionHash hash : String) (L : Log Op.Ret) : Prop :=
  hash = transactionHash ∨ ∃ sel cs, ∃ c ∈ (cs : List Contribution),
    ⟨.db (.findContributions sel), .ok cs⟩ ∈ L ∧ c.id = contributionId ∧ c.transactionHash = hash

/-- **What a call may do next**: it writes a status that the chain has reported for the
contribution's hash, and a job whose deadline has expired writes `FAILED`. -/
inductive MaySettle (contributionId : Uuid) (transactionHash : String) (c : SettlementCall)
    (L : Log Op.Ret) : Op → Prop
  | spare {o : Op} (h : o.sparesContributions = true) :
      MaySettle contributionId transactionHash c L o
  | report {hash : String} {v : TxStatus} {s : ContributionStatus}
      (hknows : KnowsHash contributionId transactionHash hash L) (hreport : Reported L hash v)
      (hs : v.settlement = some s) :
      MaySettle contributionId transactionHash c L (settleOp contributionId s)
  | expire {polls userId deadline : ℕ} (hc : c = .process polls userId deadline)
      (hexpired : Expired deadline L) :
      MaySettle contributionId transactionHash c L (settleOp contributionId .failed)

/-! ### The bodies keep the discipline -/

section Bodies

variable {contributionId : Uuid} {transactionHash : String} {c : SettlementCall} {L : Log Op.Ret}
  {α : Type}

/-- The body of the call keeps its discipline. -/
def Settling (contributionId : Uuid) (transactionHash : String) (c : SettlementCall)
    (m : Service Unit α) (L : Log Op.Ret) : Prop :=
  Obeys (MaySettle contributionId transactionHash c) m (fun _ _ _ => True) (fun _ _ _ => True) () L

theorem sparesContributions_of_isRemote {o : Op} (h : o.isRemote = true) :
    o.sparesContributions = true := by
  cases o <;> first | rfl | cases h

theorem admits_remote {A : Log Op.Ret → Prop} (hA : ∀ e L, A L → A (e :: L)) :
    Admits (MaySettle contributionId transactionHash c) (·.isRemote = true) A where
  allowed _ _ _ ho := .spare (sparesContributions_of_isRemote ho)
  kept _ _ _ h _ := hA _ _ h

theorem settling_emit (e : Effect) : Settling contributionId transactionHash c (emit e) L :=
  obeys_emit (.spare rfl) trivial fun _ => trivial

/-- The write of a status, and what follows it. -/
theorem settling_settle {data : TxConfirmationJobData} {timedOut : Bool} {s : ContributionStatus}
    (hid : data.contributionId = contributionId)
    (h : MaySettle contributionId transactionHash c L (settleOp contributionId s)) :
    Settling contributionId transactionHash c (TxConfirmationProcessor.settle data s timedOut) L := by
  subst hid
  exact Obeys.bind (obeys_query h (fun _ => settling_emit _) fun _ => trivial)

theorem settling_pollUntilTerminal (cfg : Config) (polls : ℕ) {p userId deadline : ℕ} :
    Settling contributionId transactionHash (.process p userId deadline)
      (TxConfirmationProcessor.pollUntilTerminal cfg
        { contributionId, transactionHash, userId, deadline } polls) L := by
  induction polls generalizing L with
  | zero => exact Obeys.throw trivial
  | succ polls ih =>
    refine Obeys.bind (Obeys.perform (.spare rfl) fun now : ℕ => ?_)
    change Obeys _ (if _ then _ else _) _ _ _ _
    split
    · -- a poll that fails counts as one that finds the transaction pending
      have hagain : ∀ L, Settling contributionId transactionHash (.process p userId deadline)
          (do
            emit (.sleep 5000)
            TxConfirmationProcessor.pollUntilTerminal cfg
              { contributionId, transactionHash, userId, deadline } polls : Service Unit Unit) L :=
        fun _ => Obeys.bind (obeys_emit (.spare rfl) ih fun _ => trivial)
      refine Obeys.bind (Obeys.tryCatch ((obeys_getTransactionStatus cfg
        (admits_remote (A := fun _ => True) fun _ _ _ => trivial) _ trivial).mono
          (fun status _ L h => ?_) fun _ _ L _ => Obeys.pure (hagain L)))
      obtain ⟨-, -, hreport⟩ := h
      cases status with
      | pending => exact hagain L
      | confirmed => exact settling_settle rfl (.report (.inl rfl) hreport rfl)
      | failed => exact settling_settle rfl (.report (.inl rfl) hreport rfl)
    · next hlate =>
      exact settling_settle rfl (.expire rfl ⟨now, L, rfl, not_lt.mp hlate⟩)

theorem settling_process (cfg : Config) {polls userId deadline : ℕ} :
    Settling contributionId transactionHash (.process polls userId deadline)
      (TxConfirmationProcessor.process cfg polls
        { contributionId, transactionHash, userId, deadline }) L := by
  refine Obeys.bind (Obeys.perform (.spare rfl) fun acquired : Bool => ?_)
  change Obeys _ (if _ then _ else _) _ _ _ _
  split
  · have hrelease : ∀ (result : Except Exc Unit) L,
        Settling contributionId transactionHash (.process polls userId deadline)
          (do
            Routine.perform (Op.del s!"tx_confirm:{transactionHash}")
            evaluate result : Service Unit Unit) L := fun _ _ =>
      Obeys.bind (Obeys.perform (.spare rfl) fun _ =>
        obeys_evaluate (fun _ _ => trivial) fun _ _ => trivial)
    exact Obeys.bind (Obeys.tryCatch (Obeys.bind ((settling_pollUntilTerminal cfg polls).mono
      (fun _ _ L _ => Obeys.pure (hrelease _ L)) fun _ _ L _ => Obeys.pure (hrelease _ L))))
  · exact Obeys.pure trivial

theorem settling_reconcileContribution (cfg : Config) {sel : ContributionWhere}
    {cs : List Contribution} {x : Contribution} (hx : x ∈ cs) (hid : x.id = contributionId)
    (hread : ⟨.db (.findContributions sel), .ok cs⟩ ∈ L) :
    Settling contributionId transactionHash c (ContributionsService.reconcileContribution cfg x)
      L := by
  refine Obeys.tryCatch (Obeys.bind ((obeys_getTransactionStatus cfg
    (admits_remote (A := fun L => ⟨.db (.findContributions sel), .ok cs⟩ ∈ L)
      fun _ _ h => List.mem_cons_of_mem _ h) _ hread).mono
      (fun status _ L h => ?_) fun _ _ _ _ => Obeys.pure trivial))
  obtain ⟨-, hread, hreport⟩ := h
  have hknows : KnowsHash contributionId transactionHash x.transactionHash L :=
    .inr ⟨sel, cs, x, hx, hread, hid, rfl⟩
  subst hid
  cases status with
  | pending => exact Obeys.pure trivial
  | confirmed =>
    exact obeys_query (.report hknows hreport rfl) (fun _ => trivial) fun _ => Obeys.pure trivial
  | failed =>
    exact obeys_query (.report hknows hreport rfl) (fun _ => trivial) fun _ => Obeys.pure trivial

theorem settling_reconcileStuckContributions (cfg : Config) (staleAfterMs : ℤ)
    (updatedAt : Uuid → ℤ) :
    Settling contributionId transactionHash c
      (ContributionsService.reconcileStuckContributions cfg staleAfterMs updatedAt contributionId)
      L := by
  refine Obeys.bind (Obeys.perform (.spare rfl) fun now : ℕ => ?_)
  refine Obeys.bind (obeys_query (.spare rfl) (fun found => ?_) fun _ => trivial)
  dsimp only
  split
  · exact Obeys.pure trivial
  · next x hfind =>
    have hmem := List.mem_of_find?_eq_some hfind
    have hid : (x.id == contributionId) = true := by simpa using List.find?_some hfind
    exact settling_reconcileContribution cfg (List.mem_of_mem_filter hmem) (beq_iff_eq.mp hid)
      List.mem_cons_self

/-- **Every body keeps its discipline.** -/
theorem follows_settlementBody (cfg : Config) (c : SettlementCall) :
    Follows (MaySettle contributionId transactionHash c) (fun _ _ => True)
      (settlementBody cfg contributionId transactionHash c) [] := by
  cases c with
  | process polls userId deadline => exact follows_entry (settling_process cfg)
  | reconcile staleAfterMs updatedAt =>
    exact follows_entry (settling_reconcileStuckContributions cfg staleAfterMs updatedAt)

end Bodies

end Ahjoor
