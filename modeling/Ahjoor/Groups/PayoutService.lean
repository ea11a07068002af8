import Ahjoor.Stellar.StellarService

/-!
# The payout service

`distributePayout` pays one round of a group: it checks that the payout is due, records it
under its unique `payoutOrderId`, submits it, records the outcome and marks the recipient as
paid out. `pollUnconfirmedPayouts` hands the payouts whose outcome is still open to the
reconciliation queue.

The entity `payoutTransaction` that the method creates is captured by the callback it passes to
`disbursePayout`, so the body after the insert runs with that entity as its captured variable:
every `save` of it writes the columns as the method has them by then.
-/

namespace Ahjoor

open Async Bullmq StellarService

variable {σ : Type}

/-! ### The queue service -/

/-- `JOB_NAMES.RECONCILE_PAYOUT`. -/
def reconcilePayoutJobName : String := "reconcile-payout"

/-- `defaultJobOptions()`, before any override. -/
def defaultJobOptions : JobsOptions where
  attempts := 3
  backoff := .custom
  removeOnComplete := { count := 1000, age := 24 * 60 * 60 }
  removeOnFail := false

/-- The job `addPayoutReconciliation` adds. -/
def payoutReconciliationJob (payoutTransactionId : Uuid) : Job Uuid where
  name := reconcilePayoutJobName
  data := payoutTransactionId
  opts := { defaultJobOptions with
    attempts := 5
    backoff := .exponential 5000
    jobId := some payoutTransactionId }

/-- `addPayoutReconciliation({ payoutTransactionId })`. -/
def addPayoutReconciliation (payoutTransactionId : Uuid) : Service σ Unit :=
  Routine.call (Op.addJob payoutTransactionId (payoutReconciliationJob payoutTransactionId))
    fun r => r

namespace PayoutService

/-! ### The amount and the record -/

/-- `buildPayoutOrderId(groupId, round)`. -/
def buildPayoutOrderId (groupId : Uuid) (round : ℤ) : String := s!"{groupId}:{round}"

/-- The addend of one contribution: its normalized amount, or its amount at the locked rate. -/
def contributionAmount (c : Contribution) : Except Exc ℚ :=
  match c.normalizedAmount with
  | some normalized =>
      if normalized == "" then atLockedRate else newDecimal normalized
  | none => atLockedRate
where
  /-- `new Decimal(amount).times(new Decimal(fxRate ?? '1'))` -/
  atLockedRate : Except Exc ℚ := do
    let amount ← newDecimal c.amount
    let rate ← newDecimal (c.fxRate.getD "1")
    pure (Decimal.times precision amount rate)

/-- The loop that adds up the contributions. -/
def sumContributions : ℚ → List Contribution → Except Exc ℚ
  | total, [] => .ok total
  | total, c :: cs => do
      let amount ← contributionAmount c
      sumContributions (Decimal.plus precision total amount) cs

/-- The amount for the contributions found: their sum, or the configured amount if there are
none. -/
def payoutAmount (group : Group) (contributions : List Contribution) : Except Exc String :=
  if contributions.length = 0 then .ok group.contributionAmount
  else do
    let total ← sumContributions 0 contributions
    pure (Decimal.toFixed 7 total)

/-- `computePayoutAmount(groupId, round, group)`. -/
def computePayoutAmount (groupId : Uuid) (round : ℤ) (group : Group) : Service σ String := do
  let contributions ← query (.findContributions
    { groupId := some groupId, roundNumber := some round, status := some .confirmed })
  evaluate (payoutAmount group contributions)

/-! ### Who is paid -/

/-- The part of `distributePayout` that finds the recipient and refuses a payout that is not
due. The result is the group, its contract address and the recipient. -/
def findRecipient (groupId : Uuid) (round : ℤ) : Service σ (Group × String × Membership) := do
  let group? : Option Group ← query (.findGroup groupId)
  let group ← orThrow group? (notFound "Group not found")
  throwIf (group.status != .active) (badRequest "Group must be ACTIVE to distribute payout")
  throwIf (!truthy group.contractAddress) (badRequest "Group has no contract address")
  let expectedPayoutOrder := round - 1
  let recipient? : Option Membership ← query (.findMembership
    { groupId := some groupId, payoutOrder := some expectedPayoutOrder })
  let recipient ← orThrow recipient?
    (notFound s!"No member scheduled for payout in round {round} (payoutOrder {expectedPayoutOrder})")
  throwIf recipient.hasReceivedPayout (conflict "Member has already received payout")
  let outstandingPenalties : ℕ ← query (.countPenalties recipient.userId groupId [.pending])
  if 0 < outstandingPenalties then do
    emit (.notify {
      userId := recipient.userId
      type := "PAYOUT_BLOCKED_PENDING_PENALTY"
      title := "Payout Blocked"
      body := s!"Your payout for group \"{group.name}\" is blocked due to {outstandingPenalties} outstanding penalty(ies). Please settle them first."
      metadata := [("groupId", s!"{groupId}"), ("round", s!"{round}"),
        ("outstandingPenalties", s!"{outstandingPenalties}")] })
    throw (badRequest
      s!"Payout blocked: recipient has {outstandingPenalties} outstanding penalty(ies) in this group")
  else pure (group, group.contractAddress.getD "", recipient)

/-- What `distributePayout` does when the payout has a record already. -/
def resumeExisting (existing : PayoutTransaction) : Service σ String := do
  performIf (existing.status == .submitted) (addPayoutReconciliation existing.id)
  pure (existing.txHash.getD s!"payout_{existing.status.toLower}_{existing.id}")

/-! ### Submission -/

/-- `payoutTransactionRepository.save(payoutTransaction)`. -/
def savePayoutTransaction : Service PayoutTransaction Unit := do
  let payoutTransaction ← get
  query (.savePayout payoutTransaction)

section

variable (sdk : Sdk) (cfg : Config)

/-- The payout in another asset than the contributions. -/
def payByPathPayment (groupId : Uuid) (round : ℤ) (group : Group) (recipient : Membership)
    (contributionAssetCode payoutAssetCode : String) (payoutAssetIssuer : Option String)
    (amount : String) : Service PayoutTransaction String := do
  note (.submissionStarted groupId round)
  let result ← submitPathPayment sdk cfg contributionAssetCode group.assetIssuer payoutAssetCode
    payoutAssetIssuer amount "1" (group.fxToleranceBps.getD 200) recipient.walletAddress
  if result.outcome = .slippageExceeded ∨ result.outcome = .failed then do
    modify fun p => { p with
      status := .failed
      failureReason := some (result.reason.getD result.outcome.toString)
      pathPaymentOutcome := some result.outcome }
    savePayoutTransaction
    throw (badGateway
      ("Payout conversion " ++ result.outcome.toString ++ ": " ++
        result.reason.getD "Path payment failed"))
  else do
    let txHash := result.txHash.getD s!"payout_{buildPayoutOrderId groupId round}"
    modify fun p => { p with
      txHash := some txHash
      deliveredAmount := some result.deliveredAmount
      pathPaymentOutcome := some result.outcome
      fxRate := some result.lockedRate }
    pure txHash

/-- The payout through the group's contract. The hash is stored before the transaction is
sent. -/
def payByContract (groupId : Uuid) (round : ℤ) (contractAddress : String) (recipient : Membership)
    (payoutAssetCode : String) (payoutAssetIssuer : Option String) (amount : String) :
    Service PayoutTransaction String := do
  note (.submissionStarted groupId round)
  let txHash ← disbursePayout sdk cfg contractAddress recipient.walletAddress amount
    (some fun calculatedHash => do
      modify fun p => { p with txHash := some calculatedHash }
      savePayoutTransaction)
    (some payoutAssetCode) payoutAssetIssuer
  modify fun p => { p with
    txHash := some txHash
    deliveredAmount := some amount
    pathPaymentOutcome := some .fullFill }
  pure txHash

/-- The payout in the group's unit of account: by a path payment when that is not the asset of
the contributions. -/
def pay (groupId : Uuid) (round : ℤ) (group : Group) (contractAddress : String)
    (recipient : Membership) (payoutAssetCode : String) (payoutAssetIssuer : Option String)
    (amount : String) : Service PayoutTransaction String :=
  let contributionAssetCode := upperCase (group.assetCode.getD "XLM")
  let needsPathPayment := contributionAssetCode != upperCase payoutAssetCode
  if needsPathPayment then
    payByPathPayment sdk cfg groupId round group recipient contributionAssetCode payoutAssetCode
      payoutAssetIssuer amount
  else
    payByContract sdk cfg groupId round contractAddress recipient payoutAssetCode
      payoutAssetIssuer amount

/-- The `try` block of `distributePayout`. -/
def submitPayout (groupId : Uuid) (round : ℤ) (group : Group) (contractAddress : String)
    (recipient : Membership) (payoutAssetCode : String) (payoutAssetIssuer : Option String)
    (amount : String) : Service PayoutTransaction String := do
  let txHash ← pay sdk cfg groupId round group contractAddress recipient payoutAssetCode
    payoutAssetIssuer amount
  throwIf cfg.simulatePayoutCrashAfterSubmit
    (.error "Simulated crash after submitTransaction and before status update")
  modify fun p => { p with status := .submitted }
  savePayoutTransaction
  let payoutTransaction ← get
  addPayoutReconciliation payoutTransaction.id
  pure txHash

/-- The `catch` block of `distributePayout`. -/
def recordFailure (e : Exc) : Service PayoutTransaction String := do
  let payoutTransaction ← get
  performIf (!truthy payoutTransaction.txHash) do
    modify fun p => { p with status := .failed }
    savePayoutTransaction
  throw (badGateway s!"Contract invocation failed: {e.message}")

/-- What `distributePayout` does once the payout is submitted: mark the recipient as paid out,
and tell them. -/
def finishPayout (round : ℤ) (group : Group) (recipient : Membership) (txHash : String) :
    Service σ String := do
  query (.saveMembership { recipient with hasReceivedPayout := true, transactionHash := some txHash })
  tryCatch
    (emit (.notify {
      userId := recipient.userId
      type := "payout_received"
      title := "Payout Received"
      body := s!"You have received your payout for round {round} in group \"{group.name}\"."
      metadata := [("groupId", s!"{group.id}"), ("round", s!"{round}"),
        ("transactionHash", txHash), ("amount", group.contributionAmount)] }))
    fun _ => pure ()
  pure txHash

/-- `payoutTransactionRepository.create({ … })`. -/
def createPayoutTransaction (groupId : Uuid) (round : ℤ) (group : Group) (amount : String) :
    PayoutTransaction where
  id := 0
  payoutOrderId := buildPayoutOrderId groupId round
  status := .pendingSubmission
  txHash := none
  assetCode := (group.unitOfAccountAssetCode.or group.assetCode).getD "XLM"
  assetIssuer := group.unitOfAccountAssetIssuer.or group.assetIssuer
  requestedAmount := some amount

/-- Record the payout and submit it. -/
def payNew (groupId : Uuid) (round : ℤ) (group : Group) (contractAddress : String)
    (recipient : Membership) : Service σ String := do
  let amount ← computePayoutAmount groupId round group
  let created := createPayoutTransaction groupId round group amount
  let stored : PayoutTransaction ← query (.insertPayout created)
  let (txHash, _) ← Routine.scope stored
    (tryCatch
      (submitPayout sdk cfg groupId round group contractAddress recipient created.assetCode
        created.assetIssuer amount)
      recordFailure)
  finishPayout round group recipient txHash

/-- `distributePayout(groupId, round)`. -/
def distributePayout (groupId : Uuid) (round : ℤ) : Service σ String := do
  note (.payoutStarted groupId round)
  let (group, contractAddress, recipient) ← findRecipient groupId round
  let existing : Option PayoutTransaction ←
    query (.findPayoutByOrderId (buildPayoutOrderId groupId round))
  match existing with
  | some existing => resumeExisting existing
  | none => payNew sdk cfg groupId round group contractAddress recipient

end

/-! ### The sweep -/

/-- `pollUnconfirmedPayouts()`. -/
def pollUnconfirmedPayouts : Service σ Unit := do
  let unconfirmedTransactions : List PayoutTransaction ←
    query (.findPayouts [.submitted, .pendingSubmission])
  let toProcess := unconfirmedTransactions.filter fun tx => tx.txHash.isSome
  Routine.forEach toProcess fun transaction => addPayoutReconciliation transaction.id

end PayoutService

/-! ### The reconciliation job -/

namespace PayoutReconciliationProcessor

/-- What a job reports when it does not throw. -/
inductive Result
  | skipped
  | noop (payoutStatus : PayoutTransactionStatus)
  | confirmed
  | failed
  deriving DecidableEq, Repr

section

variable (cfg : Config)

/-- Ask the chain about a payout's hash and record a final status. -/
def settle (transaction : PayoutTransaction) (txHash : String) : Service σ Result := do
  let chainStatus ← getTransactionStatus cfg txHash
  match chainStatus with
  | .confirmed => do
      query (.savePayout { transaction with status := .confirmed })
      pure .confirmed
  | .failed => do
      query (.savePayout { transaction with status := .failed })
      pure .failed
  | .pending => throw (.error s!"Transaction {txHash} is still pending on-chain and will be retried")

/-- `process(job)`. -/
def process (job : Job Uuid) : Service σ Result := do
  throwIf (job.name != reconcilePayoutJobName)
    (.error s!"Unknown payout reconciliation job: {job.name}")
  let transaction? : Option PayoutTransaction ← query (.findPayout job.data)
  match transaction? with
  | none => pure .skipped
  | some transaction =>
      if transaction.status ≠ .submitted ∧
          ¬(transaction.status = .pendingSubmission ∧ truthy transaction.txHash = true) then
        pure (.noop transaction.status)
      else if !truthy transaction.txHash then
        throw (.error s!"Payout transaction {transaction.id} is {transaction.status.toString} but has no txHash")
      else settle cfg transaction (transaction.txHash.getD "")

/-- A worker's run of one attempt of a job: take it, process it, report the outcome. -/
def runJob (id : Uuid) : Service σ Unit := do
  let job? : Option (Job Uuid) ← Routine.perform (Op.takeJob id)
  match job? with
  | none => pure ()
  | some job =>
      let success ← tryCatch
        (do
          let _ ← process cfg job
          pure true)
        fun _ => pure false
      Routine.perform (Op.finishJob id success)

end

end PayoutReconciliationProcessor

end Ahjoor
