import Ahjoor.Contributions.Payments

/-!
# Recording a contribution

`createContribution` is the member's request: it deduplicates by idempotency key, validates the
round, verifies the transaction, normalizes its amount to the group's unit of account, stores
the contribution, and tries to advance the round. The confirmation job then settles the status
of the contribution from the chain.

What the chain says about the transaction (`verifyContributionForGroup`,
`getTransactionAmount`) is left to the environment. The two polling loops are given a bound on
their iterations; a bounded loop that has not finished behaves like a call that has stopped.
-/

namespace Ahjoor

open Async StellarService

variable {σ : Type}

/-! ### Foreign exchange -/

/-- A Stellar asset: its code and issuer. -/
structure AssetRef where
  code : String
  issuer : Option String

/-- An FX rate captured at submission. -/
structure LockedFxRate where
  source : AssetRef
  destination : AssetRef
  rate : String
  capturedAt : ℕ
  expiresAt : ℕ
  toleranceBps : ℕ

namespace FxService

/-- `getUnitOfAccount(group)`. -/
def getUnitOfAccount (group : Group) : AssetRef where
  code := upperCase ((group.unitOfAccountAssetCode.or group.assetCode).getD "XLM")
  issuer := group.unitOfAccountAssetIssuer.or group.assetIssuer

/-- `getContributionAsset(group, assetCode, assetIssuer)`. -/
def getContributionAsset (group : Group) (assetCode : String) (assetIssuer : Option String) :
    AssetRef where
  code := upperCase assetCode
  issuer := (assetIssuer.or group.unitOfAccountAssetIssuer).or group.assetIssuer

/-- `assetsEqual(a, b)`. -/
def assetsEqual (a b : AssetRef) : Bool :=
  upperCase a.code == upperCase b.code && a.issuer == b.issuer

section

variable (cfg : Config)

/-- `fetchRate(source, destination)`. -/
def fetchRate (source destination : AssetRef) : Service σ String :=
  if cfg.fxProvider == "static" then
    orThrow (cfg.fxStaticRate.filter (· != ""))
      (badRequest "FX_STATIC_RATE must be set when FX_PROVIDER=static")
  else if !truthy cfg.fxOracleUrl then
    throw (badRequest "FX_ORACLE_URL must be set when FX_PROVIDER=oracle")
  else
    tryCatch (ask (.fetchRate source.code destination.code)) fun e =>
      throw (badRequest
        s!"Failed to fetch FX rate {source.code} → {destination.code}: {e.message}")

/-- `lockRate(group, sourceAsset)`. -/
def lockRate (group : Group) (source : AssetRef) : Service σ LockedFxRate := do
  let destination := getUnitOfAccount group
  throwIf (!group.allowCrossAssetContributions.getD true && !assetsEqual source destination)
    (badRequest s!"Cross-asset contributions are disabled for this group. Contributions must be in {destination.code}.")
  let now ← dateNow
  let expiresAt := now + group.fxRateExpirySeconds.getD 900 * 1000
  let toleranceBps := group.fxToleranceBps.getD 200
  if assetsEqual source destination then
    pure { source, destination, rate := "1", capturedAt := now, expiresAt, toleranceBps }
  else do
    let rate ← fetchRate cfg source destination
    pure { source, destination, rate, capturedAt := now, expiresAt, toleranceBps }

/-- `normalizeToUnitOfAccount(group, amount, sourceAsset, lockedRate)`: the normalized amount. -/
def normalizeToUnitOfAccount (group : Group) (amount : String) (source : AssetRef)
    (lockedRate : LockedFxRate) : Service σ String := do
  let destination := getUnitOfAccount group
  if assetsEqual source destination then pure amount
  else do
    let now ← dateNow
    throwIf (lockedRate.expiresAt ≤ now)
      (badRequest s!"Locked FX rate for {source.code} → {destination.code} has expired. Please re-submit the contribution to capture a fresh rate.")
    let amountDecimal ← evaluate (newDecimal amount)
    let rateDecimal ← evaluate (newDecimal lockedRate.rate)
    pure (Decimal.toFixed 7 (Decimal.times precision amountDecimal rateDecimal))

end

end FxService

/-! ### The request -/

/-- `CreateContributionDto`. -/
structure CreateContributionDto where
  groupId : Uuid
  userId : Uuid
  walletAddress : String
  roundNumber : ℤ
  transactionHash : String
  amount : String
  timestamp : ℕ

namespace ContributionsService

/-- `waitForInFlight(idempotencyKey, contributionId)` with at most `polls` polls. -/
def waitForInFlight (contributionId : Uuid) : ℕ → Service σ Contribution
  | 0 => do
      let contribution? : Option Contribution ← query (.findContribution { id := some contributionId })
      orThrow contribution? (.error "Could not find any entity of type \"Contribution\"")
  | polls + 1 => do
      emit (.sleep 500)
      let contribution? : Option Contribution ← query (.findContribution { id := some contributionId })
      let contribution ← orThrow contribution?
        (conflict "In-flight contribution disappeared unexpectedly")
      if contribution.status = .confirmed ∨ contribution.status = .failed then pure contribution
      else waitForInFlight contributionId polls

/-- The checks on group, membership, window and round. -/
def validateContribution (dto : CreateContributionDto) : Service σ Group := do
  let group? : Option Group ← query (.findGroup dto.groupId)
  let group ← orThrow group? (badRequest "Invalid groupId or userId")
  let maintenance : Option String ← ask (.groupMaintenance dto.groupId)
  match maintenance with
  | some message => throw (.http 503 message)
  | none => do
      let membership? : Option Membership ← query
        (.findMembership { groupId := some dto.groupId, userId := some dto.userId })
      throwIf (membership?.any fun m => m.status == .suspended)
        (forbidden "Suspended members cannot submit contributions")
      throwIf (group.status != .active)
        (badRequest "Contributions can only be made to ACTIVE groups")
      let now ← dateNow
      throwIf (group.startDate.any (now < ·))
        (badRequest "Contribution window has not opened yet")
      throwIf (group.endDate.any (· < now)) (badRequest "Contribution window has closed")
      throwIf (dto.roundNumber != group.currentRound)
        (badRequest "Contributions can only be made for the current round")
      pure group

section

variable (sdk : Sdk) (cfg : Config)

/-- Read the transaction's amount, lock its rate and normalize it. -/
def lockAndNormalize (dto : CreateContributionDto) (group : Group) :
    Service σ (LockedFxRate × String) := do
  let txDetails : TxDetails ← ask (.getTransactionAmount dto.transactionHash)
  let contributionAsset := FxService.getContributionAsset group (upperCase txDetails.assetCode)
    txDetails.assetIssuer
  let lockedRate ← FxService.lockRate cfg group contributionAsset
  let normalizedAmount ← FxService.normalizeToUnitOfAccount group txDetails.amount
    contributionAsset lockedRate
  match Decimal.ofString? normalizedAmount, Decimal.ofString? group.contributionAmount with
  | some normalizedNum, some requiredAmountNum => do
      throwIf (normalizedNum < requiredAmountNum)
        (badRequest ("Contribution value (" ++ normalizedAmount ++ " " ++
          (group.unitOfAccountAssetCode.or group.assetCode).getD "XLM" ++
          s!") is less than required contribution amount ({group.contributionAmount})"))
      pure (lockedRate, normalizedAmount)
  | _, _ => throw (badRequest "Unable to parse transaction amount for verification")

/-- The verification step: nothing, or the locked rate and the normalized amount. -/
def verifyTransaction (dto : CreateContributionDto) (group : Group) :
    Service σ (Option (LockedFxRate × String)) :=
  if cfg.verifyContributions then do
    let isValid : Bool ← ask (.verifyContributionForGroup dto.transactionHash group.contractAddress)
    throwIf (!isValid) (badRequest "Transaction hash does not correspond to a valid contribution")
    let locked ← tryCatch (lockAndNormalize cfg dto group) fun e =>
      if e.hasStatus 400 then throw e
      else throw (badRequest s!"Failed to verify transaction amount: {e.message}")
    pure (some locked)
  else pure none

/-- The row that `createContribution` inserts. -/
def newContribution (dto : CreateContributionDto) (idempotencyKey : Option String) (group : Group)
    (locked : Option (LockedFxRate × String)) : Contribution where
  id := 0
  groupId := dto.groupId
  userId := dto.userId
  walletAddress := dto.walletAddress
  roundNumber := dto.roundNumber
  amount := dto.amount
  transactionHash := dto.transactionHash
  timestamp := dto.timestamp
  assetCode := group.assetCode.getD "XLM"
  assetIssuer := group.assetIssuer
  unitOfAccountAssetCode := (group.unitOfAccountAssetCode.or group.assetCode).getD "XLM"
  unitOfAccountAssetIssuer := group.unitOfAccountAssetIssuer.or group.assetIssuer
  fxRate := some ((locked.map (·.1.rate)).getD "1")
  fxRateCapturedAt := locked.map (·.1.capturedAt)
  fxRateExpiresAt := locked.map (·.1.expiresAt)
  fxToleranceBps := ((locked.map (·.1.toleranceBps)).or group.fxToleranceBps).getD 200
  normalizedAmount := locked.map (·.2)
  status := .pending
  idempotencyKey

/-- `'A contribution for this user and round already exists …'` -/
def alreadyRecorded : Exc :=
  conflict "A contribution for this user and round already exists in this group, or this transaction was already recorded"

/-- The `try` block of `createContribution`. -/
def recordContribution (dto : CreateContributionDto) (idempotencyKey : Option String) :
    Service σ Contribution := do
  let group ← validateContribution dto
  let locked ← verifyTransaction cfg dto group
  let inserted : Option Uuid ← query
    (.insertContributionOrIgnore (newContribution dto idempotencyKey group locked))
  let newId ← orThrow inserted alreadyRecorded
  let saved? : Option Contribution ← query (.findContribution { id := some newId })
  let savedContribution ← orThrow saved? alreadyRecorded
  query (.updateContribution savedContribution.id { status := some .onChainSubmitted })
  -- the job and the webhook are not awaited in the source: nothing after them depends on them
  let now ← dateNow
  tryCatch
    (emit (.addTxConfirmation savedContribution.id savedContribution.transactionHash
      savedContribution.userId (now + cfg.txConfirmationTimeoutMs)))
    fun _ => pure ()
  tryCatch (emit (.contributionVerified savedContribution.id)) fun _ => pure ()
  let _ ← RoundService.tryAdvanceRound sdk cfg dto.groupId
  pure { savedContribution with status := .onChainSubmitted }

/-- The `catch` block of `createContribution`. -/
def mapFailure : Exc → Exc
  | .uniqueViolation constraint =>
      if constraint == "UQ_contributions_userId_groupId_roundNumber" then
        conflict "A contribution for this user and round already exists in this group"
      else conflict "Contribution with this transaction hash already exists"
  | e => e

/-- `createContribution(dto, idempotencyKey)`, polling at most `polls` times for a request in
flight. -/
def createContribution (polls : ℕ) (dto : CreateContributionDto) (idempotencyKey : Option String) :
    Service σ Contribution :=
  match idempotencyKey.filter (· != "") with
  | none => tryCatch (recordContribution sdk cfg dto idempotencyKey) fun e => throw (mapFailure e)
  | some key => do
      let byKey : ContributionWhere := { idempotencyKey := some key }
      let existing : Option Contribution ← query (.findContribution byKey)
      match existing with
      | some existing =>
          if existing.status = .confirmed ∨ existing.status = .failed then pure existing
          else waitForInFlight existing.id polls
      | none => do
          let lockKey := s!"contrib:inflight:{key}"
          let acquired : Bool ← Routine.perform (Op.setIfNotExists lockKey)
          if acquired then
            withFinally
              (tryCatch (recordContribution sdk cfg dto idempotencyKey) fun e => throw (mapFailure e))
              (Routine.perform (Op.del lockKey))
          else do
            let existingAfterLock : Option Contribution ← query (.findContribution byKey)
            match existingAfterLock with
            | some c => waitForInFlight c.id polls
            | none => do
                emit (.sleep 500)
                let retryExisting : Option Contribution ← query (.findContribution byKey)
                match retryExisting with
                | some c => waitForInFlight c.id polls
                | none =>
                    throw (conflict "Concurrent request with same idempotency key is in progress")

end

end ContributionsService

/-! ### The confirmation job -/

/-- `TxConfirmationJobData`. -/
structure TxConfirmationJobData where
  contributionId : Uuid
  transactionHash : String
  userId : Uuid
  deadline : ℕ

namespace TxConfirmationProcessor

/-- `settle(contributionId, userId, status, transactionHash, timedOut)`. -/
def settle (data : TxConfirmationJobData) (status : ContributionStatus) (timedOut : Bool) :
    Service σ Unit := do
  query (.updateContribution data.contributionId { status := some status })
  let isConfirmed := status = .confirmed
  emit (.notify {
    userId := data.userId
    type := if isConfirmed then "payout_received" else "system_alert"
    title := if isConfirmed then "Contribution Confirmed" else "Contribution Failed"
    body :=
      if isConfirmed then s!"Your contribution (tx: {data.transactionHash}) has been confirmed on-chain."
      else if timedOut then
        s!"Your contribution (tx: {data.transactionHash}) timed out waiting for confirmation."
      else s!"Your contribution (tx: {data.transactionHash}) failed on-chain."
    metadata := [("contributionId", s!"{data.contributionId}"),
      ("transactionHash", data.transactionHash), ("timedOut", s!"{timedOut}")]
    idempotencyKey := some
      (s!"tx_confirm:{data.transactionHash}:" ++ if isConfirmed then "CONFIRMED" else "FAILED") })

section

variable (cfg : Config)

/-- `pollUntilTerminal(…)` with at most `polls` polls. -/
def pollUntilTerminal (data : TxConfirmationJobData) : ℕ → Service σ Unit
  | 0 => throw (.error "still polling")
  | polls + 1 => do
      let now ← dateNow
      if now < data.deadline then do
        let status : TxStatus ← tryCatch (getTransactionStatus cfg data.transactionHash) fun _ =>
          pure .pending
        match status with
        | .confirmed => settle data .confirmed false
        | .failed => settle data .failed false
        | .pending => do
            emit (.sleep 5000)
            pollUntilTerminal data polls
      else settle data .failed true

/-- `process(job)`. -/
def process (polls : ℕ) (data : TxConfirmationJobData) : Service σ Unit := do
  let lockKey := s!"tx_confirm:{data.transactionHash}"
  let acquired : Bool ← Routine.perform (Op.setIfNotExists lockKey)
  if acquired then
    withFinally (pollUntilTerminal cfg data polls) (Routine.perform (Op.del lockKey))
  else pure ()

end

end TxConfirmationProcessor

end Ahjoor
