import Ahjoor.Groups.Service

/-!
# The Stellar service

Submission of payouts and path payments, their status, and the RPC failover under them. The
bodies follow the source method by method; tracing spans, metrics and log lines are left out,
and a fee is computed exactly where the source uses floating point.

Which server answers an attempt is part of the environment's choice; `withFailover` keeps the
shared position in the list of URLs, tries each URL at most once, and only goes on after a
failure that looks transient.
-/

namespace Ahjoor

open Async

namespace StellarService

variable {σ : Type}

/-! ### Errors -/

/-- `/timeout|etimedout|econnreset|socket hang up|502|503|network|fetch failed/i`, on anything
but a `BadGatewayException` or a `BadRequestException`. -/
def isTransientRpcFailure (e : Exc) : Bool :=
  !e.hasStatus 502 && !e.hasStatus 400 &&
    ["timeout", "etimedout", "econnreset", "socket hang up", "502", "503", "network",
      "fetch failed"].any (includes (lowerCase e.message))

/-- `mapRpcError(message, error)`. -/
def mapRpcError (message : String) (e : Exc) : Exc :=
  if e.isHttp then e
  else
    let lowered := lowerCase e.message
    if includes lowered "network" || includes lowered "timeout" || includes lowered "connect" then
      badGateway s!"{message}: {e.message}"
    else internalServerError s!"{message}: {e.message}"

/-- `new Decimal(s)`. -/
def newDecimal (s : String) : Except Exc ℚ :=
  match Decimal.ofString? s with
  | some q => .ok q
  | none => .error (.error s!"[DecimalError] Invalid argument: {s}")

/-- The significant digits `decimal.js` works with. -/
def precision : ℕ := 20

/-! ### RPC calls -/

section

variable (cfg : Config)

/-- `validateConfiguration()`. -/
def validateConfiguration : Service σ Unit := do
  throwIf cfg.rpcUrls.isEmpty
    (internalServerError "Missing STELLAR_RPC_URLS or STELLAR_RPC_URL configuration")
  throwIf (cfg.networkPassphrase == "")
    (internalServerError "Missing STELLAR_NETWORK_PASSPHRASE configuration")
  throwIf (cfg.defaultContractAddress == "")
    (internalServerError "Missing CONTRACT_ADDRESS configuration")

/-- The loop of `withFailover` over `n` URLs with `left` of them still to try; `initial` is the
position the first attempt started from. -/
def tryUrls (req : Request) (n : ℕ) : ℕ → Option ℕ → Exc → Service σ req.Reply
  | 0, _, lastError => throw lastError
  | left + 1, initial, _ => do
      let (start, reply) ← Routine.perform (Op.rpc n (n - (left + 1)) initial req)
      match reply with
      | .ok r => pure r
      | .error e =>
          if isTransientRpcFailure e then tryUrls req n left (some start) e else throw e

/-- `withFailover(operation, context)`. -/
def withFailover (req : Request) : Service σ req.Reply :=
  tryUrls req cfg.rpcUrls.length cfg.rpcUrls.length none (.error "undefined")

/-- `getNativeBalance(accountId)`. -/
def getNativeBalance (accountId : String) : Service σ String := do
  validateConfiguration cfg
  tryCatch
    (do
      let balance : Option String ← withFailover cfg (.loadAccount accountId)
      pure (balance.getD "0"))
    fun e => throw (mapRpcError s!"Failed to load native balance for {accountId}" e)

/-- `checkAccountBalance(accountId, minimumXlm)`. -/
def checkAccountBalance (accountId : String) (minimumXlm : ℚ) : Service σ (String × Bool) := do
  let balance ← getNativeBalance cfg accountId
  pure (balance, (Decimal.ofString? balance).any (minimumXlm ≤ ·))

/-- `simulateTransactionAndGetFee(tx)`. -/
def simulateTransactionAndGetFee (tx : Transaction) : Service σ ℤ := do
  let simulation : Simulation ← withFailover cfg (.simulateTransaction tx)
  pure (simulation.minResourceFee.getD 0)

/-- `recordFeeSpend(feeStroops)`: no failure of it reaches the caller. -/
def recordFeeSpend (feeStroops : ℤ) : Service σ Unit :=
  if feeStroops ≤ 0 then pure ()
  else
    tryCatch
      (do
        let today ← dateNow
        let current : ℤ ← ask (.incrBy s!"stellar:fees:{today / 86400000}" feeStroops)
        if cfg.dailyAlertThresholdStroops < current then
          tryCatch
            (emit (.dispatchEvent "DAILY_FEE_EXCEEDED"
              [("currentTotalStroops", s!"{current}"),
                ("thresholdStroops", s!"{cfg.dailyAlertThresholdStroops}"),
                ("transactionFee", s!"{feeStroops}")]))
            fun _ => pure ()
        else pure ())
      fun _ => pure ()

/-- `getTransactionStatus(txHash)`. -/
def getTransactionStatus (txHash : String) : Service σ TxStatus := do
  throwIf (txHash == "") (badRequest "Transaction hash is required")
  validateConfiguration cfg
  tryCatch
    (do
      let transaction ← withFailover cfg (.getTransaction txHash)
      pure (txStatus transaction))
    fun e => throw (mapRpcError "Unable to fetch transaction status" e)

end

/-! ### The contract state guard -/

/-- `mapSorobanError(error)`. -/
def mapSorobanError (e : Exc) : Exc :=
  let message := if e.message == "" then "Unknown contract error" else e.message
  let lowered := lowerCase message
  if includes lowered "round_closed" || includes lowered "round already finished" then
    conflict "Round is already closed"
  else if includes lowered "already_contributed" || includes lowered "duplicate contribution" then
    conflict "Member has already contributed to this round"
  else if includes lowered "group_full" || includes lowered "capacity reached" then
    conflict "Group capacity has been reached"
  else if includes lowered "invalid_amount" || includes lowered "amount too low" then
    badRequest "Invalid contribution amount"
  else if includes lowered "unauthorized" || includes lowered "not a member" then
    forbidden "Unauthorized contract access"
  else internalServerError s!"Contract precondition failed: {message}"

section

variable (sdk : Sdk) (cfg : Config)

/-- A string argument of `simulateCall`: an address when it looks like one. -/
def simulatedArg? (arg : String) : Option ScVal :=
  match arg.toList.head? with
  | some 'G' | some 'C' => sdk.addressVal? arg
  | _ => some (.string arg)

/-- `simulateCall(contractAddress, method, ...args)` on string arguments. -/
def simulateCall (contractAddress method : String) (args : List String) : Service σ Simulation := do
  validateConfiguration cfg
  let keyPair ← Routine.perform Op.randomKeyPair
  let operation ← orThrow (sdk.contractCall? contractAddress method (args.map (simulatedArg? sdk)))
    (badRequest "Invalid contract call parameters")
  let tx ← orThrow (Sdk.build (.random keyPair) operation) (.error "build failed")
  let resourceFee : ℤ ← withFailover cfg (.prepareTransaction tx)
  let simulation : Simulation ← withFailover cfg
    (.simulateTransaction { tx with resourceFee := some resourceFee })
  match simulation.error with
  | some message => throw (.error message)
  | none => pure simulation

/-- `validatePreconditions(contractAddress, method, ...args)`. -/
def validatePreconditions (contractAddress method : String) (args : List String) :
    Service σ Unit := do
  let cacheKey := s!"contract_state:{contractAddress}:{method}:{args}"
  if ← redisGet cacheKey then pure ()
  else
    tryCatch
      (do
        let _ ← simulateCall sdk cfg contractAddress method args
        redisSet cacheKey)
      fun e => throw (mapSorobanError e)

/-! ### Payouts -/

/-- `buildAsset(assetCode, assetIssuer)`. -/
def buildAsset (assetCode : String) (assetIssuer : Option String) : Except Exc Asset :=
  let code := upperCase assetCode
  match assetIssuer with
  | some issuer =>
      if code == "XLM" || issuer == "" then .ok .native
      else if sdk.validAsset code issuer then .ok (.issued code issuer)
      else .error (.error "Asset code is invalid")
  | none => .ok .native

/-- The block that refuses a payout when the issuer account is short of funds; a balance that
cannot be read does not stop it. -/
def checkIssuerBalance : Service σ Unit :=
  match cfg.stellarIssuerAccount with
  | none => pure ()
  | some issuerAccount =>
      if issuerAccount == "" then pure ()
      else
        tryCatch
          (do
            let (_, isSufficient) ←
              checkAccountBalance cfg issuerAccount cfg.stellarMinBalanceAlertXlm
            throwIf (!isSufficient) (conflict "Insufficient issuer balance"))
          fun e => if e.hasStatus 409 then throw e else pure ()

/-- The block that validates the contract's state; only an `HttpException` stops the payout. -/
def checkContractState (contractAddress recipientWallet amount : String) : Service σ Unit :=
  tryCatch (validatePreconditions sdk cfg contractAddress "disburse_payout" [recipientWallet, amount])
    fun e => if e.isHttp then throw e else pure ()

/-- The operation of `disbursePayout`: the contract call when every argument encodes, else the
plain object. -/
def disburseOperation (contractAddress recipientWallet amount : String) (assetCode : String)
    (assetIssuer : Option String) : Operation :=
  match buildAsset sdk assetCode assetIssuer with
  | .ok asset =>
      (sdk.contractCall? contractAddress "disburse_payout"
        [sdk.addressVal? recipientWallet, Sdk.i128Val? amount, sdk.assetVal? asset]).getD
        (.plainObject contractAddress "disburse_payout")
  | .error _ => .plainObject contractAddress "disburse_payout"

/-- `Math.ceil(estimatedFee * (1 + feeBufferPercent / 100))`. -/
def bufferedFee (estimatedFee : ℤ) : ℤ :=
  ⌈(estimatedFee : ℚ) * (1 + cfg.feeBufferPercent / 100)⌉

/-- `if (typeof this.server.prepareTransaction === 'function') tx = await …` -/
def prepareIfSupported (tx : Transaction) : Service σ Transaction :=
  if cfg.serverPrepares then do
    let resourceFee : ℤ ← withFailover cfg (.prepareTransaction tx)
    pure { tx with resourceFee := some resourceFee }
  else pure tx

/-- `if (onBeforeSubmit) await onBeforeSubmit(txHash)` -/
def beforeSubmit (onBeforeSubmit : Option (String → Service σ Unit)) (txHash : String) :
    Service σ Unit :=
  match onBeforeSubmit with
  | some callback => callback txHash
  | none => pure ()

/-- Preparation, fee and submission of a transaction that could be built. -/
def submitDisbursement (onBeforeSubmit : Option (String → Service σ Unit)) (tx : Transaction) :
    Service σ String := do
  let tx ← prepareIfSupported cfg tx
  let estimatedFee ← simulateTransactionAndGetFee cfg tx
  throwIf (cfg.maxFeeStroops < estimatedFee) (badRequest "Estimated fee exceeds budget")
  let finalFee := bufferedFee cfg estimatedFee
  let tx := { tx with fee := finalFee }
  let txHashToStore := sdk.hash tx
  beforeSubmit onBeforeSubmit txHashToStore
  let reply : Option SendReply ← withFailover cfg (.sendTransaction tx)
  let result := reply.getD {}
  let finalTxHash := ((result.hash.or result.id).or result.transactionHash).getD txHashToStore
  recordFeeSpend cfg finalFee
  pure finalTxHash

/-- `disbursePayout(contractAddress, recipientWallet, amount, onBeforeSubmit, assetCode,
assetIssuer)`. -/
def disbursePayout (contractAddress recipientWallet amount : String)
    (onBeforeSubmit : Option (String → Service σ Unit)) (assetCode assetIssuer : Option String) :
    Service σ String := do
  throwIf (contractAddress == "") (badRequest "Contract address is required for disbursePayout")
  throwIf (recipientWallet == "")
    (badRequest "Recipient wallet address is required for disbursePayout")
  throwIf (amount == "") (badRequest "Amount is required for disbursePayout")
  validateConfiguration cfg
  checkIssuerBalance cfg
  checkContractState sdk cfg contractAddress recipientWallet amount
  tryCatch
    (do
      let keyPair ← Routine.perform Op.randomKeyPair
      match Sdk.build (.random keyPair) (disburseOperation sdk contractAddress recipientWallet
          amount (assetCode.getD "XLM") assetIssuer) with
      | none => do
          -- the fallback hash of a transaction that could not be built
          let t ← dateNow
          pure s!"payout_{slicePrefix contractAddress 8}_{slicePrefix recipientWallet 8}_{t}"
      | some tx => submitDisbursement sdk cfg onBeforeSubmit tx)
    fun e => throw (mapRpcError "Failed to disburse payout on-chain" e)

/-! ### Path payments -/

/-- The result of a path payment. -/
structure PathPaymentResult where
  outcome : PathPaymentOutcome
  deliveredAmount : String
  requestedAmount : String
  effectiveRate : String
  lockedRate : String
  txHash : Option String := none
  reason : Option String := none

/-- `computeSendMax(destinationAmount, lockedRate, toleranceBps)`. -/
def computeSendMax (destinationAmount lockedRate : String) (toleranceBps : ℕ) :
    Except Exc String := do
  let dest ← newDecimal destinationAmount
  let rate ← newDecimal lockedRate
  if rate = 0 then pure destinationAmount
  else
    let source := Decimal.div precision dest rate
    let buffer := Decimal.plus precision 1 (Decimal.div precision toleranceBps 10000)
    pure (Decimal.toFixed 7 (Decimal.times precision source buffer))

/-- `extractEffectiveRate(result, destinationAmount, lockedRate)`. -/
def extractEffectiveRate (result : SendReply) (destinationAmount lockedRate : String) :
    Except Exc String :=
  match (result.sourceAmount.or result.sendAmount).or result.source_amount with
  | some sourceAmount =>
      if (Decimal.ofString? sourceAmount).any (0 < ·) then do
        let dest ← newDecimal destinationAmount
        let src ← newDecimal sourceAmount
        pure (Decimal.toFixed 7 (Decimal.div precision dest src))
      else pure lockedRate
  | none => pure lockedRate

/-- `extractDeliveredAmount(result, destinationAmount)`. -/
def extractDeliveredAmount (result : SendReply) (destinationAmount : String) : String :=
  (((result.deliveredAmount.or result.destAmount).or result.destinationAmount).or
    result.amount_delivered).getD destinationAmount

/-- `isRateWithinTolerance(lockedRate, effectiveRate, toleranceBps)`. -/
def isRateWithinTolerance (lockedRate effectiveRate : String) (toleranceBps : ℕ) :
    Except Exc Bool := do
  let locked ← newDecimal lockedRate
  let effective ← newDecimal effectiveRate
  if locked = 0 then pure false
  else
    let deviation := Decimal.div precision |Decimal.minus precision effective locked| locked
    pure (decide (deviation ≤ Decimal.div precision toleranceBps 10000))

/-- The result once the network has answered `sendTransaction`. -/
def pathPaymentResult (result : SendReply) (txHash destinationAmount destinationAssetCode
    lockedRate : String) (toleranceBps : ℕ) : Except Exc PathPaymentResult := do
  let effectiveRate ← extractEffectiveRate result destinationAmount lockedRate
  if !(← isRateWithinTolerance lockedRate effectiveRate toleranceBps) then
    pure {
      outcome := .slippageExceeded
      deliveredAmount := "0"
      requestedAmount := destinationAmount
      effectiveRate
      lockedRate
      txHash := some txHash
      reason := some s!"Effective rate {effectiveRate} deviates beyond {toleranceBps} bps from locked rate {lockedRate}" }
  else
    let delivered := extractDeliveredAmount result destinationAmount
    let full := (Decimal.ofString? delivered).any fun d =>
      (Decimal.ofString? destinationAmount).any (· ≤ d)
    if full then
      pure {
        outcome := .fullFill
        deliveredAmount := delivered
        requestedAmount := destinationAmount
        effectiveRate
        lockedRate
        txHash := some txHash }
    else
      pure {
        outcome := .partialFill
        deliveredAmount := delivered
        requestedAmount := destinationAmount
        effectiveRate
        lockedRate
        txHash := some txHash
        reason := some s!"Partial fill: delivered {delivered} of {destinationAmount} {destinationAssetCode}" }

/-- The hash in the network's answer, or a made-up one. -/
def pathPaymentHash (result : SendReply) : Service σ String :=
  match (result.hash.or result.id).or result.transactionHash with
  | some hash => pure hash
  | none => do
      let t ← dateNow
      pure s!"path_payment_{t}"

/-- The result of the `catch` block of `submitPathPayment`. -/
def pathPaymentFailure (e : Exc) (destinationAmount lockedRate : String) : PathPaymentResult :=
  let lowered := lowerCase e.message
  let slippage := includes lowered "slippage" || includes lowered "tolerance" ||
    includes lowered "price" || includes lowered "offers"
  { outcome := if slippage then .slippageExceeded else .failed
    deliveredAmount := "0"
    requestedAmount := destinationAmount
    effectiveRate := lockedRate
    lockedRate
    reason := some e.message }

/-- The `try` block of `submitPathPayment`. -/
def sendPathPayment (sourceAsset destinationAsset : Asset) (destinationAssetCode : String)
    (destinationAmount lockedRate : String) (toleranceBps : ℕ) (senderWallet : String) :
    Service σ PathPaymentResult := do
  let sendMax ← evaluate (computeSendMax destinationAmount lockedRate toleranceBps)
  let operation ← orThrow
    (sdk.pathPayment? sourceAsset sendMax senderWallet destinationAsset destinationAmount)
    (.error "invalid path payment")
  let tx ← orThrow (Sdk.build (.wallet senderWallet) operation) (.error "build failed")
  let resourceFee : ℤ ← withFailover cfg (.prepareTransaction tx)
  let reply : Option SendReply ← withFailover cfg
    (.sendTransaction { tx with resourceFee := some resourceFee })
  let result := reply.getD {}
  let txHash ← pathPaymentHash result
  evaluate (pathPaymentResult result txHash destinationAmount destinationAssetCode lockedRate
    toleranceBps)

/-- `submitPathPayment(sourceAssetCode, sourceAssetIssuer, destinationAssetCode,
destinationAssetIssuer, destinationAmount, lockedRate, toleranceBps, senderWallet)`. -/
def submitPathPayment (sourceAssetCode : String) (sourceAssetIssuer : Option String)
    (destinationAssetCode : String) (destinationAssetIssuer : Option String)
    (destinationAmount lockedRate : String) (toleranceBps : ℕ) (senderWallet : String) :
    Service σ PathPaymentResult := do
  validateConfiguration cfg
  let sourceAsset ← evaluate (buildAsset sdk sourceAssetCode sourceAssetIssuer)
  let destinationAsset ← evaluate (buildAsset sdk destinationAssetCode destinationAssetIssuer)
  if upperCase sourceAssetCode == upperCase destinationAssetCode &&
      sourceAssetIssuer == destinationAssetIssuer then
    pure {
      outcome := .fullFill
      deliveredAmount := destinationAmount
      requestedAmount := destinationAmount
      effectiveRate := "1"
      lockedRate := "1"
      reason := some "Same-asset transfer; no conversion needed" }
  else
    tryCatch
      (sendPathPayment sdk cfg sourceAsset destinationAsset destinationAssetCode destinationAmount
        lockedRate toleranceBps senderWallet)
      fun e => pure (pathPaymentFailure e destinationAmount lockedRate)

end

end StellarService

end Ahjoor
