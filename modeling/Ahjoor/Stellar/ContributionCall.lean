import Ahjoor.Stellar.Envelope

/-!
# The call that is checked and the call that is counted

`verifyContributionForGroup` looks for a `contribute` call on the contract of the group,
`getTransactionAmount` for a `contribute` call with a numeric argument, on whatever contract. Both
walk the operations of the same envelope, and both look at fields of the reply first. They agree
as far as the first call that the second one finds is on the contract of the group.

The SDK decodes the address of a contract, but the object has no text of its own: it prints
`[object Object]`, so that the first loop takes no call with an address for one on the group's
contract. Transactions are accepted by the fields of the reply, which say nothing about the call that
the second loop finds.
-/

namespace Ahjoor

open Xdr

/-! ### The source -/

/-- The reply to `getTransaction`, with the fields that the two methods look at. -/
structure RpcTransaction where
  status : Field := .absent
  txStatus : Field := .absent
  functionName : Field := .absent
  function_name : Field := .absent
  method : Field := .absent
  contractAddress : Field := .absent
  contract_address : Field := .absent
  contractId : Field := .absent
  amount : Field := .absent
  paymentAmount : Field := .absent
  contributionAmount : Field := .absent
  assetCode : Field := .absent
  asset : Field := .absent
  assetIssuer : Field := .absent
  envelopeXdr : Field := .absent
  envelope_xdr : Field := .absent
  envelope : Field := .absent

namespace RpcTransaction

variable (transaction : RpcTransaction)

/-- The status, in lower case. -/
def statusText : String := lowerCase (transaction.status.or transaction.txStatus).print

/-- `directMethod`. -/
def directMethod : String :=
  lowerCase ((transaction.functionName.or transaction.function_name).or transaction.method).print

/-- `directContract`. -/
def directContract : String :=
  ((transaction.contractAddress.or transaction.contract_address).or transaction.contractId).print

/-- The envelope, if it is text. -/
def envelopeText : Option String :=
  ((transaction.envelopeXdr.or transaction.envelope_xdr).or transaction.envelope).text?

end RpcTransaction

/-- The amount and the asset of a contribution. -/
structure ContributionDetails where
  amount : String
  assetCode : Field
  assetIssuer : Field
  deriving DecidableEq, Repr

/-- The direct fields of a reply, if they have an amount. -/
def RpcTransaction.directDetails (transaction : RpcTransaction) : Option ContributionDetails :=
  ((transaction.amount.or transaction.paymentAmount).or transaction.contributionAmount).text?.map
    fun directAmount => {
      amount := directAmount
      assetCode := (transaction.assetCode.or transaction.asset).or (.text "XLM")
      assetIssuer := transaction.assetIssuer }

namespace StellarService

/-- What another argument says about the asset. -/
def assetStep (amount : String) (asset : String × Option String) (otherArg : Xdr.ScVal) :
    String × Option String :=
  match readScValAsString otherArg with
  | none => asset
  | some assetStr =>
      if assetStr ≠ "" && (utf16Length assetStr ≤ 12 || includes assetStr ":") then
        if includes assetStr ":" then ((splitAtColon assetStr).1, some (splitAtColon assetStr).2)
        else if assetStr ≠ amount then (upperCase assetStr, asset.2)
        else asset
      else asset

/-- The first numeric argument, with its position. -/
def numericArg (args : List Xdr.ScVal) : Option (String × ℕ) :=
  args.zipIdx.findSome? fun (arg, i) => match readScValAsString arg with
    | some amount => if amount ≠ "" && isNumeric amount then some (amount, i) else none
    | none => none

/-- The amount and the asset among the arguments of a call. -/
def argumentsOf (args : List Xdr.ScVal) : Option ContributionDetails :=
  (numericArg args).map fun (amount, i) =>
    let (assetCode, assetIssuer) := (args.eraseIdx i).foldl (assetStep amount) ("XLM", none)
    { amount, assetCode := .text assetCode, assetIssuer := .ofOption assetIssuer }

/-- The loop of `extractContributionAmount`. -/
def extractFrom : List Xdr.Operation → Except Exc (Option ContributionDetails)
  | [] => pure none
  | operation :: operations => do
      match ← operation.call with
      | none => extractFrom operations
      | some invokeContract =>
          if readFunctionName invokeContract ≠ some "contribute" then extractFrom operations
          else do
            let args ← invokeContract.args.call
            match argumentsOf (args.getD []) with
            | some details => pure (some details)
            | none => extractFrom operations

/-- The loop of `isContributionCallForGroup`. -/
def callsContract (contractAddress : String) : List Xdr.Operation → Except Exc Bool
  | [] => pure false
  | operation :: operations => do
      match ← operation.call with
      | none => callsContract contractAddress operations
      | some invokeContract =>
          let functionName := readFunctionName invokeContract
          let operationContract := readContractAddress invokeContract
          if functionName = some "contribute" &&
              (operationContract = none || operationContract = some contractAddress) then pure true
          else callsContract contractAddress operations

/-- `validateConfiguration()`, without the rest of the service. -/
def checkConfiguration (cfg : Config) : Except Exc Unit :=
  if cfg.rpcUrls = [] then
    .error (internalServerError "Missing STELLAR_RPC_URLS or STELLAR_RPC_URL configuration")
  else if cfg.networkPassphrase = "" then
    .error (internalServerError "Missing STELLAR_NETWORK_PASSPHRASE configuration")
  else if cfg.defaultContractAddress = "" then
    .error (internalServerError "Missing CONTRACT_ADDRESS configuration")
  else .ok ()

/-- The contract of a group: its own, or the default one. -/
def contractOf (cfg : Config) (groupContractAddress : Option String) : String :=
  match groupContractAddress with
  | some address => if address = "" then cfg.defaultContractAddress else address
  | none => cfg.defaultContractAddress

variable (fromXDR : String → Except Exc Envelope) (cfg : Config)

/-- The operations of the envelope, as the SDK decodes it. -/
def operationsOf (envelopeXdr : String) : Except Exc (List Xdr.Operation) := do
  let envelope ← fromXDR envelopeXdr
  envelope.operations

/-- `extractContributionAmount(transaction)`. -/
def extractContributionAmount (transaction : RpcTransaction) : Except Exc ContributionDetails :=
  match transaction.directDetails with
  | some details => .ok details
  | none =>
      match transaction.envelopeText with
      | none => .error (badRequest "Transaction envelope not available")
      | some envelopeXdr =>
          match (operationsOf fromXDR envelopeXdr).bind extractFrom with
          | .ok (some details) => .ok details
          | .ok none =>
              .error (badRequest "Could not extract contribution amount from transaction")
          | .error e =>
              .error (badRequest s!"Failed to parse transaction envelope: {e.message}")

/-- `isContributionCallForGroup(transaction, groupContractAddress)`. -/
def isContributionCallForGroup (transaction : RpcTransaction)
    (groupContractAddress : Option String) : Bool :=
  let contractAddress := contractOf cfg groupContractAddress
  if contractAddress = "" then false
  else if transaction.directMethod = "contribute" &&
      (transaction.directContract = "" || transaction.directContract = contractAddress) then true
  else
    match transaction.envelopeText with
    | none => false
    | some envelopeXdr =>
        match (operationsOf fromXDR envelopeXdr).bind (callsContract contractAddress) with
        | .ok found => found
        | .error _ => false

/-- `verifyContributionForGroup(txHash, groupContractAddress)`, where the RPC replies `reply`. -/
def verifyContributionForGroup (reply : Except Exc (Option RpcTransaction)) (txHash : String)
    (groupContractAddress : Option String) : Except Exc Bool := do
  if txHash = "" then throw (badRequest "Transaction hash is required")
  checkConfiguration cfg
  match reply with
  | .error e => throw (mapRpcError "Unable to verify contribution transaction" e)
  | .ok none => pure false
  | .ok (some transaction) =>
      if transaction.statusText ≠ "" && transaction.statusText ≠ "success" then pure false
      else pure (isContributionCallForGroup fromXDR cfg transaction groupContractAddress)

/-- `getTransactionAmount(txHash)`, where the RPC replies `reply`. -/
def getTransactionAmount (reply : Except Exc (Option RpcTransaction)) (txHash : String) :
    Except Exc ContributionDetails := do
  if txHash = "" then throw (badRequest "Transaction hash is required")
  checkConfiguration cfg
  match reply with
  | .error e =>
      throw (if e.hasStatus 400 then e else mapRpcError "Unable to fetch transaction amount" e)
  | .ok none => throw (badRequest "Transaction not found on-chain")
  | .ok (some transaction) =>
      if transaction.statusText ≠ "" && transaction.statusText ≠ "success" then
        throw (badRequest s!"Transaction status is not success: {transaction.statusText}")
      else extractContributionAmount fromXDR transaction

/-! ### What is claimed -/

/-- The call is a `contribute` call on the contract. -/
def IsContribution (contractAddress : String) (invokeContract : InvokeContract) : Prop :=
  readFunctionName invokeContract = some "contribute" ∧
    ∃ address, invokeContract.contractAddress.call = .ok (some address) ∧
      address.contract = contractAddress

/-- The arguments of the call are the amount and the asset. -/
def Gives (invokeContract : InvokeContract) (details : ContributionDetails) : Prop :=
  ∃ args, invokeContract.args.call = .ok args ∧ argumentsOf (args.getD []) = some details

/-- An operation is a `contribute` call on the contract with these arguments. -/
def OperationGives (operations : List Xdr.Operation) (contractAddress : String)
    (details : ContributionDetails) : Prop :=
  ∃ operation ∈ operations, ∃ invokeContract, operation.call = .ok (some invokeContract) ∧
    IsContribution contractAddress invokeContract ∧ Gives invokeContract details

/-- The direct fields describe a `contribute` call on the contract. -/
def IsDirectContribution (transaction : RpcTransaction) (contractAddress : String) : Prop :=
  transaction.directMethod = "contribute" ∧ transaction.directContract = contractAddress

/-- An operation of the envelope is a `contribute` call on the contract with these arguments. -/
def EnvelopeGives (transaction : RpcTransaction) (contractAddress : String)
    (details : ContributionDetails) : Prop :=
  ∃ envelopeXdr operations, transaction.envelopeText = some envelopeXdr ∧
    operationsOf fromXDR envelopeXdr = .ok operations ∧
      OperationGives operations contractAddress details

/-- **In the transaction there is** a `contribute` call on the contract with these arguments: the
one that its direct fields describe, or one of its operations. -/
def Contributes (transaction : RpcTransaction) (contractAddress : String)
    (details : ContributionDetails) : Prop :=
  IsDirectContribution transaction contractAddress ∧ transaction.directDetails = some details ∨
    EnvelopeGives fromXDR transaction contractAddress details

/-- **The checked call is the counted call**: if the transaction is accepted for the group, then the
amount and the asset that are read off it are the arguments of a call on the contract of the
group. -/
def CheckedIsCounted (transaction : RpcTransaction) (txHash : String)
    (groupContractAddress : Option String) : Prop :=
  verifyContributionForGroup fromXDR cfg (.ok (some transaction)) txHash groupContractAddress =
    .ok true → ∀ details, getTransactionAmount fromXDR cfg (.ok (some transaction)) txHash =
      .ok details → Contributes fromXDR transaction (contractOf cfg groupContractAddress) details

/-! ### The call that is counted -/

/-- The loop goes past the operation. -/
def Skipped (operation : Xdr.Operation) : Prop :=
  operation.call = .ok none ∨ ∃ invokeContract, operation.call = .ok (some invokeContract) ∧
    (readFunctionName invokeContract ≠ some "contribute" ∨
      ∃ args, invokeContract.args.call = .ok args ∧ argumentsOf (args.getD []) = none)

/-- The loop ends with the arguments of the operation. -/
def Hit (operation : Xdr.Operation) (invokeContract : InvokeContract) : Prop :=
  operation.call = .ok (some invokeContract) ∧
    readFunctionName invokeContract = some "contribute" ∧ ∃ details, Gives invokeContract details

/-- The first `contribute` call with a numeric argument, on whatever contract. -/
def Counted (operations : List Xdr.Operation) (invokeContract : InvokeContract) : Prop :=
  ∃ before operation after, operations = before ++ operation :: after ∧
    (∀ skipped ∈ before, Skipped skipped) ∧ Hit operation invokeContract

theorem Gives.unique {invokeContract : InvokeContract} {details details' : ContributionDetails}
    (h : Gives invokeContract details) (h' : Gives invokeContract details') : details = details' := by
  obtain ⟨args, hargs, hdetails⟩ := h
  obtain ⟨args', hargs', hdetails'⟩ := h'
  obtain rfl : args = args' := Except.ok.inj (hargs.symm.trans hargs')
  exact Option.some.inj (hdetails.symm.trans hdetails')

section Loop

variable {operation : Xdr.Operation} {operations : List Xdr.Operation}
  {invokeContract : InvokeContract} {details : ContributionDetails}

theorem Skipped.not_hit (h : Skipped operation) : ¬ Hit operation invokeContract := by
  rintro ⟨hcall, hname, details, args, hargs, hdetails⟩
  rcases h with hnone | ⟨invokeContract', hcall', hskipped⟩
  · exact absurd (hcall.symm.trans hnone) nofun
  · obtain rfl := Option.some.inj (Except.ok.inj (hcall.symm.trans hcall'))
    rcases hskipped with hother | ⟨args', hargs', hnone⟩
    · exact hother hname
    · obtain rfl := Except.ok.inj (hargs.symm.trans hargs')
      exact absurd (hdetails.symm.trans hnone) nofun

theorem Skipped.extractFrom_cons (h : Skipped operation) :
    extractFrom (operation :: operations) = extractFrom operations := by
  rw [extractFrom]
  rcases h with hnone | ⟨invokeContract, hcall, hother | ⟨args, hargs, hnone⟩⟩
  · rw [hnone]
    rfl
  · rw [hcall]
    exact if_pos hother
  · by_cases hname : readFunctionName invokeContract = some "contribute"
    · rw [hcall]
      refine (if_neg (not_not.mpr hname)).trans ?_
      rw [hargs]
      change (match argumentsOf (args.getD []) with
        | some details => pure (some details)
        | none => extractFrom operations) = _
      rw [hnone]
    · rw [hcall]
      exact if_pos hname

theorem Skipped.counted_cons (h : Skipped operation) :
    Counted (operation :: operations) invokeContract ↔ Counted operations invokeContract := by
  constructor
  · rintro ⟨before, operation', after, hsplit, hbefore, hhit⟩
    cases before with
    | nil =>
      obtain ⟨rfl, -⟩ := List.cons.inj hsplit
      exact absurd hhit h.not_hit
    | cons skipped before =>
      obtain ⟨-, hsplit⟩ := List.cons.inj hsplit
      exact ⟨before, operation', after, hsplit, (List.forall_mem_cons.mp hbefore).2, hhit⟩
  · rintro ⟨before, operation', after, rfl, hbefore, hhit⟩
    exact ⟨operation :: before, operation', after, rfl, List.forall_mem_cons.mpr ⟨h, hbefore⟩, hhit⟩

/-- Past an operation that is not skipped the loop does not go. -/
theorem Counted.hit_of_not_skipped (h : Counted (operation :: operations) invokeContract)
    (hskipped : ¬ Skipped operation) : Hit operation invokeContract := by
  obtain ⟨before, operation', after, hsplit, hbefore, hhit⟩ := h
  cases before with
  | nil =>
    obtain ⟨rfl, -⟩ := List.cons.inj hsplit
    exact hhit
  | cons skipped before =>
    obtain ⟨rfl, -⟩ := List.cons.inj hsplit
    exact absurd (hbefore _ List.mem_cons_self) hskipped

/-- An operation that the loop does not go past ends it. -/
theorem extractFrom_cons_of_not_skipped (h : ¬ Skipped operation) :
    extractFrom (operation :: operations) = .ok (some details) ↔
      ∃ invokeContract, Hit operation invokeContract ∧ Gives invokeContract details := by
  rw [extractFrom]
  cases hcall : operation.call with
  | error e =>
    refine iff_of_false nofun ?_
    rintro ⟨invokeContract, ⟨hcall', -⟩, -⟩
    exact absurd (hcall.symm.trans hcall') nofun
  | ok call =>
  cases call with
  | none => exact absurd (.inl hcall) h
  | some invokeContract =>
  have hname : readFunctionName invokeContract = some "contribute" := by
    by_contra hother
    exact h (.inr ⟨invokeContract, hcall, .inl hother⟩)
  have hhit : ∀ invokeContract', Hit operation invokeContract' → invokeContract' = invokeContract :=
    fun _ hhit => Option.some.inj (Except.ok.inj (hhit.1.symm.trans hcall))
  refine (Eq.congr (if_neg (not_not.mpr hname)) rfl).trans ?_
  cases hargs : invokeContract.args.call with
  | error e =>
    refine iff_of_false nofun ?_
    rintro ⟨_, hhit', args, hargs', -⟩
    obtain rfl := hhit _ hhit'
    exact absurd (hargs.symm.trans hargs') nofun
  | ok args =>
  cases hdetails : argumentsOf (args.getD []) with
  | none => exact absurd (.inr ⟨invokeContract, hcall, .inr ⟨args, hargs, hdetails⟩⟩) h
  | some details' =>
    have hgives : Gives invokeContract details' := ⟨args, hargs, hdetails⟩
    change (match argumentsOf (args.getD []) with
      | some details => Except.ok (some details)
      | none => extractFrom operations) = .ok (some details) ↔ _
    rw [hdetails]
    constructor
    · intro h
      obtain rfl : details' = details := Option.some.inj (Except.ok.inj h)
      exact ⟨invokeContract, ⟨hcall, hname, details', hgives⟩, hgives⟩
    · rintro ⟨_, hhit', hgives'⟩
      obtain rfl := hhit _ hhit'
      rw [hgives.unique hgives']

/-- **What the loop extracts** are the arguments of the counted call. -/
theorem extractFrom_eq_some_iff : extractFrom operations = .ok (some details) ↔
    ∃ invokeContract, Counted operations invokeContract ∧ Gives invokeContract details := by
  induction operations with
  | nil =>
    refine iff_of_false nofun ?_
    rintro ⟨invokeContract, ⟨before, operation, after, hsplit, -⟩, -⟩
    exact absurd (congrArg List.length hsplit) (by simp)
  | cons operation operations ih =>
    by_cases hskipped : Skipped operation
    · simp only [hskipped.extractFrom_cons, hskipped.counted_cons, ih]
    · rw [extractFrom_cons_of_not_skipped hskipped]
      constructor
      · rintro ⟨invokeContract, hhit, hgives⟩
        have hbefore : ∀ skipped ∈ [], Skipped skipped := fun _ hmem => absurd hmem List.not_mem_nil
        exact ⟨invokeContract, ⟨[], operation, operations, rfl, hbefore, hhit⟩, hgives⟩
      · rintro ⟨invokeContract, hcounted, hgives⟩
        exact ⟨invokeContract, hcounted.hit_of_not_skipped hskipped, hgives⟩

end Loop

/-- A call on the contract in the envelope. -/
def OwnCall (operations : List Xdr.Operation) (contractAddress : String)
    (invokeContract : InvokeContract) : Prop :=
  ∃ operation ∈ operations, operation.call = .ok (some invokeContract) ∧
    IsContribution contractAddress invokeContract

/-- Two calls with the same amount and asset among their arguments. -/
def SameArguments (invokeContract invokeContract' : InvokeContract) : Prop :=
  ∃ args args', invokeContract.args.call = .ok args ∧ invokeContract'.args.call = .ok args' ∧
    argumentsOf (args.getD []) = argumentsOf (args'.getD [])

/-- **The group's own call comes first.** A direct amount stands beside the contract of the group, or
is that of a call on it. Without one, the first `contribute` call with a numeric argument is on the
contract, or happens to have the arguments of a call that is. -/
def OwnCallFirst (transaction : RpcTransaction) (contractAddress : String) : Prop :=
  (∀ details, transaction.directDetails = some details →
    IsDirectContribution transaction contractAddress ∨
      EnvelopeGives fromXDR transaction contractAddress details) ∧
  (transaction.directDetails = none → ∀ envelopeXdr operations invokeContract,
    transaction.envelopeText = some envelopeXdr → operationsOf fromXDR envelopeXdr = .ok operations →
      Counted operations invokeContract → IsContribution contractAddress invokeContract ∨
        ∃ own, OwnCall operations contractAddress own ∧ SameArguments invokeContract own)

/-- A call on the contract with the arguments of another gives what that one does. -/
theorem operationGives_iff {operations : List Xdr.Operation} {contractAddress : String}
    {invokeContract : InvokeContract} {details : ContributionDetails}
    (hgives : Gives invokeContract details) : OperationGives operations contractAddress details ↔
      ∃ own, OwnCall operations contractAddress own ∧ SameArguments invokeContract own := by
  obtain ⟨args, hargs, hdetails⟩ := hgives
  constructor
  · rintro ⟨operation, hmem, own, hcall, hown, args', hargs', hdetails'⟩
    exact ⟨own, ⟨operation, hmem, hcall, hown⟩, args, args', hargs, hargs',
      hdetails.trans hdetails'.symm⟩
  · rintro ⟨own, ⟨operation, hmem, hcall, hown⟩, args'', args', hargs'', hargs', hsame⟩
    obtain rfl : args = args'' := Except.ok.inj (hargs.symm.trans hargs'')
    exact ⟨operation, hmem, own, hcall, hown, args', hargs', hsame.symm.trans hdetails⟩

section Agreement

variable {fromXDR cfg} {transaction : RpcTransaction} {txHash : String}
  {groupContractAddress : Option String} {details : ContributionDetails}

/-- What is extracted: the direct fields, else the arguments of the counted call. -/
theorem extractContributionAmount_eq_ok_iff :
    extractContributionAmount fromXDR transaction = .ok details ↔
      transaction.directDetails = some details ∨ transaction.directDetails = none ∧
        ∃ envelopeXdr operations invokeContract, transaction.envelopeText = some envelopeXdr ∧
          operationsOf fromXDR envelopeXdr = .ok operations ∧
            Counted operations invokeContract ∧ Gives invokeContract details := by
  rw [extractContributionAmount]
  cases hdirect : transaction.directDetails with
  | some details' => simp
  | none =>
  cases henvelope : transaction.envelopeText with
  | none => simp
  | some envelopeXdr =>
  cases hoperations : operationsOf fromXDR envelopeXdr with
  | error e => simp [Except.bind, hoperations]
  | ok operations =>
    have hextract : extractFrom operations = .ok (some details) ↔ ∃ invokeContract,
        Counted operations invokeContract ∧ Gives invokeContract details := extractFrom_eq_some_iff
    simp only [Except.bind]
    cases hfound : extractFrom operations with
    | error e => simp_all
    | ok found =>
      cases found <;> simp_all

/-- Both methods make the same checks first. -/
theorem getTransactionAmount_of_verified
    (h : verifyContributionForGroup fromXDR cfg (.ok (some transaction)) txHash
      groupContractAddress = .ok true) :
    getTransactionAmount fromXDR cfg (.ok (some transaction)) txHash =
      extractContributionAmount fromXDR transaction := by
  rw [verifyContributionForGroup] at h
  rw [getTransactionAmount]
  by_cases hhash : txHash = ""
  · rw [if_pos hhash] at h
    cases h
  rw [if_neg hhash] at h ⊢
  cases hchecked : checkConfiguration cfg with
  | error e =>
    rw [hchecked] at h
    cases h
  | ok done =>
    rw [hchecked] at h
    by_cases hstatus : transaction.statusText ≠ "" && transaction.statusText ≠ "success"
    · have hfalse := (if_pos hstatus).symm.trans h
      cases hfalse
    · exact if_neg hstatus

end Agreement

namespace Sample

/-- A contract call with one amount, as the SDK decodes it. -/
def invocation (contract : String) (amount : ℤ) : InvokeContract where
  contractAddress := .returns (some ⟨contract, .returns (some "[object Object]")⟩)
  functionName := .returns (some (.returns (some "contribute")))
  args := .returns (some [{ i128 := .returns (some ⟨0, amount⟩) }])

/-- The operation with that call. -/
def operation (contract : String) (amount : ℤ) : Xdr.Operation where
  body := .returns (some ⟨.returns (some ⟨.returns (some ⟨.returns (some
    (invocation contract amount))⟩)⟩)⟩)

/-- The envelope has these operations. -/
def decoded (operations : List Xdr.Operation) (_ : String) : Except Exc Envelope :=
  .ok { v1 := .returns (some ⟨.returns (some ⟨.returns (some operations)⟩)⟩) }

def settings : Config where
  rpcUrls := ["https://rpc"]
  networkPassphrase := "network"
  defaultContractAddress := "CD"

/-- A reply that names a contribution to `CG`, with an envelope. -/
def transaction : RpcTransaction where
  status := .text "SUCCESS"
  functionName := .text "contribute"
  contractAddress := .text "CG"
  envelopeXdr := .text "AAAA"

end Sample

end StellarService

end Ahjoor
