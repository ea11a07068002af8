import Ahjoor.Common.Date
import Ahjoor.Decimal.Arithmetic
import Ahjoor.Groups.Entities

/-!
# Transactions, the SDK and the RPC interface

What the services hand to the Stellar SDK and what the RPC answers. The SDK is a third-party
package: `Sdk` collects what the services rely on, namely which values its constructors accept
and the hash of a transaction. Building a transaction decodes its operation, so an object that
is not an operation of the SDK is refused (`Sdk.build`).

Amounts and rates that the RPC reports are plain decimal numerals; other strings read as `NaN`.
-/

namespace Ahjoor

/-! ### Strings -/

/-- `s.toLowerCase()` on ASCII text. -/
def lowerCase (s : String) : String := String.ofList (s.toList.map Char.toLower)

/-- `s.toUpperCase()` on ASCII text. -/
def upperCase (s : String) : String := String.ofList (s.toList.map Char.toUpper)

/-- `s.includes(part)`. -/
def includes (s part : String) : Bool := s.toList.tails.any fun cs => part.toList.isPrefixOf cs

/-- `BigInt(s)` on a decimal numeral with an optional sign: `none` where it throws, as it does
on a string with a decimal point. Hexadecimal, octal and binary numerals and white space around a
numeral, which `BigInt` also takes, are left out. -/
def bigInt? (s : String) : Option ℤ :=
  match s.toList with
  | '-' :: c :: cs => (Decimal.digitsVal? 0 (c :: cs)).map fun n : ℕ => -(n : ℤ)
  | '+' :: c :: cs => (Decimal.digitsVal? 0 (c :: cs)).map fun n : ℕ => (n : ℤ)
  | cs => (Decimal.digitsVal? 0 cs).map fun n : ℕ => (n : ℤ)

theorem bigInt?_natCast (n : ℕ) : bigInt? s!"{(n : ℤ)}" = some (n : ℤ) := by
  have hprinted : s!"{(n : ℤ)}".toList = Nat.toDigits 10 n := Nat.toList_repr
  have hdigits : ∀ c ∈ Nat.toDigits 10 n, c.isDigit = true := fun c hc =>
    Nat.isDigit_of_mem_toDigits (by decide) (by decide) hc
  unfold bigInt?
  rw [hprinted]
  split
  next c cs heq => exact absurd (hdigits '-' (heq ▸ List.mem_cons_self)) (by decide)
  next c cs heq => exact absurd (hdigits '+' (heq ▸ List.mem_cons_self)) (by decide)
  next => rw [Decimal.digitsVal?_toDigits, Option.map_some]

/-- A transaction hash is never empty. -/
abbrev Hash := { s : String // s ≠ "" }

/-! ### Transactions -/

/-- The SDK's asset object. -/
inductive Asset
  | native
  | issued (code issuer : String)
  deriving DecidableEq, Repr

/-- A contract argument. -/
inductive ScVal
  | address (s : String)
  | i128 (n : ℤ)
  | string (s : String)
  | asset (a : Asset)
  deriving DecidableEq, Repr

/-- What is handed to `addOperation`. -/
inductive Operation
  | contractCall (contract method : String) (args : List ScVal)
  | pathPaymentStrictReceive (sendAsset : Asset) (sendMax destination : String)
      (destAsset : Asset) (destAmount : String)
  /-- the plain object `{ contractAddress, method }` -/
  | plainObject (contractAddress method : String)
  deriving DecidableEq, Repr

/-- The source account: a random key pair or a member's wallet. -/
inductive SourceAccount
  | random (n : ℕ)
  | wallet (address : String)
  deriving DecidableEq, Repr

/-- A transaction with its single operation. -/
structure Transaction where
  source : SourceAccount
  operation : Operation
  fee : ℤ := 100
  resourceFee : Option ℤ := none
  deriving DecidableEq, Repr

/-- What the services rely on in the SDK. -/
structure Sdk where
  /-- `new Contract(address)` does not throw. -/
  validContract : String → Bool
  /-- `nativeToScVal(wallet, { type: 'address' })` and `new Account(wallet, '0')` do not throw. -/
  validAddress : String → Bool
  /-- `new Asset(code, issuer)` does not throw. -/
  validAsset : String → String → Bool
  /-- `nativeToScVal(asset)` does not throw. -/
  encodesAsset : Asset → Bool
  /-- `Operation.pathPaymentStrictReceive({ … })` accepts the amount. -/
  validAmount : String → Bool
  /-- `tx.hash().toString('hex')`. -/
  hash : Transaction → Hash

namespace Sdk

variable (sdk : Sdk)

/-- `new Contract(contract).call(method, …)` with the arguments encoded one by one; `none`
where a constructor throws. -/
def contractCall? (contract method : String) (args : List (Option ScVal)) : Option Operation :=
  if sdk.validContract contract then (args.mapM id).map (.contractCall contract method) else none

/-- `nativeToScVal(wallet, { type: 'address' })`. -/
def addressVal? (wallet : String) : Option ScVal :=
  if sdk.validAddress wallet then some (.address wallet) else none

/-- `nativeToScVal(BigInt(amount), { type: 'i128' })`: the value has to fit 128 bits. -/
def i128Val? (amount : String) : Option ScVal :=
  (bigInt? amount).bind fun n => if -2 ^ 127 ≤ n ∧ n < 2 ^ 127 then some (.i128 n) else none

/-- `nativeToScVal(asset)`. -/
def assetVal? (a : Asset) : Option ScVal := if sdk.encodesAsset a then some (.asset a) else none

/-- `Operation.pathPaymentStrictReceive({ … })`. -/
def pathPayment? (sendAsset : Asset) (sendMax destination : String) (destAsset : Asset)
    (destAmount : String) : Option Operation :=
  if sdk.validAddress destination && sdk.validAmount sendMax && sdk.validAmount destAmount then
    some (.pathPaymentStrictReceive sendAsset sendMax destination destAsset destAmount)
  else none

/-- `new TransactionBuilder(source, …).addOperation(operation).setTimeout(30).build()`. -/
def build (source : SourceAccount) : Operation → Option Transaction
  | .plainObject _ _ => none
  | op => some { source, operation := op }

end Sdk

theorem operation_of_build {source : SourceAccount} {op : Operation} {tx : Transaction}
    (h : Sdk.build source op = some tx) : tx.operation = op := by
  cases op <;> simp only [Sdk.build, Option.some.injEq, reduceCtorEq] at h <;> rw [← h]

/-! ### The RPC -/

/-- The reply to `simulateTransaction`. -/
structure Simulation where
  minResourceFee : Option ℤ := none
  error : Option String := none
  nativeValue : Bool := true

/-- The reply to `sendTransaction`, with the fields the services look at. -/
structure SendReply where
  hash : Option Hash := none
  id : Option Hash := none
  transactionHash : Option Hash := none
  sourceAmount : Option String := none
  sendAmount : Option String := none
  source_amount : Option String := none
  deliveredAmount : Option String := none
  destAmount : Option String := none
  destinationAmount : Option String := none
  amount_delivered : Option String := none

/-- The reply to `getTransaction`. -/
structure TxRecord where
  status : Option String := none
  txStatus : Option String := none
  state : Option String := none

/-- A request to the RPC server. -/
inductive Request
  | prepareTransaction (tx : Transaction)
  | simulateTransaction (tx : Transaction)
  | sendTransaction (tx : Transaction)
  | getTransaction (hash : String)
  | loadAccount (accountId : String)

/-- What each request returns. Preparing a transaction fills in its resource fee and leaves its
operation alone; of an account only the native balance is read. -/
def Request.Reply : Request → Type
  | prepareTransaction _ => ℤ
  | simulateTransaction _ => Simulation
  | sendTransaction _ => Option SendReply
  | getTransaction _ => Option TxRecord
  | loadAccount _ => Option String

/-! ### Configuration -/

/-- The settings the services read from their environment, with `configService`'s defaults
where the source gives one. -/
structure Config where
  rpcUrls : List String
  networkPassphrase : String
  defaultContractAddress : String
  serverPrepares : Bool := true
  maxFeeStroops : ℤ := 500000
  feeBufferPercent : ℚ := 20
  dailyAlertThresholdStroops : ℤ := 100000000
  stellarIssuerAccount : Option String := none
  stellarMinBalanceAlertXlm : ℚ := 5
  simulatePayoutCrashAfterSubmit : Bool := false
  verifyContributions : Bool := true
  txConfirmationTimeoutMs : ℕ := 120000
  fxProvider : String := "oracle"
  fxStaticRate : Option String := none
  fxOracleUrl : Option String := none

/-- The settings `validateConfiguration` asks for are there. -/
def Config.Valid (cfg : Config) : Prop :=
  cfg.rpcUrls ≠ [] ∧ cfg.networkPassphrase ≠ "" ∧ cfg.defaultContractAddress ≠ ""

instance (cfg : Config) : Decidable cfg.Valid :=
  inferInstanceAs (Decidable (_ ∧ _ ∧ _))

end Ahjoor
