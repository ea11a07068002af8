import Ahjoor.Store.Table
import Mathlib.Data.Int.Notation

/-!
# Entities of a savings group

The rows behind groups, memberships, contributions, payouts and penalties, with the columns
that the modelled services read or write. A column that the source reads with `??` or writes
as `null` is an `Option`; a `Date` is a number of milliseconds. The default value of a field
is the default of its column, so that `{ … : Contribution }` with the fields the source passes
to `create` is the row the database stores.

Primary keys are generated by the database, and are modelled by natural numbers.
-/

namespace Ahjoor

open Store

/-- A generated primary key. -/
abbrev Uuid := ℕ

/-! ### Exceptions and truthiness -/

/-- A thrown value: an `HttpException` with its status, the database's unique-constraint
violation with the constraint's name, or any other `Error`. -/
inductive Exc
  | http (status : ℕ) (message : String)
  | uniqueViolation (constraint : String)
  | error (message : String)
  deriving DecidableEq, Repr

/-- `error.message`. -/
def Exc.message : Exc → String
  | http _ m | error m => m
  | uniqueViolation c => s!"duplicate key value violates unique constraint \"{c}\""

/-- `error instanceof HttpException`. -/
def Exc.isHttp : Exc → Bool
  | http _ _ => true
  | _ => false

/-- `error instanceof HttpException && error.getStatus() === status`. -/
def Exc.hasStatus (status : ℕ) : Exc → Bool
  | http s _ => s == status
  | _ => false

/-- `new BadRequestException(message)`. -/
def badRequest (message : String) : Exc := .http 400 message

/-- `new ForbiddenException(message)`. -/
def forbidden (message : String) : Exc := .http 403 message

/-- `new NotFoundException(message)`. -/
def notFound (message : String) : Exc := .http 404 message

/-- `new ConflictException(message)`. -/
def conflict (message : String) : Exc := .http 409 message

/-- `new InternalServerErrorException(message)`. -/
def internalServerError (message : String) : Exc := .http 500 message

/-- `new BadGatewayException(message)`. -/
def badGateway (message : String) : Exc := .http 502 message

/-- A nullable string in a condition: neither `null` nor empty. -/
def truthy (s : Option String) : Bool := s.any (· != "")

@[simp] theorem truthy_none : truthy none = false := rfl

@[simp] theorem truthy_some (s : String) : truthy (some s) = (s != "") := rfl

theorem exists_of_truthy {value : Option String} (h : truthy value = true) : ∃ s, value = some s := by
  cases value with
  | none => cases h
  | some s => exact ⟨s, rfl⟩

/-! ### Groups and memberships -/

inductive GroupStatus
  | pending | active | completed
  deriving DecidableEq, Repr

/-- A savings group. -/
structure Group where
  id : Uuid
  name : String
  contractAddress : Option String := none
  adminWallet : String
  contributionAmount : String
  assetCode : Option String := some "XLM"
  assetIssuer : Option String := none
  unitOfAccountAssetCode : Option String := some "XLM"
  unitOfAccountAssetIssuer : Option String := none
  fxRateExpirySeconds : Option ℕ := some 900
  fxToleranceBps : Option ℕ := some 200
  allowCrossAssetContributions : Option Bool := some true
  status : GroupStatus := .pending
  currentRound : ℤ := 0
  totalRounds : ℤ
  staleAt : Option ℕ := none
  startDate : Option ℕ := none
  endDate : Option ℕ := none
  deriving DecidableEq, Repr

instance : Entity Group := ⟨Group.id, fun i g => { g with id := i }, fun _ _ => rfl⟩

inductive MembershipStatus
  | active | suspended | removed
  deriving DecidableEq, Repr

/-- A user's participation in a group. -/
structure Membership where
  id : Uuid
  groupId : Uuid
  userId : Uuid
  walletAddress : String
  payoutOrder : Option ℤ := none
  hasReceivedPayout : Bool := false
  hasPaidCurrentRound : Bool := false
  contributionsMade : ℤ := 0
  transactionHash : Option String := none
  status : MembershipStatus := .active
  deriving DecidableEq, Repr

instance : Entity Membership := ⟨Membership.id, fun i m => { m with id := i }, fun _ _ => rfl⟩

/-! ### Payouts -/

inductive PayoutTransactionStatus
  | pendingSubmission | submitted | confirmed | failed
  deriving DecidableEq, Repr

/-- The status as the source prints it. -/
def PayoutTransactionStatus.toString : PayoutTransactionStatus → String
  | pendingSubmission => "PENDING_SUBMISSION"
  | submitted => "SUBMITTED"
  | confirmed => "CONFIRMED"
  | failed => "FAILED"

/-- `status.toLowerCase()`. -/
def PayoutTransactionStatus.toLower : PayoutTransactionStatus → String
  | pendingSubmission => "pending_submission"
  | submitted => "submitted"
  | confirmed => "confirmed"
  | failed => "failed"

inductive PathPaymentOutcome
  | fullFill | partialFill | slippageExceeded | failed
  deriving DecidableEq, Repr

/-- The outcome as the source prints it. -/
def PathPaymentOutcome.toString : PathPaymentOutcome → String
  | fullFill => "FULL_FILL"
  | partialFill => "PARTIAL_FILL"
  | slippageExceeded => "SLIPPAGE_EXCEEDED"
  | failed => "FAILED"

/-- The record of one payout, unique for each `payoutOrderId`. -/
structure PayoutTransaction where
  id : Uuid
  payoutOrderId : String
  status : PayoutTransactionStatus := .pendingSubmission
  txHash : Option String := none
  assetCode : String := "XLM"
  assetIssuer : Option String := none
  requestedAmount : Option String := none
  deliveredAmount : Option String := none
  pathPaymentOutcome : Option PathPaymentOutcome := none
  fxRate : Option String := none
  failureReason : Option String := none
  deriving DecidableEq, Repr

instance : Entity PayoutTransaction :=
  ⟨PayoutTransaction.id, fun i p => { p with id := i }, fun _ _ => rfl⟩

inductive PenaltyStatus
  | pending | paid | waived | disputed | rejected
  deriving DecidableEq, Repr

/-- A late-contribution fee. -/
structure Penalty where
  id : Uuid
  groupId : Uuid
  userId : Uuid
  status : PenaltyStatus := .pending
  deriving DecidableEq, Repr

instance : Entity Penalty := ⟨Penalty.id, fun i p => { p with id := i }, fun _ _ => rfl⟩

/-! ### Contributions -/

inductive ContributionStatus
  | pending | onChainSubmitted | confirmed | failed
  deriving DecidableEq, Repr

/-- A member's on-chain contribution to a round. -/
structure Contribution where
  id : Uuid
  groupId : Uuid
  userId : Uuid
  walletAddress : String
  roundNumber : ℤ
  amount : String
  transactionHash : String
  timestamp : ℕ
  assetCode : String := "XLM"
  assetIssuer : Option String := none
  unitOfAccountAssetCode : String := "XLM"
  unitOfAccountAssetIssuer : Option String := none
  fxRate : Option String := some "1"
  fxRateCapturedAt : Option ℕ := none
  fxRateExpiresAt : Option ℕ := none
  fxToleranceBps : ℕ := 200
  normalizedAmount : Option String := none
  status : ContributionStatus := .pending
  idempotencyKey : Option String := none
  deriving DecidableEq, Repr

instance : Entity Contribution :=
  ⟨Contribution.id, fun i c => { c with id := i }, fun _ _ => rfl⟩

section IdLemmas

@[simp] theorem id_group (g : Group) : Entity.id g = g.id := rfl

@[simp] theorem id_membership (m : Membership) : Entity.id m = m.id := rfl

@[simp] theorem id_payoutTransaction (p : PayoutTransaction) : Entity.id p = p.id := rfl

@[simp] theorem id_contribution (c : Contribution) : Entity.id c = c.id := rfl

end IdLemmas

end Ahjoor
