import Ahjoor.Groups.Entities
import Mathlib.Algebra.Order.Field.Rat

/-!
# Instalment plans

The plan and its penalty clock. What a request does to a plan that it has read is a `Decision`:
the plan is stored with its changes, or the request is refused. A settlement after the expiry
ledger stores the plan as expired and is refused as well.

A ledger is an integer. The fraction of a penalty window that has elapsed is the exact quotient,
before it is rounded to a floating-point number.
-/

namespace Ahjoor.Payments

open Store

/-! ### The entity -/

inductive InstallmentPlanStatus
  | active | completed | expired | paused
  deriving DecidableEq, Repr

/-- A plan to pay an amount in instalments. -/
structure InstallmentPaymentPlan where
  id : Uuid
  customer : Uuid
  merchant : Uuid
  token : String
  totalAmount : String
  numInstallments : ℤ
  intervalLedgers : ℤ
  currentInstallment : ℤ
  nextDueLedger : ℤ
  expiryLedger : ℤ
  status : InstallmentPlanStatus := .active
  installmentAmounts : List String
  paused : Bool := false
  pausedAtLedger : Option ℤ := none
  pausedAt : Option ℕ := none
  totalPausedLedgers : ℤ := 0
  pauseCount : ℤ := 0
  lastResumedAtLedger : Option ℤ := none
  deriving DecidableEq, Repr

instance : Entity InstallmentPaymentPlan :=
  ⟨InstallmentPaymentPlan.id, fun i p => { p with id := i }, fun _ _ => rfl⟩

@[simp] theorem id_plan (p : InstallmentPaymentPlan) : Entity.id p = p.id := rfl

/-- Maximum number of pause cycles allowed over the life of a plan. -/
def MAX_PAUSES_PER_PLAN : ℤ := 3

/-- Minimum ledgers that must elapse after a resume before the plan may be paused again. -/
def MIN_LEDGERS_BETWEEN_PAUSES : ℤ := 100

/-! ### The penalty clock -/

/-- `PenaltyAccrualState`. -/
structure PenaltyAccrualState where
  accruing : Bool
  effectiveDueLedger : ℤ
  ledgersLate : ℤ
  completedPenaltyWindows : ℤ
  midWindowProgress : ℚ
  deriving DecidableEq

/-- `getPenaltyAccrualState(plan, currentLedger)`. -/
def getPenaltyAccrualState (plan : InstallmentPaymentPlan) (currentLedger : ℤ) :
    PenaltyAccrualState :=
  let effectiveDueLedger := plan.nextDueLedger
  let interval := max plan.intervalLedgers 1
  if plan.paused then
    { accruing := false, effectiveDueLedger, ledgersLate := 0, completedPenaltyWindows := 0,
      midWindowProgress := 0 }
  else
    let ledgersLate := max 0 (currentLedger - effectiveDueLedger)
    { accruing := 0 < ledgersLate
      effectiveDueLedger
      ledgersLate
      completedPenaltyWindows := ledgersLate / interval
      midWindowProgress := (ledgersLate % interval : ℤ) / (interval : ℤ) }

/-- `computePausedLedgers(pausedAtLedger, resumeLedger)`. -/
def computePausedLedgers (pausedAtLedger resumeLedger : ℤ) : Except Exc ℤ :=
  if resumeLedger < pausedAtLedger then
    .error (.error "resumeLedger must be >= pausedAtLedger")
  else .ok (resumeLedger - pausedAtLedger)

/-! ### Decisions -/

/-- What a request does with the plan that it has read. -/
inductive Decision
  | refuse (e : Exc)
  | store (plan : InstallmentPaymentPlan)
  /-- `PlanExpired` -/
  | expire (plan : InstallmentPaymentPlan)
  deriving DecidableEq

/-- `new BadRequestException('PlanExpired')`. -/
def planExpired : Exc := badRequest "PlanExpired"

/-- The plan with one more instalment settled. -/
def InstallmentPaymentPlan.settled (plan : InstallmentPaymentPlan) : InstallmentPaymentPlan :=
  let plan := { plan with currentInstallment := plan.currentInstallment + 1 }
  if plan.numInstallments ≤ plan.currentInstallment then { plan with status := .completed }
  else { plan with nextDueLedger := plan.nextDueLedger + plan.intervalLedgers }

/-- What `settleInstallment` decides. -/
def decideSettle (currentLedger : ℤ) (plan : InstallmentPaymentPlan) : Decision :=
  if plan.status ≠ .active then .refuse (badRequest "Plan not active")
  else if plan.paused then .refuse (badRequest "Plan is paused")
  else if currentLedger < plan.nextDueLedger then .refuse (badRequest "InstallmentNotDue")
  else if plan.numInstallments ≤ plan.currentInstallment then
    .refuse (badRequest "Plan already completed")
  else if plan.expiryLedger < currentLedger then .expire { plan with status := .expired }
  else .store plan.settled

/-- The cooldown after the last resume is not over; the ledgers that remain. -/
def cooldown (currentLedger : ℤ) (plan : InstallmentPaymentPlan) : Option ℤ :=
  plan.lastResumedAtLedger.bind fun lastResumedAtLedger =>
    if currentLedger - lastResumedAtLedger < MIN_LEDGERS_BETWEEN_PAUSES then
      some (MIN_LEDGERS_BETWEEN_PAUSES - (currentLedger - lastResumedAtLedger))
    else none

/-- What `pausePlan` decides at the time `now`. -/
def decidePause (currentLedger : ℤ) (now : ℕ) (plan : InstallmentPaymentPlan) : Decision :=
  if plan.status ≠ .active ∨ plan.paused then .refuse (badRequest "Plan cannot be paused")
  else if MAX_PAUSES_PER_PLAN ≤ plan.pauseCount then
    .refuse (badRequest s!"Pause limit reached (max {MAX_PAUSES_PER_PLAN} pauses per plan)")
  else
    match cooldown currentLedger plan with
    | some remaining =>
        .refuse (.http 429 s!"Pause cooldown active; wait {remaining} more ledger(s)")
    | none => .store { plan with
        paused := true
        status := .paused
        pausedAtLedger := some currentLedger
        pausedAt := some now
        pauseCount := plan.pauseCount + 1 }

/-- The plan resumed after a pause. -/
def InstallmentPaymentPlan.resumed (plan : InstallmentPaymentPlan) (currentLedger pausedLedgers : ℤ) :
    InstallmentPaymentPlan :=
  { plan with
    nextDueLedger := plan.nextDueLedger + pausedLedgers
    expiryLedger := plan.expiryLedger + pausedLedgers
    totalPausedLedgers := plan.totalPausedLedgers + pausedLedgers
    paused := false
    status := .active
    pausedAtLedger := none
    pausedAt := none
    lastResumedAtLedger := some currentLedger }

/-- What `resumePlan` decides. -/
def decideResume (currentLedger : ℤ) (plan : InstallmentPaymentPlan) : Decision :=
  if plan.status ≠ .paused ∨ !plan.paused then .refuse (badRequest "Plan is not paused")
  else
    -- a backfilled pause may lack its ledger: the resume is the anchor then
    let pausedAtLedger := plan.pausedAtLedger.getD currentLedger
    if currentLedger < pausedAtLedger then
      .refuse (badRequest "currentLedger must be >= pausedAtLedger")
    else
      match computePausedLedgers pausedAtLedger currentLedger with
      | .error e => .refuse e
      | .ok pausedLedgers => .store (plan.resumed currentLedger pausedLedgers)

end Ahjoor.Payments
