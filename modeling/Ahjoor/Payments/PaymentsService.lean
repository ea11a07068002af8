import Ahjoor.Async.Discipline
import Ahjoor.Async.Sequential
import Ahjoor.Payments.InstallmentPlan
import Ahjoor.Stellar.Sdk

/-!
# `PaymentsService`

Every request on a plan reads it, decides, and saves the whole copy. There is no transaction and
no lock around the three steps. A query that fails has no effect.
-/

namespace Ahjoor.Payments

open Async Store

/-! ### The database -/

/-- The plans. -/
structure World where
  plans : Table InstallmentPaymentPlan := .empty

/-- An awaited operation. -/
inductive Op
  /-- `planRepo.findOne({ where: { id } })` -/
  | findOne (id : Uuid)
  /-- `planRepo.save(plan)` of a plan that has just been created -/
  | insert (plan : InstallmentPaymentPlan)
  /-- `planRepo.save(plan)` of a plan that was read before -/
  | save (plan : InstallmentPaymentPlan)

/-- What an operation returns: a result, or the message of the database's error. -/
def Op.Ret : Op → Type
  | findOne _ => Except String (Option InstallmentPaymentPlan)
  | insert _ | save _ => Except String InstallmentPaymentPlan

/-- What the environment decides about one operation. -/
inductive Choice
  | done
  | fails (message : String)

/-- What an operation does. -/
def exec : (o : Op) → ℕ → Choice → World → Option (o.Ret × World)
  | .findOne id, _, .done, w => some (.ok (w.plans.row id), w)
  | .findOne _, _, .fails msg, w => some (.error msg, w)
  | .insert plan, _, .done, w =>
      let stored := w.plans.insert plan
      some (.ok stored.1, { w with plans := stored.2 })
  | .insert _, _, .fails msg, w => some (.error msg, w)
  | .save plan, _, .done, w => some (.ok plan, { w with plans := w.plans.put plan })
  | .save _, _, .fails msg, w => some (.error msg, w)

/-! ### The methods -/

/-- The body of an asynchronous method. -/
abbrev Service (α : Type) := Routine Op.Ret Unit Exc α

/-- `planRepo.findOne({ where: { id } })`. -/
def findOne (id : Uuid) : Service (Option InstallmentPaymentPlan) :=
  Routine.call (.findOne id) (Except.mapError .error)

/-- `planRepo.save(plan)`. -/
def save (plan : InstallmentPaymentPlan) : Service InstallmentPaymentPlan :=
  Routine.call (.save plan) (Except.mapError .error)

/-- `planRepo.create({ … })`. -/
def newPlan (merchant customer : Uuid) (token totalAmount : String)
    (numInstallments intervalLedgers expiryLedger : ℤ) (amounts : List String) :
    InstallmentPaymentPlan where
  id := 0
  merchant
  customer
  token
  totalAmount
  numInstallments
  intervalLedgers
  expiryLedger
  currentInstallment := 0
  nextDueLedger := 0
  installmentAmounts := amounts

/-- `createInstallmentPlan(…)`. -/
def createInstallmentPlan (merchant customer : Uuid) (token totalAmount : String)
    (numInstallments intervalLedgers expiryLedger : ℤ) : Service InstallmentPaymentPlan := do
  Routine.throwWhen (numInstallments < 1) (badRequest "numInstallments must be >= 1")
  let total ← Routine.valueOr (bigInt? totalAmount)
    (.error s!"Cannot convert {totalAmount} to a BigInt")
  let perInstallment := s!"{total.tdiv numInstallments}"
  Routine.throwWhen (2 ^ 32 ≤ numInstallments) (.error "Invalid array length")
  let amounts := List.replicate numInstallments.toNat perInstallment
  Routine.call (.insert (newPlan merchant customer token totalAmount numInstallments
    intervalLedgers expiryLedger amounts)) (Except.mapError .error)

/-- Carry out a decision. -/
def perform : Decision → Service InstallmentPaymentPlan
  | .refuse e => throw e
  | .store plan => save plan
  | .expire plan => do
      let _ ← save plan
      throw planExpired

/-- A request on a plan: read it, decide, and carry out the decision. -/
def request (planId : Uuid) (decide : InstallmentPaymentPlan → Decision) :
    Service InstallmentPaymentPlan := do
  let found ← findOne planId
  let plan ← Routine.valueOr found (notFound "Plan not found")
  perform (decide plan)

/-- `settleInstallment(planId, currentLedger)`. -/
def settleInstallment (planId : Uuid) (currentLedger : ℤ) : Service InstallmentPaymentPlan :=
  request planId (decideSettle currentLedger)

/-- `pausePlan(planId, currentLedger)` at the time `now`. -/
def pausePlan (planId : Uuid) (currentLedger : ℤ) (now : ℕ) : Service InstallmentPaymentPlan :=
  request planId (decidePause currentLedger now)

/-- `resumePlan(planId, currentLedger)`. -/
def resumePlan (planId : Uuid) (currentLedger : ℤ) : Service InstallmentPaymentPlan :=
  request planId (decideResume currentLedger)

/-! ### The system -/

/-- The requests. -/
inductive Call
  | createInstallmentPlan (merchant customer : Uuid) (token totalAmount : String)
      (numInstallments intervalLedgers expiryLedger : ℤ)
  | settleInstallment (planId : Uuid) (currentLedger : ℤ)
  | pausePlan (planId : Uuid) (currentLedger : ℤ) (now : ℕ)
  | resumePlan (planId : Uuid) (currentLedger : ℤ)
  deriving DecidableEq

/-- The body of a request. -/
def Call.body : Call → Service InstallmentPaymentPlan
  | createInstallmentPlan merchant customer token totalAmount numInstallments intervalLedgers
      expiryLedger =>
      Payments.createInstallmentPlan merchant customer token totalAmount numInstallments
        intervalLedgers expiryLedger
  | settleInstallment planId currentLedger => Payments.settleInstallment planId currentLedger
  | pausePlan planId currentLedger now => Payments.pausePlan planId currentLedger now
  | resumePlan planId currentLedger => Payments.resumePlan planId currentLedger

/-- What a request returns. -/
abbrev Result := Except Exc InstallmentPaymentPlan

/-- The requests on instalment plans. -/
def system : System Op.Ret Choice World Call Result where
  exec := exec
  body c := (c.body ()).bind fun x => .ret x.1

/-- The history of a run. -/
abbrev PlanHist := Hist Op.Ret World Call Result

/-- The state of a run. -/
abbrev PlanState := State Op.Ret World Call Result

/-! ### Requests on a plan -/

/-- The plan of a request, and what the request decides about it. -/
def Call.target : Call → Option (Uuid × (InstallmentPaymentPlan → Decision))
  | createInstallmentPlan _ _ _ _ _ _ _ => none
  | settleInstallment planId currentLedger => some (planId, decideSettle currentLedger)
  | pausePlan planId currentLedger now => some (planId, decidePause currentLedger now)
  | resumePlan planId currentLedger => some (planId, decideResume currentLedger)

theorem body_of_target {c : Call} {id : Uuid} {decide : InstallmentPaymentPlan → Decision}
    (h : c.target = some (id, decide)) : c.body = request id decide := by
  cases c with
  | createInstallmentPlan => cases h
  | settleInstallment planId currentLedger =>
    cases h
    rfl
  | pausePlan planId currentLedger now =>
    cases h
    rfl
  | resumePlan planId currentLedger =>
    cases h
    rfl

/-- A creation is refused, or inserts the plan with its amounts. -/
theorem body_createInstallmentPlan (merchant customer : Uuid) (token totalAmount : String)
    (numInstallments intervalLedgers expiryLedger : ℤ) :
    (∃ e, e ≠ planExpired ∧ system.body (.createInstallmentPlan merchant customer token totalAmount
      numInstallments intervalLedgers expiryLedger) = .ret (.error e)) ∨
    (1 ≤ numInstallments ∧ ∃ total, bigInt? totalAmount = some total ∧
      system.body (.createInstallmentPlan merchant customer token totalAmount numInstallments
        intervalLedgers expiryLedger) =
        .op (.insert (newPlan merchant customer token totalAmount numInstallments intervalLedgers
          expiryLedger (List.replicate numInstallments.toNat s!"{total.tdiv numInstallments}")))
            fun r => .ret (r.mapError .error)) := by
  change (∃ e, e ≠ planExpired ∧ (createInstallmentPlan merchant customer token totalAmount
    numInstallments intervalLedgers expiryLedger ()).bind _ = _) ∨ (1 ≤ numInstallments ∧
      ∃ total, _ ∧ (createInstallmentPlan merchant customer token totalAmount numInstallments
        intervalLedgers expiryLedger ()).bind _ = _)
  by_cases hnum : numInstallments < 1
  · rw [createInstallmentPlan, Routine.throwWhen, if_pos (decide_eq_true hnum)]
    exact .inl ⟨_, by simp [badRequest, planExpired], rfl⟩
  have hpositive : ¬ decide (numInstallments < 1) = true := by rwa [decide_eq_true_eq]
  rw [createInstallmentPlan, Routine.throwWhen, if_neg hpositive]
  cases htotal : bigInt? totalAmount with
  | none => exact .inl ⟨.error s!"Cannot convert {totalAmount} to a BigInt", nofun, rfl⟩
  | some total =>
    by_cases hlong : 2 ^ 32 ≤ numInstallments
    · simp only [Routine.throwWhen, if_pos (decide_eq_true hlong)]
      exact .inl ⟨.error "Invalid array length", nofun, rfl⟩
    · have hshort : ¬ decide ((2 : ℤ) ^ 32 ≤ numInstallments) = true := by rwa [decide_eq_true_eq]
      simp only [Routine.throwWhen, if_neg hshort]
      exact .inr ⟨not_lt.mp hnum, total, rfl, rfl⟩

end Ahjoor.Payments
