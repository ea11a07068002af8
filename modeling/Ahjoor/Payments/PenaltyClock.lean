import Ahjoor.Payments.PaymentsService
import Mathlib.Tactic.Ring

/-!
# The penalty clock excludes pauses

Requests that run one after another keep the due and the expiry ledger of a plan in step with the
closed pauses, whatever their ledgers are. The lateness just after a resume is the one just before
the pause; the due ledger that is reported with it has moved by the length of the pause.
-/

namespace Ahjoor.Payments

open Async Store

/-! ### What is claimed -/

/-- The pauses of a plan in a sequential run: where the open one began, and how long the closed
ones were. -/
structure PauseClock where
  openedAt : Option ℤ := none
  closed : ℤ := 0

/-- A pause begins. -/
def PauseClock.pause (k : PauseClock) (ledger : ℤ) : PauseClock :=
  { k with openedAt := some ledger }

/-- The open pause ends. -/
def PauseClock.resume (k : PauseClock) (ledger : ℤ) : PauseClock where
  openedAt := none
  closed := k.closed + (ledger - k.openedAt.getD ledger)

/-- The pauses of plan `id` after these calls. -/
def pauseClock (id : Uuid) : List (Call × Result) → PauseClock
  | [] => {}
  | (.pausePlan i ledger _, .ok _) :: calls =>
      if i = id then (pauseClock id calls).pause ledger else pauseClock id calls
  | (.resumePlan i ledger, .ok _) :: calls =>
      if i = id then (pauseClock id calls).resume ledger else pauseClock id calls
  | _ :: calls => pauseClock id calls

/-- The call has resumed plan `id`. -/
def resumes (id : Uuid) : Call × Result → Bool
  | (.resumePlan i _, .ok _) => i = id
  | _ => false

/-- What holds of a plan that was stored as `created`, after the pauses `k`. -/
structure InStep (created : InstallmentPaymentPlan) (k : PauseClock) (p : InstallmentPaymentPlan) :
    Prop where
  due : p.status ≠ .completed →
    p.nextDueLedger = created.intervalLedgers * p.currentInstallment + p.totalPausedLedgers
  expiry : p.status ≠ .completed → p.expiryLedger = created.expiryLedger + p.totalPausedLedgers
  closed : p.totalPausedLedgers = k.closed
  paused_iff : p.status = .paused ↔ p.paused = true
  anchored_iff : p.paused = true ↔ p.pausedAtLedger ≠ none
  anchor : p.pausedAtLedger = k.openedAt
  within : p.currentInstallment ≤ p.numInstallments
  pauses : p.pauseCount ≤ MAX_PAUSES_PER_PLAN
  interval : p.intervalLedgers = created.intervalLedgers
  installments : p.numInstallments = created.numInstallments

/-- The ledger of a request. -/
def Call.ledger : Call → Option ℤ
  | createInstallmentPlan _ _ _ _ _ _ _ => none
  | settleInstallment _ ledger | pausePlan _ ledger _ | resumePlan _ ledger => some ledger

/-- The ledgers of the requests never decrease. -/
def LedgersAscend (calls : List (Call × Result)) : Prop :=
  (calls.filterMap fun x => x.1.ledger).Pairwise (· ≥ ·)

/-- The instalment clock of a plan that was stored as `created` in `w₀` excludes pauses; `Frozen d`
compares the penalty accrual before a pause of `d` ledgers with the one after it. -/
structure ClockExcludesPauses (Frozen : ℤ → PenaltyAccrualState → PenaltyAccrualState → Prop)
    (created : InstallmentPaymentPlan) (w₀ : World) : Prop where
  inStep : ∀ calls w, Runs system w₀ calls w → LedgersAscend calls →
    ∃ p, w.plans.row created.id = some p ∧ InStep created (pauseClock created.id calls) p
  refused : ∀ calls w pid c e w', Runs system w₀ calls w →
    Alone exec pid (system.body c) w (.error e) w' → LedgersAscend ((c, .error e) :: calls) → ∀ id p, w.plans.row id = some p →
      w'.plans.row id = some p ∨
        (p.status = .active ∧ w'.plans.row id = some { p with status := .expired })
  frozen : ∀ calls w pid a now q w₁ calls' w₂ pid' b q' w₃ p, Runs system w₀ calls w →
    w.plans.row created.id = some p →
    Alone exec pid (system.body (.pausePlan created.id a now)) w (.ok q) w₁ →
    Runs system w₁ calls' w₂ → (∀ x ∈ calls', resumes created.id x = false) →
    Alone exec pid' (system.body (.resumePlan created.id b)) w₂ (.ok q') w₃ →
    LedgersAscend ((.resumePlan created.id b, .ok q') :: calls' ++
      (.pausePlan created.id a now, .ok q) :: calls) →
      Frozen (b - a) (getPenaltyAccrualState p a) (getPenaltyAccrualState q' b)

/-! ### Decisions -/

section Decisions

variable {created p q r : InstallmentPaymentPlan} {k : PauseClock} {ledger : ℤ} {now : ℕ}

/-- What a settlement has found when it goes through. -/
theorem decideSettle_store (h : decideSettle ledger p = .store q) : p.status = .active ∧
    p.paused = false ∧ p.currentInstallment < p.numInstallments ∧ q = p.settled := by
  unfold decideSettle at h
  split_ifs at h with hstatus hpaused hdue hdone hexpiry
  exact ⟨not_not.mp hstatus, Bool.eq_false_iff.mpr hpaused, not_le.mp hdone,
    (Decision.store.inj h).symm⟩

theorem decideSettle_expire (h : decideSettle ledger p = .expire q) : p.status = .active ∧
    p.paused = false ∧ q = { p with status := .expired } := by
  unfold decideSettle at h
  split_ifs at h with hstatus hpaused hdue hdone hexpiry
  exact ⟨not_not.mp hstatus, Bool.eq_false_iff.mpr hpaused, (Decision.expire.inj h).symm⟩

theorem decidePause_store (h : decidePause ledger now p = .store q) : p.status = .active ∧
    p.paused = false ∧ p.pauseCount < MAX_PAUSES_PER_PLAN ∧ q = { p with
      paused := true
      status := .paused
      pausedAtLedger := some ledger
      pausedAt := some now
      pauseCount := p.pauseCount + 1 } := by
  unfold decidePause at h
  split_ifs at h with hactive hcount
  obtain ⟨hstatus, hpaused⟩ := not_or.mp hactive
  cases hcooldown : cooldown ledger p with
  | some remaining =>
    simp only [hcooldown] at h
    cases h
  | none =>
    simp only [hcooldown] at h
    exact ⟨not_not.mp hstatus, Bool.eq_false_iff.mpr hpaused, not_le.mp hcount,
      (Decision.store.inj h).symm⟩

theorem decideResume_store (h : decideResume ledger p = .store q) : p.status = .paused ∧
    p.paused = true ∧ q = p.resumed ledger (ledger - p.pausedAtLedger.getD ledger) := by
  unfold decideResume at h
  split_ifs at h with hactive
  obtain ⟨hstatus, hpaused⟩ := not_or.mp hactive
  simp only at h
  split_ifs at h with horder
  rw [computePausedLedgers, if_neg horder] at h
  exact ⟨not_not.mp hstatus, by simpa using hpaused, (Decision.store.inj h).symm⟩

/-- Only a settlement expires a plan. -/
theorem decidePause_ne_expire : decidePause ledger now p ≠ .expire q := by
  unfold decidePause
  split_ifs
  · exact Decision.noConfusion
  · exact Decision.noConfusion
  · split <;> exact Decision.noConfusion

theorem decideResume_ne_expire : decideResume ledger p ≠ .expire q := by
  unfold decideResume
  split_ifs
  · exact Decision.noConfusion
  · simp only
    split_ifs
    · exact Decision.noConfusion
    · split <;> exact Decision.noConfusion

/-- A settlement moves the due ledger by one interval. -/
theorem InStep.settle (h : InStep created k p) (hq : decideSettle ledger p = .store q) :
    InStep created k q := by
  obtain ⟨hstatus, hpaused, hlt, rfl⟩ := decideSettle_store hq
  have hdue := h.due (by rw [hstatus]; decide)
  have hexpiry := h.expiry (by rw [hstatus]; decide)
  unfold InstallmentPaymentPlan.settled
  simp only
  split_ifs with hlast
  · refine ⟨fun hne => absurd rfl hne, fun hne => absurd rfl hne, h.closed, ?_, h.anchored_iff,
      h.anchor, hlt, h.pauses, h.interval, h.installments⟩
    exact iff_of_false (by simp) (by rw [hpaused]; decide)
  · refine ⟨fun _ => ?_, fun _ => hexpiry, h.closed, h.paused_iff, h.anchored_iff, h.anchor, hlt,
      h.pauses, h.interval, h.installments⟩
    change p.nextDueLedger + p.intervalLedgers = _
    rw [hdue, h.interval]
    ring

theorem InStep.expire (h : InStep created k p) (hq : decideSettle ledger p = .expire q) :
    InStep created k q := by
  obtain ⟨hstatus, hpaused, rfl⟩ := decideSettle_expire hq
  have hne : p.status ≠ .completed := by rw [hstatus]; decide
  refine ⟨fun _ => h.due hne, fun _ => h.expiry hne, h.closed, ?_, h.anchored_iff, h.anchor,
    h.within, h.pauses, h.interval, h.installments⟩
  exact iff_of_false (by simp) (by rw [hpaused]; decide)

theorem InStep.pause (h : InStep created k p) (hq : decidePause ledger now p = .store q) :
    InStep created (k.pause ledger) q := by
  obtain ⟨hstatus, hpaused, hcount, rfl⟩ := decidePause_store hq
  have hne : p.status ≠ .completed := by rw [hstatus]; decide
  exact ⟨fun _ => h.due hne, fun _ => h.expiry hne, h.closed, iff_of_true rfl rfl,
    iff_of_true rfl (Option.some_ne_none _), rfl, h.within, hcount, h.interval, h.installments⟩

/-- **A resume moves the due and the expiry ledger by the length of the pause.** -/
theorem InStep.resume (h : InStep created k p) (hq : decideResume ledger p = .store q) :
    InStep created (k.resume ledger) q := by
  obtain ⟨hstatus, hpaused, rfl⟩ := decideResume_store hq
  have hne : p.status ≠ .completed := by rw [hstatus]; decide
  have hdue := h.due hne
  have hexpiry := h.expiry hne
  refine ⟨fun _ => ?_, fun _ => ?_, ?_, iff_of_false (by simp [InstallmentPaymentPlan.resumed])
    (by simp [InstallmentPaymentPlan.resumed]), ?_, rfl, h.within, h.pauses, h.interval,
    h.installments⟩
  · change p.nextDueLedger + _ = created.intervalLedgers * p.currentInstallment +
      (p.totalPausedLedgers + _)
    rw [hdue, add_assoc]
  · change p.expiryLedger + _ = created.expiryLedger + (p.totalPausedLedgers + _)
    rw [hexpiry, add_assoc]
  · change p.totalPausedLedgers + _ = k.closed + (ledger - k.openedAt.getD ledger)
    rw [h.closed, h.anchor]
  · exact iff_of_false (by simp [InstallmentPaymentPlan.resumed]) fun hsome => hsome rfl

/-- **The lateness does not move**: what accrues at the resume ledger had accrued at the ledger of
the pause. -/
theorem accrual_frozen {a b : ℤ} (hpause : decidePause a now p = .store q)
    (hresume : decideResume b q = .store r) : getPenaltyAccrualState r b =
      { getPenaltyAccrualState p a with
        effectiveDueLedger := (getPenaltyAccrualState p a).effectiveDueLedger + (b - a) } := by
  obtain ⟨-, hpaused, -, rfl⟩ := decidePause_store hpause
  obtain ⟨-, -, rfl⟩ := decideResume_store hresume
  have hlate : b - (p.nextDueLedger + (b - a)) = a - p.nextDueLedger := by ring
  simp only [getPenaltyAccrualState, InstallmentPaymentPlan.resumed, Option.getD_some, hpaused,
    Bool.false_eq_true, if_false, hlate]

end Decisions

/-! ### One call alone -/

section Alone

variable {c : Call} {w w' : World} {pid : ℕ} {a : Result}

/-- What a call that runs alone comes to. -/
inductive Comes (c : Call) (w : World) : Result → World → Prop
  | refused (e : Exc) : Comes c w (.error e) w
  | created {merchant customer : Uuid} {token totalAmount : String}
      {numInstallments intervalLedgers expiryLedger : ℤ} (amounts : List String)
      (hcall : c = .createInstallmentPlan merchant customer token totalAmount numInstallments
        intervalLedgers expiryLedger) (hnum : 1 ≤ numInstallments)
      (stored : InstallmentPaymentPlan × Table InstallmentPaymentPlan)
      (hstored : w.plans.insert (newPlan merchant customer token totalAmount numInstallments
        intervalLedgers expiryLedger amounts) = stored) :
      Comes c w (.ok stored.1) { w with plans := stored.2 }
  | stored {id : Uuid} {decide : InstallmentPaymentPlan → Decision} {p q : InstallmentPaymentPlan}
      (hcall : c.target = some (id, decide)) (hrow : w.plans.row id = some p)
      (hq : decide p = .store q) : Comes c w (.ok q) { w with plans := w.plans.put q }
  | expired {id : Uuid} {decide : InstallmentPaymentPlan → Decision} {p q : InstallmentPaymentPlan}
      (hcall : c.target = some (id, decide)) (hrow : w.plans.row id = some p)
      (hq : decide p = .expire q) :
      Comes c w (.error planExpired) { w with plans := w.plans.put q }

/-- A save stores the plan or fails. -/
theorem exec_save {q : InstallmentPaymentPlan} {choice : Choice}
    {r : Except String InstallmentPaymentPlan}
    (h : exec (.save q) pid choice w = some (r, w')) :
    (w' = w ∧ ∃ e, r = .error e) ∨ (r = .ok q ∧ w' = { w with plans := w.plans.put q }) := by
  cases choice with
  | done =>
    cases h
    exact .inr ⟨rfl, rfl⟩
  | fails msg =>
    cases h
    exact .inl ⟨rfl, _, rfl⟩

theorem exec_findOne {id : Uuid} {choice : Choice}
    {r : Except String (Option InstallmentPaymentPlan)}
    (h : exec (.findOne id) pid choice w = some (r, w')) :
    w' = w ∧ ((∃ e, r = .error e) ∨ r = .ok (w.plans.row id)) := by
  cases choice with
  | done =>
    cases h
    exact ⟨rfl, .inr rfl⟩
  | fails msg =>
    cases h
    exact ⟨rfl, .inl ⟨_, rfl⟩⟩

theorem exec_insert {plan : InstallmentPaymentPlan} {choice : Choice}
    {r : Except String InstallmentPaymentPlan}
    (h : exec (.insert plan) pid choice w = some (r, w')) :
    (w' = w ∧ ∃ e, r = .error e) ∨
      (r = .ok (w.plans.insert plan).1 ∧ w' = { w with plans := (w.plans.insert plan).2 }) := by
  cases choice with
  | done =>
    cases h
    exact .inr ⟨rfl, rfl⟩
  | fails msg =>
    cases h
    exact .inl ⟨rfl, _, rfl⟩

/-- What is left of a request once it has read the plan. -/
theorem alone_perform {id : Uuid} {decide : InstallmentPaymentPlan → Decision}
    {p : InstallmentPaymentPlan} (hcall : c.target = some (id, decide))
    (hrow : w.plans.row id = some p)
    (h : Alone exec pid ((perform (decide p) ()).bind fun x => .ret x.1) w a w') :
    Comes c w a w' := by
  cases hdecide : decide p with
  | refuse e =>
    rw [hdecide] at h
    obtain ⟨rfl, rfl⟩ := alone_ret.mp h
    exact .refused e
  | store q =>
    rw [hdecide] at h
    obtain ⟨choice, r, w₁, hexec, hrest⟩ := alone_op.mp h
    obtain ⟨rfl, rfl⟩ := alone_ret.mp hrest
    rcases exec_save hexec with ⟨rfl, msg, rfl⟩ | ⟨rfl, rfl⟩
    · exact .refused (.error msg)
    · exact .stored hcall hrow hdecide
  | expire q =>
    rw [hdecide] at h
    obtain ⟨choice, r, w₁, hexec, hrest⟩ := alone_op.mp h
    rcases exec_save hexec with ⟨rfl, msg, rfl⟩ | ⟨rfl, rfl⟩
    · obtain ⟨rfl, rfl⟩ := alone_ret.mp hrest
      exact .refused (.error msg)
    · obtain ⟨rfl, rfl⟩ := alone_ret.mp hrest
      exact .expired hcall hrow hdecide

theorem alone_request {id : Uuid} {decide : InstallmentPaymentPlan → Decision}
    (hcall : c.target = some (id, decide)) (h : Alone exec pid (system.body c) w a w') :
    Comes c w a w' := by
  have hbody : system.body c = (request id decide ()).bind fun x => .ret x.1 :=
    congrArg (fun m : Service InstallmentPaymentPlan => (m ()).bind fun x => .ret x.1)
      (body_of_target hcall)
  rw [hbody] at h
  obtain ⟨choice, r, w₁, hexec, hrest⟩ := alone_op.mp h
  obtain ⟨rfl, ⟨msg, rfl⟩ | rfl⟩ := exec_findOne hexec
  · obtain ⟨rfl, rfl⟩ := alone_ret.mp hrest
    exact .refused (.error msg)
  · cases hrow : w₁.plans.row id with
    | none =>
      rw [hrow] at hrest
      obtain ⟨rfl, rfl⟩ := alone_ret.mp hrest
      exact .refused _
    | some p =>
      rw [hrow] at hrest
      exact alone_perform hcall hrow hrest

theorem alone_createInstallmentPlan {merchant customer : Uuid} {token totalAmount : String}
    {numInstallments intervalLedgers expiryLedger : ℤ}
    (h : Alone exec pid (system.body (.createInstallmentPlan merchant customer token totalAmount
      numInstallments intervalLedgers expiryLedger)) w a w') :
    Comes (.createInstallmentPlan merchant customer token totalAmount numInstallments
      intervalLedgers expiryLedger) w a w' := by
  rcases body_createInstallmentPlan merchant customer token totalAmount numInstallments
    intervalLedgers expiryLedger with ⟨e, -, hbody⟩ | ⟨hnum, total, -, hbody⟩
  · rw [hbody] at h
    obtain ⟨rfl, rfl⟩ := alone_ret.mp h
    exact .refused e
  · rw [hbody] at h
    obtain ⟨choice, r, w₁, hexec, hrest⟩ := alone_op.mp h
    obtain ⟨rfl, rfl⟩ := alone_ret.mp hrest
    rcases exec_insert hexec with ⟨rfl, msg, rfl⟩ | ⟨rfl, rfl⟩
    · exact .refused (.error msg)
    · exact .created _ rfl hnum _ rfl

/-- **What a call that runs alone comes to.** -/
theorem comes_of_alone (h : Alone exec pid (system.body c) w a w') : Comes c w a w' := by
  cases c with
  | createInstallmentPlan merchant customer token totalAmount numInstallments intervalLedgers
      expiryLedger => exact alone_createInstallmentPlan h
  | settleInstallment planId currentLedger => exact alone_request rfl h
  | pausePlan planId currentLedger now => exact alone_request rfl h
  | resumePlan planId currentLedger => exact alone_request rfl h

end Alone

/-! ### Sequential runs -/

section Runs

variable {c : Call} {w w' w₀ : World} {pid : ℕ} {a : Result} {id : Uuid}
  {p q created : InstallmentPaymentPlan} {calls : List (Call × Result)}

/-- A decision keeps the key of the plan. -/
theorem id_of_decide {decide : InstallmentPaymentPlan → Decision}
    (hcall : c.target = some (id, decide)) (h : decide p = .store q ∨ decide p = .expire q) :
    q.id = p.id := by
  cases c with
  | createInstallmentPlan => cases hcall
  | settleInstallment planId ledger =>
    cases hcall
    rcases h with h | h
    · obtain ⟨-, -, -, rfl⟩ := decideSettle_store h
      unfold InstallmentPaymentPlan.settled
      simp only
      split_ifs <;> rfl
    · obtain ⟨-, -, rfl⟩ := decideSettle_expire h
      rfl
  | pausePlan planId ledger now =>
    cases hcall
    rcases h with h | h
    · obtain ⟨-, -, -, rfl⟩ := decidePause_store h
      rfl
    · exact absurd h decidePause_ne_expire
  | resumePlan planId ledger =>
    cases hcall
    rcases h with h | h
    · obtain ⟨-, -, rfl⟩ := decideResume_store h
      rfl
    · exact absurd h decideResume_ne_expire

/-- The rows after a request has stored its plan. -/
theorem row_stored {decide : InstallmentPaymentPlan → Decision}
    (hcall : c.target = some (id, decide)) (hrow : w.plans.row id = some p)
    (h : decide p = .store q ∨ decide p = .expire q) (i : Uuid) :
    (w.plans.put q).row i = if i = id then some q else w.plans.row i := by
  have hid : q.id = id := (id_of_decide hcall h).trans (w.plans.id_of_row hrow)
  rw [Table.row_put, id_plan, hid]

/-- A refusal leaves the pauses as they are. -/
theorem pauseClock_refused (e : Exc) :
    pauseClock id ((c, .error e) :: calls) = pauseClock id calls := by
  cases c <;> rfl

/-- **One call** keeps every plan in step with its pauses. -/
theorem inStep_of_comes (h : Comes c w a w') (hrow : w.plans.row id = some p)
    (hp : InStep created (pauseClock id calls) p) :
    ∃ p', w'.plans.row id = some p' ∧ InStep created (pauseClock id ((c, a) :: calls)) p' := by
  cases h with
  | refused e =>
    rw [pauseClock_refused]
    exact ⟨p, hrow, hp⟩
  | created amounts hcall hnum stored hstored =>
    subst hcall hstored
    exact ⟨p, w.plans.row_insert_of_row _ hrow, hp⟩
  | @stored i decide p₁ q hcall hrow₁ hq =>
    have hput := row_stored hcall hrow₁ (.inl hq)
    by_cases hi : id = i
    · subst hi
      obtain rfl : p₁ = p := Option.some.inj (hrow₁.symm.trans hrow)
      refine ⟨q, (hput id).trans (if_pos rfl), ?_⟩
      cases c with
      | createInstallmentPlan => cases hcall
      | settleInstallment planId ledger =>
        cases hcall
        exact hp.settle hq
      | pausePlan planId ledger now =>
        cases hcall
        rw [pauseClock, if_pos rfl]
        exact hp.pause hq
      | resumePlan planId ledger =>
        cases hcall
        rw [pauseClock, if_pos rfl]
        exact hp.resume hq
    · refine ⟨p, (hput id).trans ((if_neg hi).trans hrow), ?_⟩
      cases c with
      | createInstallmentPlan => cases hcall
      | settleInstallment planId ledger => exact hp
      | pausePlan planId ledger now =>
        cases hcall
        rw [pauseClock, if_neg (Ne.symm hi)]
        exact hp
      | resumePlan planId ledger =>
        cases hcall
        rw [pauseClock, if_neg (Ne.symm hi)]
        exact hp
  | @expired i decide p₁ q hcall hrow₁ hq =>
    have hput := row_stored hcall hrow₁ (.inr hq)
    rw [pauseClock_refused]
    by_cases hi : id = i
    · subst hi
      obtain rfl : p₁ = p := Option.some.inj (hrow₁.symm.trans hrow)
      refine ⟨q, (hput id).trans (if_pos rfl), ?_⟩
      cases c with
      | createInstallmentPlan => cases hcall
      | settleInstallment planId ledger =>
        cases hcall
        exact hp.expire hq
      | pausePlan planId ledger now =>
        cases hcall
        exact absurd hq decidePause_ne_expire
      | resumePlan planId ledger =>
        cases hcall
        exact absurd hq decideResume_ne_expire
    · exact ⟨p, (hput id).trans ((if_neg hi).trans hrow), hp⟩

/-- A refused call can only expire a plan. -/
theorem row_of_refused {e : Exc} (h : Comes c w (.error e) w') (hrow : w.plans.row id = some p) :
    w'.plans.row id = some p ∨
      (p.status = .active ∧ w'.plans.row id = some { p with status := .expired }) := by
  cases h with
  | refused e => exact .inl hrow
  | @expired i decide p₁ q hcall hrow₁ hq =>
    have hput := row_stored hcall hrow₁ (.inr hq)
    by_cases hi : id = i
    · subst hi
      obtain rfl : p₁ = p := Option.some.inj (hrow₁.symm.trans hrow)
      cases c with
      | createInstallmentPlan => cases hcall
      | settleInstallment planId ledger =>
        cases hcall
        obtain ⟨hstatus, -, rfl⟩ := decideSettle_expire hq
        exact .inr ⟨hstatus, (hput id).trans (if_pos rfl)⟩
      | pausePlan planId ledger now =>
        cases hcall
        exact absurd hq decidePause_ne_expire
      | resumePlan planId ledger =>
        cases hcall
        exact absurd hq decideResume_ne_expire
    · exact .inl ((hput id).trans ((if_neg hi).trans hrow))

/-- A paused plan stays as it is until it is resumed. -/
theorem row_of_paused (h : Comes c w a w') (hrow : w.plans.row id = some q)
    (hpaused : q.status = .paused) (hresumes : resumes id (c, a) = false) :
    w'.plans.row id = some q := by
  cases h with
  | refused e => exact hrow
  | created amounts hcall hnum stored hstored =>
    subst hstored
    exact w.plans.row_insert_of_row _ hrow
  | @stored i decide p₁ r hcall hrow₁ hr =>
    have hput := row_stored hcall hrow₁ (.inl hr)
    by_cases hi : id = i
    · subst hi
      obtain rfl : p₁ = q := Option.some.inj (hrow₁.symm.trans hrow)
      cases c with
      | createInstallmentPlan => cases hcall
      | settleInstallment planId ledger =>
        cases hcall
        have hactive := (decideSettle_store hr).1
        rw [hpaused] at hactive
        cases hactive
      | pausePlan planId ledger now =>
        cases hcall
        have hactive := (decidePause_store hr).1
        rw [hpaused] at hactive
        cases hactive
      | resumePlan planId ledger =>
        cases hcall
        exact absurd hresumes (by simp [resumes])
    · exact (hput id).trans ((if_neg hi).trans hrow)
  | @expired i decide p₁ r hcall hrow₁ hr =>
    rcases row_of_refused (.expired hcall hrow₁ hr) hrow with hsame | ⟨hactive, -⟩
    · exact hsame
    · rw [hpaused] at hactive
      cases hactive

/-- A request that has gone through has stored what it decided. -/
theorem stored_of_comes {decide : InstallmentPaymentPlan → Decision}
    (h : Comes c w (.ok q) w') (hcall : c.target = some (id, decide))
    (hrow : w.plans.row id = some p) :
    decide p = .store q ∧ w'.plans.row id = some q := by
  cases h with
  | created amounts hcreate hnum stored hstored =>
    subst hcreate
    cases hcall
  | @stored i decide₁ p₁ _ hcall₁ hrow₁ hq =>
    obtain ⟨rfl, rfl⟩ := Prod.mk.inj (Option.some.inj (hcall₁.symm.trans hcall))
    obtain rfl : p₁ = p := Option.some.inj (hrow₁.symm.trans hrow)
    exact ⟨hq, (row_stored hcall hrow (.inl hq) i).trans (if_pos rfl)⟩

/-- What a new plan is stored as. -/
theorem inStep_of_created {merchant customer : Uuid} {token totalAmount : String}
    {numInstallments intervalLedgers expiryLedger : ℤ}
    (h : Comes (.createInstallmentPlan merchant customer token totalAmount numInstallments
      intervalLedgers expiryLedger) w (.ok created) w') :
    w'.plans.row created.id = some created ∧ InStep created {} created := by
  cases h with
  | created amounts hcall hnum stored hstored =>
    cases hcall
    subst hstored
    have hwithin : 0 ≤ numInstallments := by omega
    have hpauses : (0 : ℤ) ≤ MAX_PAUSES_PER_PLAN := by decide
    refine ⟨Table.row_put_self _ _, fun _ => ?_, fun _ => ?_, rfl, iff_of_false nofun nofun,
      iff_of_false nofun fun hne => hne rfl, rfl, hwithin, hpauses, rfl, rfl⟩
    · change (0 : ℤ) = intervalLedgers * 0 + 0
      omega
    · exact (add_zero _).symm
  | stored hcall => cases hcall

/-- **The instalment clock excludes pauses**: the lateness after a pause is the one before it, and
the due ledger that goes with it has moved by the length of the pause. -/
theorem clockExcludesPauses {merchant customer : Uuid} {token totalAmount : String}
    {numInstallments intervalLedgers expiryLedger : ℤ}
    (h : Alone exec pid (system.body (.createInstallmentPlan merchant customer token totalAmount
      numInstallments intervalLedgers expiryLedger)) w₀ (.ok created) w) :
    ClockExcludesPauses (fun d before after =>
      after = { before with effectiveDueLedger := before.effectiveDueLedger + d }) created w where
  inStep calls w' hruns _ := by
    obtain ⟨hrow, hcreated⟩ := inStep_of_created (comes_of_alone h)
    refine hruns.rule (I := fun calls w => ∃ p, w.plans.row created.id = some p ∧
      InStep created (pauseClock created.id calls) p) ⟨created, hrow, hcreated⟩ ?_
    rintro calls w₁ pid c a w₂ - ⟨p, hp, hin⟩ halone
    exact inStep_of_comes (comes_of_alone halone) hp hin
  refused calls w pid c e w' _ halone _ id p hrow := row_of_refused (comes_of_alone halone) hrow
  frozen calls w pid a now q w₁ calls' w₂ pid' b q' w₃ p _ hrow hpause hruns hnone hresume _ := by
    obtain ⟨hq, hrow₁⟩ := stored_of_comes (comes_of_alone hpause) rfl hrow
    have hpaused : q.status = .paused := by
      obtain ⟨-, -, -, rfl⟩ := decidePause_store hq
      rfl
    have hrow₂ : w₂.plans.row created.id = some q := by
      refine hruns.rule (I := fun calls w => (∀ x ∈ calls, resumes created.id x = false) →
        w.plans.row created.id = some q) (fun _ => hrow₁) ?_ hnone
      intro calls w₁ pid c a w₂ _ ih halone hnone
      exact row_of_paused (comes_of_alone halone)
        (ih fun x hx => hnone x (List.mem_cons_of_mem _ hx)) hpaused (hnone _ List.mem_cons_self)
    obtain ⟨hq', -⟩ := stored_of_comes (comes_of_alone hresume) rfl hrow₂
    exact accrual_frozen hq hq'

end Runs

/-! ### A pause -/

namespace Sample

/-- A plan of two instalments, due every ten ledgers. -/
def plan : InstallmentPaymentPlan := newPlan 1 2 "USDC" "100" 2 10 1000 ["50", "50"]

/-- The request that creates it. -/
def creation : Call := .createInstallmentPlan 1 2 "USDC" "100" 2 10 1000

/-- The plans once it is created. -/
def plans : World where
  plans := (Table.empty.insert plan).2

/-- The plan paused at ledger 5. -/
def pausedPlan : InstallmentPaymentPlan :=
  { plan with
    paused := true
    status := .paused
    pausedAtLedger := some 5
    pausedAt := some 0
    pauseCount := 1 }

theorem alone_creation : Alone exec 0 (system.body creation) {} (.ok plan) plans :=
  .op .done rfl (.ret _ _)

theorem alone_pause : Alone exec 1 (system.body (.pausePlan 0 5 0)) plans (.ok pausedPlan)
    { plans := plans.plans.put pausedPlan } :=
  .op .done rfl (.op .done rfl (.ret _ _))

theorem alone_resume : Alone exec 2 (system.body (.resumePlan 0 15))
    { plans := plans.plans.put pausedPlan } (.ok (pausedPlan.resumed 15 10))
      { plans := (plans.plans.put pausedPlan).put (pausedPlan.resumed 15 10) } :=
  .op .done rfl (.op .done rfl (.ret _ _))

end Sample

/-- A plan that has just been created. -/
theorem clockExcludesPauses_sample : ClockExcludesPauses (fun d before after =>
    after = { before with effectiveDueLedger := before.effectiveDueLedger + d })
      Sample.plan Sample.plans :=
  clockExcludesPauses Sample.alone_creation

/-- The due ledger of the penalty accrual is not the same after a pause. -/
theorem not_clockExcludesPauses : ¬ ∀ (merchant customer : Uuid) (token totalAmount : String)
    (numInstallments intervalLedgers expiryLedger : ℤ) (pid : ℕ) (w₀ w : World)
    (created : InstallmentPaymentPlan), 1 ≤ intervalLedgers →
      Alone exec pid (system.body (.createInstallmentPlan merchant customer token totalAmount
        numInstallments intervalLedgers expiryLedger)) w₀ (.ok created) w →
        ClockExcludesPauses (fun _ before after => after = before) created w := by
  intro hall
  have hclock := hall 1 2 "USDC" "100" 2 10 1000 0 {} Sample.plans Sample.plan (by decide)
    Sample.alone_creation
  have hsame := hclock.frozen [] Sample.plans 1 5 0 Sample.pausedPlan _ [] _ 2 15 _ _ Sample.plan
    .nil rfl Sample.alone_pause .nil (fun x hx => absurd hx List.not_mem_nil) Sample.alone_resume
    (by simp [LedgersAscend, Call.ledger])
  have hdue := congrArg PenaltyAccrualState.effectiveDueLedger hsame
  exact absurd hdue (by decide)

end Ahjoor.Payments
