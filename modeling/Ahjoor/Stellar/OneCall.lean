import Ahjoor.Stellar.BalanceMonitorService
import Ahjoor.Stellar.OpenCircuit

/-!
# A check of the monitor and the circuit breaker

A check of an account calls the breaker inside a call of the breaker. To the breaker it is one call
around `loadAccount` if the check is refused at once, if the account is read through both calls, and
if the call inside a probe is refused for an account that could not have been read. Otherwise the
two differ: a read that fails counts twice, and a probe does not close the circuit, since the call
inside it comes too soon after it.
-/

namespace Ahjoor.BalanceMonitor

open CircuitBreaker

variable {T ε : Type}

/-! ### What is claimed -/

/-- The check changes the failures and the state of the breaker as one call around `loadAccount`
does. -/
def OneCall (cfg : Config) (accountId : String) (check : Check) : Prop :=
  (check.run cfg accountId).2.failures =
      (loadAccount cfg.breaker check.outer check.loaded check.state).2.failures ∧
    (check.run cfg accountId).2.isOpen =
      (loadAccount cfg.breaker check.outer check.loaded check.state).2.isOpen

/-- The breaker refuses a call that starts at these instants. -/
def refuses (cfg : CircuitBreaker.Config) (times : Instants) (state : CircuitState) : Bool :=
  state.isOpen && (decide (times.startTime - state.lastFailureAt.getD 0 <
    getAdaptiveTimeout cfg times.report) || !shouldAttemptRecoveryProbe cfg state times.startTime)

/-- The breaker after a call has been admitted: a probe leaves its mark. -/
def admitted (times : Instants) (state : CircuitState) : CircuitState :=
  if state.isOpen then { state with lastHalfOpenProbeAt := some times.startTime } else state

/-- `loadAccount` fails. -/
def Check.fails (check : Check) : Bool := !check.loaded.isOk

/-- `loadAccount` returns an account with its balances. -/
def Check.reads (check : Check) : Bool :=
  match check.loaded with
  | .ok account => account.balances.isSome
  | .error _ => false

/-- Where the check is one call: it is refused; or the call inside it is refused, and `loadAccount`
would fail; or neither is, and the account is read. -/
def Check.plain (cfg : Config) (check : Check) : Bool :=
  refuses cfg.breaker check.outer check.state ||
    if refuses cfg.breaker check.inner (admitted check.outer check.state) then check.fails else check.reads

/-! ### One call of the breaker -/

section Execute

variable {cfg : CircuitBreaker.Config} {times : Instants} {state : CircuitState}

theorem admission_of_refuses (h : refuses cfg times state = true) :
    ∃ e, admission cfg times.report times.startTime state = .error e := by
  have hor := Bool.and_eq_true_iff.mp h
  rw [admission, if_pos hor.1]
  simp only
  split_ifs with hsoon hprobe
  · exact ⟨_, rfl⟩
  · exact ⟨_, rfl⟩
  · simp [hsoon, hprobe] at hor

theorem admission_of_not_refuses (h : refuses cfg times state = false) :
    admission cfg times.report times.startTime state = .ok (admitted times state) := by
  rw [admission, admitted]
  by_cases hopen : state.isOpen = true
  · simp only [refuses, hopen, Bool.true_and, Bool.or_eq_false_iff, decide_eq_false_iff_not] at h
    rw [if_pos hopen, if_pos hopen]
    simp only
    rw [if_neg h.1, h.2]
    rfl
  · rw [if_neg hopen, if_neg hopen]

theorem failures_admitted (times : Instants) (state : CircuitState) :
    (admitted times state).failures = state.failures := by
  rw [admitted]
  split <;> rfl

theorem isOpen_admitted (times : Instants) (state : CircuitState) :
    (admitted times state).isOpen = state.isOpen := by
  rw [admitted]
  split <;> rfl

variable {fn : CircuitState → Except (Failure ε) T × CircuitState}

variable (fn) in
/-- A call that is refused leaves the breaker alone. -/
theorem execute_refused (h : refuses cfg times state = true) :
    ∃ e, execute cfg times fn state = (.error (.unavailable e), state) := by
  obtain ⟨e, he⟩ := admission_of_refuses h
  exact ⟨e, by rw [execute, he]⟩

/-- A call that succeeds resets the breaker. -/
theorem execute_ok (h : refuses cfg times state = false) {r : T} {after : CircuitState}
    (hfn : fn (admitted times state) = (.ok r, after)) :
    execute cfg times fn state = (.ok r, onSuccess) := by
  rw [execute, admission_of_not_refuses h]
  simp only [hfn]

/-- A call that throws counts as a failure. -/
theorem execute_error (h : refuses cfg times state = false) {e : Failure ε} {after : CircuitState}
    (hfn : fn (admitted times state) = (.error e, after)) :
    execute cfg times fn state = (.error e, onFailure cfg times.endTime after) := by
  rw [execute, admission_of_not_refuses h]
  simp only [hfn]

theorem isOpen_onFailure {now : ℤ} (h : state.isOpen = true) :
    (onFailure cfg now state).isOpen = true := by
  simp only [onFailure, h, ite_self]

end Execute

/-! ### What a check does to the breaker -/

section Checks

variable {cfg : Config} {accountId : String} {check : Check} {times : Instants}
  {loaded : Except String Account} {state : CircuitState}

theorem loadAccount_ok (h : refuses cfg.breaker times state = false) (account : Account) :
    loadAccount cfg.breaker times (.ok account) state = (.ok account, onSuccess) :=
  execute_ok h rfl

theorem loadAccount_error (h : refuses cfg.breaker times state = false) (e : String) :
    loadAccount cfg.breaker times (.error e) state =
      (.error (.thrown e), onFailure cfg.breaker times.endTime (admitted times state)) :=
  execute_error h rfl

variable (loaded) in
theorem loadAccount_refused (h : refuses cfg.breaker times state = true) :
    ∃ e, loadAccount cfg.breaker times loaded state = (.error (.unavailable e), state) :=
  execute_refused _ h

/-- A check that is refused leaves the breaker alone, as one call does. -/
theorem run_refused (h : refuses cfg.breaker check.outer check.state = true) :
    (check.run cfg accountId).2 = check.state := by
  obtain ⟨e, he⟩ := execute_refused (checkAccountBalance cfg accountId check.inner check.loaded) h
  rw [Check.run, he]

/-- A check whose inner call is refused counts as one failure. -/
theorem run_inner_refused (h : refuses cfg.breaker check.outer check.state = false)
    (h' : refuses cfg.breaker check.inner (admitted check.outer check.state) = true) :
    (check.run cfg accountId).2 =
      onFailure cfg.breaker check.outer.endTime (admitted check.outer check.state) := by
  obtain ⟨e, he⟩ := loadAccount_refused check.loaded h'
  rw [Check.run, execute_error h (by rw [checkAccountBalance, he])]

/-- A check that has read the account resets the breaker, unless its balances are missing. -/
theorem run_loaded (h : refuses cfg.breaker check.outer check.state = false)
    (h' : refuses cfg.breaker check.inner (admitted check.outer check.state) = false)
    {account : Account} (hloaded : check.loaded = .ok account) :
    (check.run cfg accountId).2 =
      if account.balances.isSome then onSuccess
      else onFailure cfg.breaker check.outer.endTime onSuccess := by
  have hread : checkAccountBalance cfg accountId check.inner check.loaded
      (admitted check.outer check.state) =
        (result cfg accountId check.inner.endTime account, onSuccess) := by
    rw [checkAccountBalance, hloaded, loadAccount_ok h']
  cases hbalances : account.balances with
  | none => rw [Check.run, execute_error h (hread.trans (by rw [result, hbalances]))]; rfl
  | some balances => rw [Check.run, execute_ok h (hread.trans (by rw [result, hbalances]))]; rfl

/-- A check whose read fails counts as two failures. -/
theorem run_failed (h : refuses cfg.breaker check.outer check.state = false)
    (h' : refuses cfg.breaker check.inner (admitted check.outer check.state) = false)
    {e : String} (hloaded : check.loaded = .error e) :
    (check.run cfg accountId).2.failures = check.state.failures + 2 := by
  have hread : checkAccountBalance cfg accountId check.inner check.loaded
      (admitted check.outer check.state) = (.error (.thrown e), onFailure cfg.breaker
        check.inner.endTime (admitted check.inner (admitted check.outer check.state))) := by
    rw [checkAccountBalance, hloaded, loadAccount_error h']
  rw [Check.run, execute_error h hread]
  simp only [onFailure, failures_admitted]
  omega

/-! ### When a check is one call -/

/-- **A check is one call to the breaker** exactly where it is plain. -/
theorem oneCall_iff (cfg : Config) (accountId : String) (check : Check) :
    OneCall cfg accountId check ↔ check.plain cfg = true := by
  rw [OneCall, Check.plain, Bool.or_eq_true_iff]
  by_cases h : refuses cfg.breaker check.outer check.state = true
  · obtain ⟨e, he⟩ := loadAccount_refused check.loaded h
    rw [run_refused h, he]
    simp [h]
  rw [Bool.not_eq_true] at h
  rw [or_iff_right (by rw [h]; decide)]
  by_cases h' : refuses cfg.breaker check.inner (admitted check.outer check.state) = true
  · -- only a probe is refused after it has been admitted
    have hopen : check.state.isOpen = true := by
      rw [refuses, isOpen_admitted, Bool.and_eq_true_iff] at h'
      exact h'.1
    rw [if_pos h', run_inner_refused h h']
    cases hloaded : check.loaded with
    | ok account =>
      rw [loadAccount_ok h, isOpen_onFailure (by rw [isOpen_admitted, hopen])]
      simp [Check.fails, hloaded, onSuccess, Except.isOk, Except.toBool]
    | error e =>
      rw [loadAccount_error h]
      simp [Check.fails, hloaded, onFailure, Except.isOk, Except.toBool]
  · rw [Bool.not_eq_true] at h'
    rw [if_neg (by rw [h']; decide)]
    cases hloaded : check.loaded with
    | ok account =>
      rw [run_loaded h h' hloaded, loadAccount_ok h]
      cases hbalances : account.balances with
      | none => simp [Check.reads, hloaded, hbalances, onSuccess, onFailure]
      | some balances => simp [Check.reads, hloaded, hbalances]
    | error e =>
      rw [run_failed h h' hloaded, loadAccount_error h]
      simp [Check.reads, hloaded, onFailure, failures_admitted]

end Checks

namespace Sample

/-- A read that fails while the circuit is closed. -/
def failingRead : Check where
  outer := ⟨0, ⟨false, 0⟩, 20⟩
  inner := ⟨0, ⟨false, 0⟩, 20⟩
  loaded := .error "timeout"

end Sample

/-- A read that fails counts twice. -/
theorem not_oneCall : ¬ ∀ cfg accountId check, OneCall cfg accountId check := by
  intro h
  have hfailures := (h {} "G" Sample.failingRead).1
  revert hfailures
  decide +kernel

end Ahjoor.BalanceMonitor
