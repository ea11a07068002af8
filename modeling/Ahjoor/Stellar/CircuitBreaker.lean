import Ahjoor.Async.Discipline
import Mathlib.Algebra.Order.Field.Rat

/-!
# `StellarCircuitBreakerService`

A call of `execute` takes place in two stretches: it looks at the breaker and starts `fn`, and it
records how `fn` has ended. Any number of calls may be between the two. Each stretch takes place at
one instant of a clock that never goes back; what the congestion monitor reports and how `fn` ends
is up to the environment.

Times are in milliseconds.
-/

namespace Ahjoor.CircuitBreaker

open Async

/-- What the breaker reads of the monitor's report. -/
structure CongestionState where
  isCongestioned : Bool
  errorRate : ℚ
  deriving DecidableEq

/-- The settings of the breaker. -/
structure Config where
  /-- `STELLAR_CIRCUIT_BREAKER_THRESHOLD` -/
  threshold : ℤ := 5
  /-- `STELLAR_CIRCUIT_BREAKER_TIMEOUT`, in seconds -/
  timeout : ℕ := 60
  minHalfOpenProbeIntervalMs : ℤ := 5000

/-- `baseTimeoutMs`. -/
def Config.baseTimeoutMs (cfg : Config) : ℤ := cfg.timeout * 1000

/-- `CircuitState`. -/
structure CircuitState where
  failures : ℤ := 0
  lastFailureAt : Option ℤ := none
  isOpen : Bool := false
  lastHalfOpenProbeAt : Option ℤ := none
  deriving DecidableEq

/-! ### Looking at the breaker -/

/-- `isLikelyOutage()`. -/
def isLikelyOutage (report : CongestionState) : Bool := 1 / 2 < report.errorRate

/-- The monitor reports congestion and no outage. -/
def CongestionState.isSlowOnly (report : CongestionState) : Bool :=
  report.isCongestioned && !isLikelyOutage report

/-- `getAdaptiveTimeout()`. -/
def getAdaptiveTimeout (cfg : Config) (report : CongestionState) : ℤ :=
  if report.isSlowOnly then cfg.baseTimeoutMs / 2 else cfg.baseTimeoutMs

/-- `shouldAttemptRecoveryProbe()`. -/
def shouldAttemptRecoveryProbe (cfg : Config) (state : CircuitState) (now : ℤ) : Bool :=
  cfg.minHalfOpenProbeIntervalMs ≤ now - state.lastHalfOpenProbeAt.getD 0

/-- `getNextProbeDelayMs()`. -/
def getNextProbeDelayMs (cfg : Config) (state : CircuitState) (now : ℤ) : ℤ :=
  max 0 (cfg.minHalfOpenProbeIntervalMs - (now - state.lastHalfOpenProbeAt.getD 0))

/-- `Math.ceil(ms / 1000)`. -/
def ceilSeconds (ms : ℤ) : ℤ := (ms + 999) / 1000

/-- `ServiceUnavailableException`. -/
structure ServiceUnavailable where
  error : String
  retryAfter : ℤ
  deriving DecidableEq

/-- The part of `execute` before `fn` is called. -/
def admission (cfg : Config) (report : CongestionState) (now : ℤ) (state : CircuitState) :
    Except ServiceUnavailable CircuitState :=
  if state.isOpen then
    let elapsed := now - state.lastFailureAt.getD 0
    let timeoutMs := getAdaptiveTimeout cfg report
    if elapsed < timeoutMs then
      .error ⟨"Stellar network unavailable", ceilSeconds (timeoutMs - elapsed)⟩
    else if !shouldAttemptRecoveryProbe cfg state now then
      .error ⟨"Stellar network unavailable (probe rate-limited)",
        ceilSeconds (getNextProbeDelayMs cfg state now)⟩
    else .ok { state with lastHalfOpenProbeAt := some now }
  else .ok state

/-! ### Recording how `fn` has ended -/

/-- `onSuccess()`. -/
def onSuccess : CircuitState := {}

/-- `onFailure()`. -/
def onFailure (cfg : Config) (now : ℤ) (state : CircuitState) : CircuitState where
  failures := state.failures + 1
  lastFailureAt := some now
  lastHalfOpenProbeAt := if state.isOpen then some now else state.lastHalfOpenProbeAt
  isOpen := if cfg.threshold ≤ state.failures + 1 then true else state.isOpen

/-! ### The system -/

variable {T ε : Type}

/-- The breaker and the clock. -/
structure World where
  state : CircuitState := {}
  clock : ℤ

/-- The stretches of a call. -/
inductive Op
  /-- up to the call of `fn` -/
  | enter
  /-- from the end of `fn` on -/
  | settle (startTime : ℤ)

/-- A call that has looked at the breaker. -/
inductive Entered
  | refused (e : ServiceUnavailable)
  | started (startTime : ℤ)
  deriving DecidableEq

/-- How `fn` has ended, and when. -/
structure Settled (T ε : Type) where
  endTime : ℤ
  outcome : Except ε T

/-- What a stretch returns. -/
abbrev Op.Ret (T ε : Type) : Op → Type
  | enter => Entered
  | settle _ => Settled T ε

/-- The instant of a stretch, what the monitor reports then, and how `fn` has ended. -/
structure Choice (T ε : Type) where
  now : ℤ
  report : CongestionState
  outcome : Except ε T

/-- What a stretch does. -/
def exec (cfg : Config) : (o : Op) → ℕ → Choice T ε → World → Option (o.Ret T ε × World)
  | .enter, _, choice, w =>
      if choice.now < w.clock then none
      else
        match admission cfg choice.report choice.now w.state with
        | .error e => some (.refused e, { w with clock := choice.now })
        | .ok state => some (.started choice.now, ⟨state, choice.now⟩)
  | .settle _, _, choice, w =>
      if choice.now < w.clock then none
      else
        match choice.outcome with
        | .ok t => some (⟨choice.now, .ok t⟩, ⟨onSuccess, choice.now⟩)
        | .error e => some (⟨choice.now, .error e⟩, ⟨onFailure cfg choice.now w.state, choice.now⟩)

/-- Why a call has failed. -/
inductive Failure (ε : Type)
  | unavailable (e : ServiceUnavailable)
  | thrown (e : ε)

/-- `execute(fn)`. -/
def execute : Prog (Op.Ret T ε) (Except (Failure ε) T) :=
  .op .enter fun entered =>
    match entered with
    | .refused e => .ret (.error (.unavailable e))
    | .started startTime => .op (.settle startTime) fun settled =>
        .ret (settled.outcome.mapError .thrown)

/-- Calls of `execute`. -/
def system (T ε : Type) (cfg : Config) :
    System (Op.Ret T ε) (Choice T ε) World Unit (Except (Failure ε) T) where
  exec := exec cfg
  body _ := execute

/-- The events of a run. -/
abbrev Trace (T ε : Type) := List (Event (Op.Ret T ε) World Unit (Except (Failure ε) T))

/-- The state of a run. -/
abbrev RunState (T ε : Type) := State (Op.Ret T ε) World Unit (Except (Failure ε) T)

end Ahjoor.CircuitBreaker
