import Ahjoor.Order.NearestRank
import Mathlib.Algebra.Order.Round
import Mathlib.Data.List.Infix

/-!
# `CongestionMonitorService`

The monitor keeps the latencies of successful requests and counts the attempts. It forgets them all
when its window has become older than two window lengths, and the older latencies when there are too
many. `getState` reports percentiles of the latencies that are left.

Latencies are rational numbers, times whole milliseconds of a clock that never goes back.
-/

namespace Ahjoor.Congestion

open NearestRank

/-! ### The monitor -/

/-- The settings of the monitor. -/
structure Config where
  /-- `CONGESTION_WINDOW_SIZE_MS` -/
  windowSizeMs : ℚ := 120000
  /-- `CONGESTION_P99_THRESHOLD_MS` -/
  p99LatencyThresholdMs : ℚ := 5000
  /-- `CONGESTION_P95_THRESHOLD_MS` -/
  p95LatencyThresholdMs : ℚ := 2000
  /-- `CONGESTION_ERROR_RATE_THRESHOLD` -/
  errorRateThresholdForCongestion : ℚ := 1 / 4
  /-- `CONGESTION_MIN_SAMPLES` -/
  minSamplesForDecision : ℚ := 10

/-- The fields of the service. -/
structure Monitor where
  latencyWindow : List ℚ := []
  windowStartTime : ℤ
  successfulAttempts : ℕ := 0
  failedAttempts : ℕ := 0

/-- What `getState` reports. -/
structure CongestionState where
  isCongestioned : Bool
  isCongestionedStrict : Bool
  p99LatencyMs : ℤ
  p95LatencyMs : ℤ
  errorRate : ℚ
  successfulAttempts : ℕ
  failedAttempts : ℕ
  totalAttempts : ℕ
  lastUpdatedAt : ℤ

/-- What the clock shows in the course of a call. -/
structure Instants where
  /-- at its start -/
  now : ℤ
  /-- after the window has been looked at: a reset and an attempt take place then -/
  after : ℤ
  /-- at its end -/
  done : ℤ
  now_le : now ≤ after
  after_le : after ≤ done

/-- `reset()`. -/
def reset (now : ℤ) : Monitor where
  windowStartTime := now

/-- The latencies that are kept: all of them, or the last `500` when there are more than `1000`. -/
def trim (latencyWindow : List ℚ) : List ℚ :=
  if 1000 < latencyWindow.length then latencyWindow.drop (latencyWindow.length - 500)
  else latencyWindow

/-- `cleanOldSamples()`. -/
def cleanOldSamples (cfg : Config) (t : Instants) (m : Monitor) : Monitor :=
  let m := { m with latencyWindow := trim m.latencyWindow }
  let windowAge := t.now - m.windowStartTime
  if cfg.windowSizeMs * 2 < windowAge then reset t.after else m

/-- `recordSuccess(latencyMs)`. -/
def recordSuccess (cfg : Config) (t : Instants) (latencyMs : ℚ) (m : Monitor) : Monitor :=
  let m := cleanOldSamples cfg t m
  { m with
    latencyWindow := m.latencyWindow ++ [latencyMs]
    successfulAttempts := m.successfulAttempts + 1 }

/-- `recordFailure()`. -/
def recordFailure (cfg : Config) (t : Instants) (m : Monitor) : Monitor :=
  let m := cleanOldSamples cfg t m
  { m with failedAttempts := m.failedAttempts + 1 }

/-- `sorted[Math.max(0, Math.ceil(q * len) - 1)]`. -/
def ranked (q : ℚ) (latencyWindow : List ℚ) : ℚ :=
  let sorted := latencyWindow.insertionSort (· ≤ ·)
  sorted.getD (place q sorted.length) 0

/-- What `calculatePercentiles` returns. -/
structure Percentiles where
  p95 : ℚ
  p99 : ℚ

/-- `calculatePercentiles()`. -/
def calculatePercentiles (latencyWindow : List ℚ) : Percentiles :=
  if latencyWindow.length = 0 then ⟨0, 0⟩
  else ⟨ranked (95 / 100) latencyWindow, ranked (99 / 100) latencyWindow⟩

/-- `getState()` after the old samples have been cleaned. -/
def report (cfg : Config) (done : ℤ) (m : Monitor) : CongestionState :=
  let totalAttempts := m.successfulAttempts + m.failedAttempts
  let errorRate : ℚ := if 0 < totalAttempts then m.failedAttempts / totalAttempts else 0
  let { p95, p99 } := calculatePercentiles m.latencyWindow
  let hasSufficientSamples := cfg.minSamplesForDecision ≤ totalAttempts
  let isHighLatency := cfg.p99LatencyThresholdMs ≤ p99
  let isNotAnOutage := errorRate ≤ cfg.errorRateThresholdForCongestion
  let isHighLatencyStrict := cfg.p95LatencyThresholdMs ≤ p95 ∧ cfg.p99LatencyThresholdMs ≤ p99
  { isCongestioned := hasSufficientSamples ∧ isHighLatency ∧ isNotAnOutage
    isCongestionedStrict := hasSufficientSamples ∧ isHighLatencyStrict ∧ isNotAnOutage
    -- a half is rounded up
    p99LatencyMs := round p99
    p95LatencyMs := round p95
    errorRate := round (errorRate * 10000) / 10000
    successfulAttempts := m.successfulAttempts
    failedAttempts := m.failedAttempts
    totalAttempts
    lastUpdatedAt := done }

/-- `getState()`. -/
def getState (cfg : Config) (t : Instants) (m : Monitor) : CongestionState × Monitor :=
  let m := cleanOldSamples cfg t m
  (report cfg t.done m, m)

/-! ### Runs -/

/-- The calls of the monitor. -/
inductive Call
  | recordSuccess (latencyMs : ℚ)
  | recordFailure
  | getState
  | reset

/-- The monitor after a call. -/
def Call.apply (cfg : Config) (t : Instants) (m : Monitor) : Call → Monitor
  | recordSuccess latencyMs => Congestion.recordSuccess cfg t latencyMs m
  | recordFailure => Congestion.recordFailure cfg t m
  | getState => (Congestion.getState cfg t m).2
  | reset => Congestion.reset t.after

/-- **A run**: the calls with their instants, newest first, what the clock shows at the end, and the
monitor. -/
inductive Run (cfg : Config) : List (Instants × Call) → ℤ → Monitor → Prop
  | start (now : ℤ) : Run cfg [] now (reset now)
  | call {es : List (Instants × Call)} {clock : ℤ} {m : Monitor} (h : Run cfg es clock m)
      (t : Instants) (ht : clock ≤ t.now) (call : Call) :
      Run cfg ((t, call) :: es) t.done (call.apply cfg t m)

/-- An attempt that has been recorded. -/
structure Attempt where
  recordedAt : ℤ
  /-- of a request that succeeded -/
  latencyMs : Option ℚ

/-- The attempt that a call records. -/
def Call.attempt (t : Instants) : Call → Option Attempt
  | recordSuccess latencyMs => some ⟨t.after, some latencyMs⟩
  | recordFailure => some ⟨t.after, none⟩
  | getState | reset => none

/-- The attempts of a run, newest first. -/
def attempts (es : List (Instants × Call)) : List Attempt := es.filterMap fun e => e.2.attempt e.1

/-- The latencies among attempts. -/
def latencies (as : List Attempt) : List ℚ := as.filterMap (·.latencyMs)

end Ahjoor.Congestion
