import Ahjoor.Double.Rounding

/-!
# When a round is late

Two jobs derive the deadline of a round from the same columns. `RoundAdvanceService` takes
`roundDuration` for seconds, as the request that creates a group does, and adds the configured
grace period; `GroupStatusService` takes it for days and knows no grace.

Instants are whole milliseconds, and the grace period is whatever number of hours is configured. The
arithmetic is that of doubles: **every operation is rounded**. With columns of a stored group only the
grace period makes a difference, which need not be a whole number of milliseconds. A sum that overflows
is beyond every instant.
-/

namespace Ahjoor.Scheduler

/-- The columns of a group from which its deadline is computed. -/
structure Timing where
  updatedAt : ℤ
  roundDuration : ℤ
  deriving DecidableEq, Repr

/-- The greatest instant of a `Date`. -/
def lastInstant : ℤ := 8640000000000000

/-- **The columns of a stored group**: an instant since the epoch, and an `int`. -/
structure Timing.Stored (group : Timing) : Prop where
  sinceEpoch : 0 ≤ group.updatedAt
  isInstant : group.updatedAt ≤ lastInstant
  isInt : |group.roundDuration| ≤ 2 ^ 31

section Source

open Double

variable (group : Timing) (now : ℤ) (gracePeriodHours : ℚ)

/-- `gracePeriodHours * 3600 * 1000`. -/
def graceMs : ℚ := nearest (nearest (gracePeriodHours * 3600) * 1000)

/-- `deadlineMs` of `isDeadlinePassed`. -/
def deadlineMs : ℚ :=
  nearest (nearest (group.updatedAt + nearest (group.roundDuration * 1000)) + graceMs gracePeriodHours)

/-- `RoundAdvanceService.isDeadlinePassed(group, now, gracePeriodHours)`. -/
def isDeadlinePassed : Bool := deadlineMs group gracePeriodHours ≤ now

/-- `deadlineMs` of `advanceStalledRounds`. -/
def stalledMs : ℚ := nearest (nearest (nearest (nearest (group.roundDuration * 24) * 60) * 60) * 1000)

/-- The condition under which `GroupStatusService.advanceStalledRounds` tries to advance. -/
def isStalled : Bool :=
  let elapsed := nearest (now - group.updatedAt)
  stalledMs group ≤ elapsed

/-- The two jobs agree at every instant since the epoch on whether the round is late. -/
def SameDeadline : Prop :=
  ∀ now, 0 ≤ now → now ≤ lastInstant →
    (isStalled group now = true ↔ isDeadlinePassed group now gracePeriodHours = true)

end Source

variable {group : Timing} {now : ℤ} {gracePeriodHours : ℚ}

/-! ### What is rounded -/

/-- Before the grace period is added nothing is rounded. -/
theorem deadlineMs_of_stored (h : group.Stored) : deadlineMs group gracePeriodHours =
    Double.nearest (group.updatedAt + 1000 * group.roundDuration + graceMs gracePeriodHours) := by
  obtain ⟨hsince, huntil, hint⟩ := h
  rw [lastInstant] at huntil
  obtain ⟨hlow, hhigh⟩ := abs_le.mp hint
  have hduration : Double.nearest (group.roundDuration * 1000) = (group.roundDuration * 1000 : ℤ) := by
    rw [← Double.nearest_intCast (n := group.roundDuration * 1000) (abs_le.mpr (by omega))]
    push_cast
    rfl
  have hsum : Double.nearest (group.updatedAt + (group.roundDuration * 1000 : ℤ)) =
      (group.updatedAt + group.roundDuration * 1000 : ℤ) := by
    rw [← Double.nearest_intCast (n := group.updatedAt + group.roundDuration * 1000)
      (abs_le.mpr (by omega))]
    push_cast
    rfl
  rw [deadlineMs, hduration, hsum]
  push_cast
  rw [mul_comm (1000 : ℚ)]

/-- The days are converted without rounding: their milliseconds are a multiple of 1024. -/
theorem stalledMs_of_stored (h : group.Stored) : stalledMs group = (86400000 * group.roundDuration : ℤ) := by
  obtain ⟨hlow, hhigh⟩ := abs_le.mp h.isInt
  have hexact : ∀ {k : ℤ}, |k| ≤ 2 ^ 53 → Double.nearest k = k := Double.nearest_intCast
  have hhours := hexact (k := 24 * group.roundDuration) (abs_le.mpr (by omega))
  have hminutes := hexact (k := 1440 * group.roundDuration) (abs_le.mpr (by omega))
  have hseconds := hexact (k := 86400 * group.roundDuration) (abs_le.mpr (by omega))
  have hms : Double.IsDouble (86400000 * group.roundDuration : ℤ) :=
    ⟨84375 * group.roundDuration, 10, abs_le.mpr (by omega), by decide, by push_cast; ring⟩
  have hlast := Double.nearest_of_isDouble hms
  push_cast at hhours hminutes hseconds hlast ⊢
  rw [stalledMs, mul_comm _ (24 : ℚ), hhours, mul_right_comm, show (24 * 60 : ℚ) = 1440 by norm_num,
    hminutes, mul_right_comm, show (1440 * 60 : ℚ) = 86400 by norm_num, hseconds, mul_right_comm,
    show (86400 * 1000 : ℚ) = 86400000 by norm_num, hlast]

theorem isStalled_iff (h : group.Stored) (hsince : 0 ≤ now) (huntil : now ≤ lastInstant) :
    isStalled group now = true ↔ group.updatedAt + 86400000 * group.roundDuration ≤ now := by
  have helapsed : Double.nearest (now - group.updatedAt) = (now - group.updatedAt : ℤ) := by
    have hfirst := h.sinceEpoch
    have hlast := h.isInstant
    rw [lastInstant] at hlast huntil
    rw [← Double.nearest_intCast (n := now - group.updatedAt) (abs_le.mpr (by omega))]
    push_cast
    rfl
  rw [isStalled, decide_eq_true_iff, stalledMs_of_stored h, helapsed, Int.cast_le]
  constructor <;> intro h <;> omega

theorem isDeadlinePassed_iff : isDeadlinePassed group now gracePeriodHours = true ↔
    ⌈deadlineMs group gracePeriodHours⌉ ≤ now := by
  rw [isDeadlinePassed, decide_eq_true_iff, Int.ceil_le]

/-- The deadline of a row that is stored later is not earlier. -/
theorem deadlineMs_mono {group' : Timing} (hle : group.updatedAt ≤ group'.updatedAt)
    (hsame : group.roundDuration = group'.roundDuration) :
    deadlineMs group gracePeriodHours ≤ deadlineMs group' gracePeriodHours := by
  rw [deadlineMs, deadlineMs, hsame]
  have hcast : (group.updatedAt : ℚ) ≤ group'.updatedAt := Int.cast_le.mpr hle
  exact Double.nearest_mono (by gcongr; exact Double.nearest_mono (by gcongr))

/-! ### When they agree -/

/-- The first instant since the epoch that is not before `t`; the one after the last, if there is
none. -/
def firstInstant (t : ℤ) : ℤ := max 0 (min t (lastInstant + 1))

/-- **The jobs agree on lateness** exactly when the rounded sum of the start, the duration in seconds
and the grace period is reached at the instant at which the duration in days is over. -/
theorem sameDeadline_iff (h : group.Stored) : SameDeadline group gracePeriodHours ↔
    firstInstant ⌈Double.nearest
        (group.updatedAt + 1000 * group.roundDuration + graceMs gracePeriodHours)⌉ =
      firstInstant (group.updatedAt + 86400000 * group.roundDuration) := by
  rw [← deadlineMs_of_stored h]
  have hstalled : ∀ now, 0 ≤ now → now ≤ lastInstant → _ := fun _ => isStalled_iff h
  constructor
  · intro hsame
    -- each job finds the round late at the first instant at which it is so for the other
    have hagree : ∀ now, 0 ≤ now → now ≤ lastInstant →
        (group.updatedAt + 86400000 * group.roundDuration ≤ now ↔
          ⌈deadlineMs group gracePeriodHours⌉ ≤ now) := fun now hsince huntil => by
      rw [← isStalled_iff h hsince huntil, hsame now hsince huntil, isDeadlinePassed_iff]
    have hdays := hagree (max 0 (group.updatedAt + 86400000 * group.roundDuration)) (le_max_left _ _)
    have hsum := hagree (max 0 ⌈deadlineMs group gracePeriodHours⌉) (le_max_left _ _)
    unfold firstInstant
    omega
  · intro hfirst now hsince huntil
    rw [isStalled_iff h hsince huntil, isDeadlinePassed_iff]
    unfold firstInstant at hfirst
    omega

namespace Sample

/-- Rounds of 30 days, as the request has them. -/
def month : Timing where
  updatedAt := 0
  roundDuration := 2592000

/-- Rounds of an hour in seconds, or of 3600 days. -/
def hour : Timing where
  updatedAt := 1000
  roundDuration := 3600

theorem stored_hour : hour.Stored := ⟨by decide, by decide, by decide⟩

end Sample

/-- A grace period that makes up for the unit of the duration. -/
theorem sameDeadline_sample : SameDeadline Sample.hour 86399 :=
  (sameDeadline_iff Sample.stored_hour).mpr (by decide +kernel)

/-- A round that has lasted for 30 days and no grace period: only one of the jobs finds it late. -/
theorem not_sameDeadline : ¬ SameDeadline Sample.month 0 := by
  intro h
  have hlate : isDeadlinePassed Sample.month 2592000000 0 = true := by decide +kernel
  have hopen : isStalled Sample.month 2592000000 = false := by decide +kernel
  exact absurd ((h 2592000000 (by decide) (by decide)).mpr hlate) (by rw [hopen]; decide)

end Ahjoor.Scheduler
