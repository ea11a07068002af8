import Mathlib.Logic.Function.Basic
import Mathlib.Data.Nat.Notation

/-!
# Job queues

A queue of jobs under their job ids, as the queue library documents it. Adding a job whose id
is already present in any of the sets (waiting, delayed, active, completed, failed) adds
nothing. A worker takes a job, which is then active under that worker's lock; it finishes the
job with success or with an error, and an error is retried until the attempts are used up. An
active job whose worker has died is *stalled*: it goes back to waiting once, and fails the
second time. Finished jobs are kept or removed as their options say.

The library is not part of the repository, so this module is an account of its rules, and
names nothing of the repository.
-/

namespace Bullmq

/-- How the delay before a retry grows. -/
inductive Backoff
  | custom
  | exponential (delay : ℕ)
  deriving DecidableEq, Repr

/-- How many completed jobs are kept, and for how many seconds. -/
structure Retention where
  count : ℕ
  age : ℕ
  deriving DecidableEq, Repr

/-- The options a job is added with. -/
structure JobsOptions where
  attempts : ℕ
  backoff : Backoff
  removeOnComplete : Retention
  removeOnFail : Bool
  jobId : Option ℕ := none
  deriving DecidableEq, Repr

/-- Where a job is; an active job is locked by a worker. -/
inductive JobState
  | waiting
  | delayed
  | active (worker : ℕ)
  | completed
  | failed
  deriving DecidableEq, Repr

/-- The job can still run. -/
def JobState.live : JobState → Bool
  | waiting | delayed | active _ => true
  | completed | failed => false

/-- A job with data of type `δ`. -/
structure Job (δ : Type) where
  name : String
  data : δ
  opts : JobsOptions
  attemptsMade : ℕ := 0
  stalledCounter : ℕ := 0
  state : JobState := .waiting
  deriving DecidableEq, Repr

/-- Jobs under their ids. -/
abbrev Queue (δ : Type) := ℕ → Option (Job δ)

/-- How often a job may stall before it fails. -/
def maxStalledCount : ℕ := 1

namespace Queue

variable {δ : Type}

/-- `queue.add(name, data, opts)` with a job id. -/
def add (q : Queue δ) (id : ℕ) (job : Job δ) : Queue δ :=
  match q id with
  | some _ => q
  | none => Function.update q id (some job)

/-- The worker takes a job that waits, or whose delay is over. -/
def take (q : Queue δ) (worker id : ℕ) : Option (Job δ × Queue δ) :=
  match q id with
  | some job =>
      match job.state with
      | .waiting | .delayed =>
          let job' := { job with state := .active worker }
          some (job', Function.update q id (some job'))
      | _ => none
  | none => none

/-- The state after an attempt of a job has thrown. -/
def failAttempt (job : Job δ) : Option (Job δ) :=
  let job' := { job with attemptsMade := job.attemptsMade + 1 }
  if job'.attemptsMade < job.opts.attempts then some { job' with state := .delayed }
  else if job.opts.removeOnFail then none
  else some { job' with state := .failed }

/-- The worker reports an attempt's outcome; without its lock the report is refused. -/
def finish (q : Queue δ) (worker id : ℕ) (success : Bool) : Queue δ :=
  match q id with
  | some job =>
      if job.state = .active worker then
        Function.update q id <|
          if success then some { job with state := .completed } else failAttempt job
      else q
  | none => q

/-- An active job is found without a living worker. -/
def stall (q : Queue δ) (id : ℕ) : Queue δ :=
  match q id with
  | some job =>
      match job.state with
      | .active _ =>
          let job' := { job with stalledCounter := job.stalledCounter + 1 }
          Function.update q id <| some <|
            if job'.stalledCounter ≤ maxStalledCount then { job' with state := .waiting }
            else { job' with state := .failed }
      | _ => q
  | none => q

/-- A completed job is dropped once its retention is over. -/
def expire (q : Queue δ) (id : ℕ) : Queue δ :=
  match q id with
  | some job => if job.state = .completed then Function.update q id none else q
  | none => q

/-- Some job with this id can still run. -/
def Live (q : Queue δ) (id : ℕ) : Prop := ∃ job, q id = some job ∧ job.state.live = true

/-- A finished job is kept under this id. -/
def Finished (q : Queue δ) (id : ℕ) : Prop := ∃ job, q id = some job ∧ job.state.live = false

instance (q : Queue δ) (id : ℕ) : Decidable (q.Live id) :=
  decidable_of_iff ((q id).any fun job => job.state.live) <| by
    cases h : q id <;> simp [Live, h]

instance (q : Queue δ) (id : ℕ) : Decidable (q.Finished id) :=
  decidable_of_iff ((q id).any fun job => !job.state.live) <| by
    cases h : q id <;> simp [Finished, h]

/-! ### What each operation does to one id -/

theorem add_of_ne (q : Queue δ) {id i : ℕ} (job : Job δ) (h : i ≠ id) : q.add id job i = q i := by
  cases hid : q id with
  | some j => simp only [add, hid]
  | none => simp only [add, hid, Function.update_of_ne h]

theorem add_self (q : Queue δ) (id : ℕ) (job : Job δ) :
    q.add id job id = some ((q id).getD job) := by
  cases hid : q id with
  | some j => simp only [add, hid, Option.getD_some]
  | none => simp only [add, hid, Function.update_self, Option.getD_none]

/-- **Adding leaves a job that can run**, unless a finished one holds the id. -/
theorem live_add {q : Queue δ} {id : ℕ} {job : Job δ} (hjob : job.state.live = true)
    (hq : ¬ q.Finished id) : (q.add id job).Live id := by
  rw [Live, add_self]
  refine ⟨_, rfl, ?_⟩
  cases hid : q id with
  | none => exact hjob
  | some j =>
    by_contra hlive
    exact hq ⟨j, hid, by simpa using hlive⟩

end Queue

end Bullmq
