import Ahjoor.Bullmq.Queue

/-!
# What happens to a queue

The moves that producers, workers and the queue's own timers make on a queue, one at a time,
and what becomes of the job under one id. `ready_apply` says when a move leaves a job of the
given name that can still run, and `ready_run` says the same of any sequence of moves: either
such a job was there and nothing ended it, or some move **gave** the id one which nothing
ended afterwards.
-/

namespace Bullmq

variable {δ : Type}

/-- A move on a queue. -/
inductive Move (δ : Type)
  | add (id : ℕ) (job : Job δ)
  | take (worker id : ℕ)
  | finish (worker id : ℕ) (success : Bool)
  | stall (id : ℕ)
  | expire (id : ℕ)
  | retry (id : ℕ)
  deriving DecidableEq, Repr

namespace JobState

@[simp] theorem live_waiting : waiting.live = true := rfl
@[simp] theorem live_delayed : delayed.live = true := rfl
@[simp] theorem live_active (worker : ℕ) : (active worker).live = true := rfl
@[simp] theorem live_completed : completed.live = false := rfl
@[simp] theorem live_failed : failed.live = false := rfl

end JobState

namespace Queue

/-- `job.retry()`: a failed job goes back to waiting. -/
def retry (q : Queue δ) (id : ℕ) : Queue δ :=
  match q id with
  | some job =>
      if job.state = .failed then Function.update q id (some { job with state := .waiting }) else q
  | none => q

/-- The queue after a move. -/
def apply (q : Queue δ) : Move δ → Queue δ
  | .add id job => q.add id job
  | .take worker id => ((q.take worker id).map Prod.snd).getD q
  | .finish worker id success => q.finish worker id success
  | .stall id => q.stall id
  | .expire id => q.expire id
  | .retry id => q.retry id

/-- The queue after some moves. -/
def run (q : Queue δ) (moves : List (Move δ)) : Queue δ := moves.foldl apply q

theorem run_cons (q : Queue δ) (m : Move δ) (ms : List (Move δ)) :
    q.run (m :: ms) = (q.apply m).run ms := rfl

theorem run_append (q : Queue δ) (ms ms' : List (Move δ)) :
    q.run (ms ++ ms') = (q.run ms).run ms' := List.foldl_append

/-- A job of this name is there under the id and **can still run**. -/
def ready (name : String) (id : ℕ) (q : Queue δ) : Bool :=
  (q id).any fun job => job.name = name && job.state.live

/-- The id is **taken**, by a finished job or by one of another name. -/
def blocked (name : String) (id : ℕ) (q : Queue δ) : Bool :=
  (q id).any fun job => !(decide (job.name = name) && job.state.live)

/-- The move ends the job under the id for good: it succeeds, its attempts are used up, or it has
stalled too often. -/
def ends (id : ℕ) (q : Queue δ) : Move δ → Bool
  | .finish worker i success => i = id && (q id).any fun job =>
      job.state = .active worker && (success || decide (job.opts.attempts ≤ job.attemptsMade + 1))
  | .stall i => i = id && (q id).any fun job => maxStalledCount < job.stalledCounter + 1 &&
      match job.state with
      | .active _ => true
      | _ => false
  | _ => false

/-- The move gives the id a job of this name that can run: it adds one while the id is not taken, or
puts a failed one back. -/
def gives (name : String) (id : ℕ) (q : Queue δ) : Move δ → Bool
  | .add i job => i = id && job.name = name && job.state.live && !q.blocked name id
  | .retry i => i = id && (q id).any fun job => job.name = name && job.state = .failed
  | _ => false

/-- None of the moves ends the job under the id. -/
def lasts (id : ℕ) : Queue δ → List (Move δ) → Bool
  | _, [] => true
  | q, m :: ms => !q.ends id m && lasts id (q.apply m) ms

/-- One of the moves gives the id a job, and none of the later ones ends it. -/
def given (name : String) (id : ℕ) : Queue δ → List (Move δ) → Bool
  | _, [] => false
  | q, m :: ms => (q.gives name id m && lasts id (q.apply m) ms) || given name id (q.apply m) ms

/-! ### One move -/

/-- The id a move is about. -/
def target : Move δ → ℕ
  | .add id _ | .take _ id | .finish _ id _ | .stall id | .expire id | .retry id => id

@[simp] theorem target_add (id : ℕ) (job : Job δ) : target (.add id job) = id := rfl

/-- What a move makes of the job under its id. -/
def slot : Move δ → Option (Job δ) → Option (Job δ)
  | .add _ job, o => some (o.getD job)
  | .take worker _, o => o.map fun job =>
      match job.state with
      | .waiting | .delayed => { job with state := .active worker }
      | _ => job
  | .finish worker _ success, o => o.bind fun job =>
      if job.state = .active worker then
        if success then some { job with state := .completed } else failAttempt job
      else some job
  | .stall _, o => o.map fun job =>
      match job.state with
      | .active _ =>
          let job' := { job with stalledCounter := job.stalledCounter + 1 }
          if job'.stalledCounter ≤ maxStalledCount then { job' with state := .waiting }
          else { job' with state := .failed }
      | _ => job
  | .expire _, o => o.filter fun job => job.state ≠ .completed
  | .retry _, o => o.map fun job =>
      if job.state = .failed then { job with state := .waiting } else job

/-- A move changes one id only. -/
theorem apply_eq (q : Queue δ) (m : Move δ) :
    q.apply m = Function.update q (target m) (slot m (q (target m))) := by
  cases m with
  | add id job =>
    cases h : q id with
    | none => simp [apply, add, target, slot, h]
    | some j => simp [apply, add, target, slot, h]
  | take worker id =>
    cases h : q id with
    | none => simp [apply, take, target, slot, h]
    | some j => cases hstate : j.state <;> simp [apply, take, target, slot, h, hstate]
  | finish worker id success =>
    cases h : q id with
    | none => simp [apply, finish, target, slot, h]
    | some j => by_cases hstate : j.state = .active worker <;>
        simp [apply, finish, target, slot, h, hstate]
  | stall id =>
    cases h : q id with
    | none => simp [apply, stall, target, slot, h]
    | some j => cases hstate : j.state <;> simp [apply, stall, target, slot, h, hstate]
  | expire id =>
    cases h : q id with
    | none => simp [apply, expire, target, slot, h]
    | some j => by_cases hstate : j.state = .completed <;>
        simp [apply, expire, target, slot, h, hstate, Option.filter]
  | retry id =>
    cases h : q id with
    | none => simp [apply, retry, target, slot, h]
    | some j => by_cases hstate : j.state = .failed <;>
        simp [apply, retry, target, slot, h, hstate]

/-- A move leaves the other ids alone. -/
theorem apply_of_ne (q : Queue δ) {m : Move δ} {i : ℕ} (h : i ≠ target m) : q.apply m i = q i := by
  rw [apply_eq, Function.update_of_ne h]

theorem ends_of_ne (q : Queue δ) {m : Move δ} {i : ℕ} (h : i ≠ target m) :
    q.ends i m = false := by
  cases m <;> simp_all [ends, target, eq_comm]

theorem gives_of_ne (q : Queue δ) {name : String} {m : Move δ} {i : ℕ} (h : i ≠ target m) :
    q.gives name i m = false := by
  cases m <;> simp_all [gives, target, eq_comm]

/-- An attempt that has thrown leaves a job that can run while attempts are left. -/
theorem any_failAttempt (name : String) (job : Job δ) :
    ((failAttempt job).any fun j => j.name = name && j.state.live) =
      (decide (job.name = name) && !decide (job.opts.attempts ≤ job.attemptsMade + 1)) := by
  by_cases hleft : job.attemptsMade + 1 < job.opts.attempts
  · have hused : ¬ job.opts.attempts ≤ job.attemptsMade + 1 := Nat.not_le.mpr hleft
    simp [failAttempt, hleft, hused]
  · have hused : job.opts.attempts ≤ job.attemptsMade + 1 := Nat.not_lt.mp hleft
    cases hremove : job.opts.removeOnFail <;>
      simp [failAttempt, hleft, hused, hremove]

/-- **What one move leaves** under an id: a job that can run was there and has not been ended, or the
move has given one. -/
theorem ready_apply (name : String) (id : ℕ) (q : Queue δ) (m : Move δ) :
    (q.apply m).ready name id = (q.ready name id && !q.ends id m || q.gives name id m) := by
  rcases eq_or_ne id (target m) with htarget | htarget
  rotate_left
  · rw [ready, apply_of_ne q htarget, ends_of_ne q htarget, gives_of_ne q htarget, ready]
    simp
  rw [ready, apply_eq, htarget, Function.update_self, ready]
  cases h : q (target m) with
  | none => cases m <;> simp_all [slot, ends, gives, blocked, target]
  | some j =>
    cases m with
    | add i job =>
      by_cases hname : j.name = name <;> by_cases hlive : j.state.live = true <;>
        simp_all [slot, ends, gives, blocked, target]
    | finish worker i success =>
      by_cases hstate : j.state = .active worker <;> cases success <;>
        simp_all [slot, ends, gives, target, any_failAttempt]
    | stall i =>
      cases hstate : j.state with
      | active worker =>
        by_cases hleft : j.stalledCounter + 1 ≤ maxStalledCount
        · have hnot : ¬ maxStalledCount < j.stalledCounter + 1 := Nat.not_lt.mpr hleft
          simp_all [slot, ends, gives, target]
        · have hover : maxStalledCount < j.stalledCounter + 1 := Nat.not_le.mp hleft
          have hid : q i = some j := h
          simp only [slot, ends, gives, target, hid, hstate, Option.map_some, Option.any_some,
            if_neg hleft, JobState.live_failed, decide_eq_true hover, decide_true, Bool.and_false,
            Bool.and_true, Bool.not_true, Bool.or_false]
      | _ => simp_all [slot, ends, gives, target]
    | _ => cases hstate : j.state <;> simp_all [slot, ends, gives, target]

/-! ### Any number of moves -/

/-- **What any moves leave** under an id: a job that could run was there and lasted, or one was given
and lasted. -/
theorem ready_run (name : String) (id : ℕ) (q : Queue δ) (ms : List (Move δ)) :
    (q.run ms).ready name id = (q.ready name id && lasts id q ms || given name id q ms) := by
  induction ms generalizing q with
  | nil => simp [run, lasts, given]
  | cons m ms ih =>
    rw [run_cons, ih, ready_apply, lasts, given]
    cases q.ready name id <;> cases q.ends id m <;> cases q.gives name id m <;>
      cases lasts id (q.apply m) ms <;> simp

section Additions

variable {name : String} {id : ℕ} {q : Queue δ}

/-- Adding a job that can run takes no id. -/
theorem blocked_add {i : ℕ} {job : Job δ} (hname : job.name = name) (hlive : job.state.live = true) :
    (q.add i job).blocked name id = q.blocked name id := by
  rcases eq_or_ne id i with rfl | hid
  · cases hjob : q id with
    | none => simp [blocked, add_self, hjob, hname, hlive]
    | some j => simp [blocked, add_self, hjob]
  · rw [blocked, add_of_ne q job hid, blocked]

/-- **Additions of jobs that can run** leave one under an id unless the id is taken: one was there,
or one has been added. -/
theorem ready_additions {ms : List (Move δ)} (h : ∀ m ∈ ms, ∃ i job, m = .add i job ∧
    job.name = name ∧ job.state.live = true) :
    (q.run ms).ready name id =
      (q.ready name id || !q.blocked name id && ms.any fun m => target m = id) := by
  induction ms generalizing q with
  | nil => simp [run]
  | cons m ms ih =>
    obtain ⟨i, job, rfl, hname, hlive⟩ := h m List.mem_cons_self
    have hends : q.ends id (.add i job) = false := rfl
    have hgives : q.gives name id (.add i job) = (decide (i = id) && !q.blocked name id) := by
      simp [gives, hname, hlive]
    rw [run_cons, ih fun m hm => h m (List.mem_cons_of_mem _ hm), ready_apply, hends, hgives,
      apply, blocked_add hname hlive, List.any_cons]
    cases q.ready name id <;> cases q.blocked name id <;> simp
    rfl

end Additions

end Queue

end Bullmq
