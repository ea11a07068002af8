import Ahjoor.Bullmq.PoisonMessageDetectorService

/-!
# The verdicts on a failure

A failure is judged in three places: `recordFailure` reports it, `getAllPoisonCandidates` lists it
and `persist` stores it. The judgement they should share, `Poisoned`, speaks only of what has
happened to the job: its last failures, as many as the threshold says, have one signature, no two of
them in a row lie further apart than a signature lives, and the job has not been cleared in between.

`verdicts_agree`: they agree along every run in which the threshold is the 3 that `persist` has
written into it, and no job fails as before when its entry has gone stale, which `recordFailure` does
not look at. Otherwise they do not: with a threshold of 2, `persist` stores as `PENDING` what
`recordFailure` has reported as poison (`not_agree_two`).
-/

namespace Ahjoor.Poison

open Json Store

/-! ### `JobFailureService.persist` -/

/-- `JobFailureStatus`. -/
inductive JobFailureStatus
  | pending
  | retrying
  | resolved
  | poison
  deriving DecidableEq, Repr

/-- `JobFailure`, as far as `persist` fills it. -/
structure JobFailure where
  jobId : String
  jobName : String
  queueName : String
  error : String
  stackTrace : Option String
  attemptNumber : ℕ
  data : Option Value
  status : JobFailureStatus
  isPoison : Bool
  consecutiveFailures : ℕ
  failureSignature : Option String
  errorClass : String

/-- The row that `persist(jobId, jobName, queueName, error, attemptNumber, data)` saves. -/
def persist (cfg : Config) (now : ℤ) (jobId jobName queueName : String) (error : JobError)
    (attemptNumber : ℕ) (data : Option Value) (tracker : Tracker) : JobFailure × Tracker :=
  let (poisonStatus, tracker) := getPoisonStatus cfg now jobId tracker
  let isPoison := match poisonStatus with
    | some entry => decide (3 ≤ entry.consecutiveFailures)
    | none => false
  ({ jobId, jobName, queueName, attemptNumber, data, isPoison
     error := error.message
     stackTrace := error.stack
     status := bif isPoison then .poison else .pending
     consecutiveFailures := (poisonStatus.map (·.consecutiveFailures)).getD 1
     failureSignature := poisonStatus.map (·.signature)
     errorClass := (poisonStatus.map (·.errorClass)).getD error.errorClass }, tracker)

/-! ### What has happened to a job -/

/-- The failures of a job since it was cleared last, newest first: when it failed, and with which
signature. -/
def failuresOf (sha256 : String → String) (jobId : String) : List (ℤ × Call) → List (ℤ × String)
  | [] => []
  | (now, .recordFailure job error) :: es =>
      if job.jobId = jobId then
        (now, computeSignature sha256 error.errorClass job.data) :: failuresOf sha256 jobId es
      else failuresOf sha256 jobId es
  | (_, .clearJob id) :: es => if id = jobId then [] else failuresOf sha256 jobId es
  | (_, .getPoisonStatus _) :: es => failuresOf sha256 jobId es
  | (_, .getAllPoisonCandidates) :: es => failuresOf sha256 jobId es

/-- A failure continues the one before it. -/
def Continues (cfg : Config) (newer older : ℤ × String) : Prop :=
  newer.2 = older.2 ∧ newer.1 - older.1 ≤ cfg.signatureTtlMs

instance (cfg : Config) (newer older : ℤ × String) : Decidable (Continues cfg newer older) :=
  inferInstanceAs (Decidable (_ ∧ _))

/-- **The verdict**: the last failures, as many as the threshold says, each continue the one before. -/
def Poisoned (cfg : Config) (failures : List (ℤ × String)) : Prop :=
  cfg.poisonThreshold ≤ failures.length ∧
    (failures.take cfg.poisonThreshold).IsChain (Continues cfg)

/-- How many of the last failures continue each other. -/
def streak (cfg : Config) : List (ℤ × String) → ℕ
  | [] => 0
  | [_] => 1
  | newer :: older :: failures =>
      if Continues cfg newer older then streak cfg (older :: failures) + 1 else 1

theorem one_le_streak (cfg : Config) (failure : ℤ × String) (failures : List (ℤ × String)) :
    1 ≤ streak cfg (failure :: failures) := by
  cases failures with
  | nil => exact le_rfl
  | cons older failures =>
    rw [streak]
    split
    · exact Nat.le_add_left 1 _
    · exact le_rfl

/-- The streak reaches as far as the failures continue each other. -/
theorem le_streak_iff {cfg : Config} {n : ℕ} {failures : List (ℤ × String)} :
    n + 1 ≤ streak cfg failures ↔
      n + 1 ≤ failures.length ∧ (failures.take (n + 1)).IsChain (Continues cfg) := by
  induction failures generalizing n with
  | nil => simp [streak]
  | cons newer failures ih =>
    cases n with
    | zero => simpa using one_le_streak cfg newer failures
    | succ n =>
      cases failures with
      | nil => simp [streak]
      | cons older failures =>
        rw [List.take_succ_cons, List.take_succ_cons, List.isChain_cons_cons, ← List.take_succ_cons,
          List.length_cons, Nat.succ_le_succ_iff, streak]
        by_cases h : Continues cfg newer older
        · rw [if_pos h, Nat.succ_le_succ_iff, ih]
          simp only [h, true_and]
        · rw [if_neg h]
          simp only [h, false_and, and_false, iff_false]
          omega

theorem poisoned_iff {cfg : Config} (h : 1 ≤ cfg.poisonThreshold) {failures : List (ℤ × String)} :
    Poisoned cfg failures ↔ cfg.poisonThreshold ≤ streak cfg failures := by
  rw [Poisoned, ← Nat.sub_add_cancel h]
  exact le_streak_iff.symm

/-! ### The verdicts -/

section

variable (sha256 : String → String) (cfg : Config)

/-- **The three verdicts agree with the one they should share** on a failure that is recorded `now`,
after the calls `es`: it is reported, it is listed and it is stored as poison, as long as its
signature lives, exactly when it is. -/
structure Agree (es : List (ℤ × Call)) (now : ℤ) (job : Job) (error : JobError) (before : Tracker) :
    Prop where
  reported : (recordFailure sha256 cfg now job error before).1.isPoison = true ↔
    Poisoned cfg (failuresOf sha256 job.jobId ((now, .recordFailure job error) :: es))
  listed : ∀ later, now ≤ later → later ≤ now + cfg.signatureTtlMs →
    (job.jobId ∈ (getAllPoisonCandidates cfg later
        (recordFailure sha256 cfg now job error before).2).1.map Prod.fst ↔
      Poisoned cfg (failuresOf sha256 job.jobId ((now, .recordFailure job error) :: es)))
  stored : ∀ later jobName queueName attemptNumber data, now ≤ later →
    later ≤ now + cfg.signatureTtlMs →
    ((persist cfg later job.jobId jobName queueName error attemptNumber data
        (recordFailure sha256 cfg now job error before).2).1.status = .poison ↔
      Poisoned cfg (failuresOf sha256 job.jobId ((now, .recordFailure job error) :: es)))

/-- **When a failure keeps clear of the differences**: the threshold is that of `persist`, the
tracked entry has another signature or is not stale, and a job that is not tracked finds room. -/
def Clear (tracker : Tracker) (now : ℤ) : Call → Prop
  | .recordFailure job error =>
      cfg.poisonThreshold = 3 ∧
      (∀ e ∈ tracker.get job.jobId,
        e.signature = computeSignature sha256 error.errorClass job.data → ¬e.isStale cfg now) ∧
      (tracker.get job.jobId = none → tracker.size < cfg.maxTrackerEntries)
  | _ => True

instance (tracker : Tracker) (now : ℤ) : DecidablePred (Clear sha256 cfg tracker now)
  | .recordFailure _ _ => inferInstanceAs (Decidable (_ ∧ _ ∧ _))
  | .getPoisonStatus _ | .getAllPoisonCandidates | .clearJob _ => .isTrue trivial

end

section

variable {sha256 : String → String} {cfg : Config} {now : ℤ} {es : List (ℤ × Call)}
  {tracker : Tracker} {jobId : String} {e : FailureSignature}

theorem isStale_iff : e.isStale cfg now ↔ (cfg.signatureTtlMs : ℤ) < now - e.lastSeenAt :=
  decide_eq_true_iff

/-- **What the tracker knows of a job**: its last failure and the streak, or nothing when there is no
failure, or when the last one is too long ago for another to continue it. -/
def Knows (cfg : Config) (failures : List (ℤ × String)) (es : List (ℤ × Call)) :
    Option FailureSignature → Prop
  | some e => ∃ older, failures = (e.lastSeenAt, e.signature) :: older ∧
      e.consecutiveFailures = streak cfg failures
  | none => ∀ newest ∈ failures.head?, ∃ event ∈ es, (cfg.signatureTtlMs : ℤ) < event.1 - newest.1

/-- What is known stays known when other things happen. -/
theorem Knows.cons {failures : List (ℤ × String)} {entry : Option FailureSignature}
    (h : Knows cfg failures es entry) (event : ℤ × Call) :
    Knows cfg failures (event :: es) entry := by
  cases entry with
  | some e => exact h
  | none =>
    intro newest hnewest
    obtain ⟨event', hevent, hlong⟩ := h newest hnewest
    exact ⟨event', List.mem_cons_of_mem _ hevent, hlong⟩

/-- An entry that has gone stale may be forgotten. -/
theorem Knows.forget {failures : List (ℤ × String)} (h : Knows cfg failures es (some e))
    (hstale : e.isStale cfg now) (call : Call) : Knows cfg failures ((now, call) :: es) none := by
  obtain ⟨older, rfl, -⟩ := h
  intro newest hnewest
  obtain rfl : (e.lastSeenAt, e.signature) = newest := by simpa using hnewest
  exact ⟨(now, call), List.mem_cons_self, isStale_iff.mp hstale⟩

/-- A failure that is not known to continue another starts a streak. -/
theorem streak_of_none {failures : List (ℤ × String)} {signature : String}
    (h : Knows cfg failures es none) (hnow : ∀ event ∈ es, event.1 ≤ now) :
    streak cfg ((now, signature) :: failures) = 1 := by
  cases failures with
  | nil => rfl
  | cons older failures =>
    obtain ⟨event, hevent, hlong⟩ := h older rfl
    have hgap : ¬Continues cfg (now, signature) older := fun hcontinues => by
      have hle := hnow event hevent
      have := hcontinues.2
      omega
    rw [streak, if_neg hgap]

/-- A failure with another signature starts a streak. -/
theorem streak_of_ne {failures : List (ℤ × String)} {signature : String}
    (h : Knows cfg failures es (some e)) (hne : e.signature ≠ signature) :
    streak cfg ((now, signature) :: failures) = 1 := by
  obtain ⟨older, rfl, -⟩ := h
  rw [streak, if_neg fun hcontinues => hne hcontinues.1.symm]

/-- A failure as before, soon enough, continues the streak. -/
theorem streak_of_eq {failures : List (ℤ × String)} (h : Knows cfg failures es (some e))
    (hfresh : ¬e.isStale cfg now) :
    streak cfg ((now, e.signature) :: failures) = e.consecutiveFailures + 1 := by
  obtain ⟨older, rfl, hcount⟩ := h
  rw [isStale_iff, not_lt] at hfresh
  rw [streak, if_pos ⟨rfl, hfresh⟩, hcount]

/-- **What `recordFailure` counts is the streak.** The entry it leaves and the result it returns have
the same count. -/
theorem recordFailure_counts {failures : List (ℤ × String)} {job : Job} {error : JobError}
    (h : Knows cfg failures es (tracker.get job.jobId)) (hnow : ∀ event ∈ es, event.1 ≤ now)
    (hok : Clear sha256 cfg tracker now (.recordFailure job error)) :
    ∃ e, (recordFailure sha256 cfg now job error tracker).2 = tracker.set job.jobId e ∧
      e.signature = computeSignature sha256 error.errorClass job.data ∧ e.lastSeenAt = now ∧
      e.consecutiveFailures = streak cfg ((now, e.signature) :: failures) ∧
      ((recordFailure sha256 cfg now job error tracker).1.isPoison = true ↔
        3 ≤ e.consecutiveFailures) := by
  obtain ⟨hthree, hfresh, hroom⟩ := hok
  cases hget : tracker.get job.jobId with
  | none =>
    rw [hget] at h
    have hlimit : ∀ value, enforceTrackerLimit cfg (tracker.set job.jobId value) =
        tracker.set job.jobId value := fun value => by
      refine if_pos ?_
      rw [OrderedMap.size, OrderedMap.entries_set_of_none hget, List.length_append]
      exact hroom hget
    rw [recordFailure_of_none hget, hlimit]
    exact ⟨_, rfl, rfl, rfl, (streak_of_none h hnow).symm, by simp [firstResult, firstFailure]⟩
  | some existing =>
    rw [hget] at h
    by_cases hsame : existing.signature = computeSignature sha256 error.errorClass job.data
    · rw [recordFailure_of_eq hget hsame]
      exact ⟨_, rfl, hsame, rfl, (streak_of_eq h (hfresh existing hget hsame)).symm,
        by simp [hthree]⟩
    · rw [recordFailure_of_ne hget hsame]
      exact ⟨_, rfl, rfl, rfl, (streak_of_ne h hsame).symm, by simp [firstResult, firstFailure]⟩

/-- **What is known of every job stays true** from call to call. -/
theorem Knows.step (hnow : ∀ event ∈ es, event.1 ≤ now) {call : Call}
    (hok : Clear sha256 cfg tracker now call)
    (h : ∀ jobId, Knows cfg (failuresOf sha256 jobId es) es (tracker.get jobId)) (jobId : String) :
    Knows cfg (failuresOf sha256 jobId ((now, call) :: es)) ((now, call) :: es)
      ((call.track sha256 cfg now tracker).get jobId) := by
  cases call with
  | recordFailure job error =>
    obtain ⟨e, hset, hsignature, hlast, hcount, -⟩ := recordFailure_counts (h job.jobId) hnow hok
    rw [Call.track, hset, OrderedMap.get_set, failuresOf]
    by_cases hjob : job.jobId = jobId
    · subst hjob
      rw [if_pos rfl, if_pos rfl, ← hsignature, ← hlast]
      rw [← hlast] at hcount
      exact ⟨_, rfl, hcount⟩
    · rw [if_neg hjob, if_neg fun heq => hjob heq.symm]
      exact (h jobId).cons _
  | getPoisonStatus id =>
    rw [Call.track, getPoisonStatus, failuresOf]
    split
    · exact (h jobId).cons _
    next entry hentry =>
      split
      next hstale =>
        rw [OrderedMap.get_delete]
        split
        next heq =>
          subst heq
          have hknows := h jobId
          rw [hentry] at hknows
          exact hknows.forget hstale _
        next => exact (h jobId).cons _
      next => exact (h jobId).cons _
  | getAllPoisonCandidates =>
    change Knows _ _ _ ((cleanupStaleEntries cfg now tracker).get jobId)
    rw [cleanupStaleEntries, OrderedMap.get_filter, failuresOf]
    have hknows := h jobId
    cases hget : tracker.get jobId with
    | none =>
      rw [hget] at hknows
      exact hknows.cons _
    | some entry =>
      rw [hget] at hknows
      by_cases hstale : entry.isStale cfg now
      · rw [Option.filter_some, if_neg (by simpa using hstale)]
        exact hknows.forget hstale _
      · rw [Option.filter_some, if_pos (by simpa using hstale)]
        exact hknows.cons _
  | clearJob id =>
    rw [Call.track, clearJob, OrderedMap.get_delete, failuresOf]
    by_cases hid : id = jobId
    · subst hid
      rw [if_pos rfl, if_pos rfl]
      intro newest hnewest
      cases hnewest
    · rw [if_neg hid, if_neg fun heq => hid heq.symm]
      exact (h jobId).cons _

/-- The tracker knows every job, along every run that keeps clear of the differences. -/
theorem knows_of_run (h : RunWhen sha256 cfg (Clear sha256 cfg) es tracker) (jobId : String) :
    Knows cfg (failuresOf sha256 jobId es) es (tracker.get jobId) := by
  induction h generalizing jobId with
  | nil =>
    intro newest hnewest
    cases hnewest
  | cons _ hnow hok ih => exact Knows.step hnow hok ih jobId

/-- A tracked entry that is not stale is listed by its count. -/
theorem mem_getAllPoisonCandidates (hget : tracker.get jobId = some e) (hfresh : ¬e.isStale cfg now) :
    jobId ∈ (getAllPoisonCandidates cfg now tracker).1.map Prod.fst ↔
      cfg.poisonThreshold ≤ e.consecutiveFailures := by
  have hentries : ∀ e', (jobId, e') ∈ tracker.entries ↔ e' = e := fun e' => by
    rw [← OrderedMap.get_eq_some, hget, Option.some.injEq, eq_comm]
  simp only [getAllPoisonCandidates, cleanupStaleEntries, OrderedMap.filter, List.mem_map,
    List.mem_filter, Prod.exists, exists_and_right, exists_eq_right, hentries, decide_eq_true_eq]
  constructor
  · rintro ⟨e', ⟨rfl, -⟩, hcount⟩
    exact hcount
  · exact fun hcount => ⟨e, ⟨rfl, by simpa using hfresh⟩, hcount⟩

/-- A tracked entry that is not stale is stored by its count. -/
theorem status_persist (hget : tracker.get jobId = some e) (hfresh : ¬e.isStale cfg now)
    (jobName queueName : String) (error : JobError) (attemptNumber : ℕ) (data : Option Value) :
    (persist cfg now jobId jobName queueName error attemptNumber data tracker).1.status = .poison ↔
      3 ≤ e.consecutiveFailures := by
  simp only [persist, getPoisonStatus, hget, if_neg hfresh]
  by_cases hcount : 3 ≤ e.consecutiveFailures <;> simp [hcount]

/-- **The verdicts agree** along every run that keeps clear of the differences. -/
theorem verdicts_agree (hrun : RunWhen sha256 cfg (Clear sha256 cfg) es tracker)
    (hnow : ∀ event ∈ es, event.1 ≤ now) {job : Job} {error : JobError}
    (hok : Clear sha256 cfg tracker now (.recordFailure job error)) :
    Agree sha256 cfg es now job error tracker := by
  have hthree : cfg.poisonThreshold = 3 := hok.1
  obtain ⟨e, hset, hsignature, hlast, hcount, hreported⟩ :=
    recordFailure_counts (knows_of_run hrun job.jobId) hnow hok
  have hverdict : Poisoned cfg (failuresOf sha256 job.jobId ((now, .recordFailure job error) :: es)) ↔
      3 ≤ e.consecutiveFailures := by
    rw [poisoned_iff (hthree ▸ by decide), failuresOf, if_pos rfl, hcount, hsignature, hthree]
  have hfresh : ∀ later, later ≤ now + cfg.signatureTtlMs → ¬e.isStale cfg later := by
    intro later hlater
    rw [isStale_iff, hlast]
    omega
  refine ⟨hreported.trans hverdict.symm, fun later _ hlater => ?_,
    fun later jobName queueName attemptNumber data _ hlater => ?_⟩
  · rw [hverdict, hset, mem_getAllPoisonCandidates OrderedMap.get_set_self (hfresh later hlater),
      hthree]
  · rw [hverdict, hset]
    exact status_persist OrderedMap.get_set_self (hfresh later hlater) _ _ _ _ _

end

/-- The third failure as before is poison to all. -/
theorem verdicts_agree_third :
    let job : Job := ⟨some "7", .null⟩
    let error : JobError := ⟨some "TypeError", "", none⟩
    let failure := Call.recordFailure job error
    Agree id {} [(20, failure), (10, failure)] 30 job error
      (failure.track id {} 20 (failure.track id {} 10 .empty)) :=
  verdicts_agree
    (.cons (.cons .nil (by simp) (by decide +kernel)) (by simp) (by decide +kernel))
    (by simp) (by decide +kernel)

/-- **They do not agree otherwise.** The threshold is 2 and a job fails twice as before: the failure is
reported as poison, which it is, and stored as `PENDING`. -/
theorem not_agree_two :
    let cfg : Config := { poisonThreshold := 2 }
    let job : Job := ⟨some "7", .null⟩
    let error : JobError := ⟨some "TypeError", "", none⟩
    let failure := Call.recordFailure job error
    let before := failure.track id cfg 10 .empty
    let after := recordFailure id cfg 20 job error before
    Run id cfg [(10, failure)] before ∧ after.1.isPoison = true ∧
      (persist cfg 20 "7" "send-email" "email" error 2 none after.2).1.status = .pending ∧
      ¬Agree id cfg [(10, failure)] 20 job error before := by
  intro cfg job error failure before after
  have hpending : (persist cfg 20 "7" "send-email" "email" error 2 none after.2).1.status =
      .pending := by decide +kernel
  have hreported : after.1.isPoison = true := by decide +kernel
  refine ⟨.cons .nil 10 failure, hreported, hpending, fun h => ?_⟩
  have hstored := (h.stored 20 "send-email" "email" 2 none le_rfl (by decide)).mpr
    (h.reported.mp hreported)
  exact absurd (hpending.symm.trans hstored) (by decide)

end Ahjoor.Poison
