import Ahjoor.Bullmq.PoisonMessageDetectorService

/-!
# The tracker is bounded

`bounded_of_run`: whatever is called, the tracker holds no more than the configured number of
entries afterwards; **an entry goes only when it is cleared, has gone stale or is evicted**, an
eviction takes the entries that were seen first, and the failure that has just been recorded is in
the tracker, unless the clock has gone back.

Two of the branches that write an entry do not enforce the limit. They replace an entry, so nothing
is added. The new entry is safe because it is the last one inserted and no entry was seen later: the
sort is stable, so it comes last, and what is evicted comes before it. On a clock that has gone back
the new entry may be the oldest, and is evicted at once (`not_recorded`).
-/

namespace Ahjoor.Poison

open Store

variable {sha256 : String → String} {cfg : Config} {now : ℤ} {es : List (ℤ × Call)}
  {tracker : Tracker} {k : String} {e : FailureSignature}

/-! ### What may go -/

/-- Why an entry goes in a call. -/
inductive Dropped (cfg : Config) (now : ℤ) (before after : Tracker) (jobId : String)
    (e : FailureSignature) : Call → Prop
  /-- The job is cleared. -/
  | cleared : Dropped cfg now before after jobId e (.clearJob jobId)
  /-- The entry of the job that is asked for has gone stale. -/
  | staleStatus (h : e.isStale cfg now) : Dropped cfg now before after jobId e (.getPoisonStatus jobId)
  /-- All the entries that have gone stale are removed. -/
  | staleCandidate (h : e.isStale cfg now) :
      Dropped cfg now before after jobId e .getAllPoisonCandidates
  /-- A new job fails when the tracker is full, and no entry that stays was seen first before. -/
  | evicted {job : Job} {error : JobError} (hnew : before.get job.jobId = none)
      (hfull : before.size = cfg.maxTrackerEntries)
      (holdest : ∀ k e', after.get k = some e' → e.firstSeenAt ≤ e'.firstSeenAt) :
      Dropped cfg now before after jobId e (.recordFailure job error)

/-- **What holds of a call** that leaves `after`. What it has recorded is there if no call before it
has read a later time. -/
structure Bounded (sha256 : String → String) (cfg : Config) (es : List (ℤ × Call)) (now : ℤ)
    (call : Call) (before after : Tracker) : Prop where
  size_le : after.size ≤ cfg.maxTrackerEntries
  dropped : ∀ jobId e, before.get jobId = some e → after.get jobId = none →
    Dropped cfg now before after jobId e call
  recorded : (∀ event ∈ es, event.1 ≤ now) → ∀ job error, call = .recordFailure job error → ∃ e,
    after.get job.jobId = some e ∧
      e.signature = computeSignature sha256 error.errorClass job.data ∧ e.lastSeenAt = now

/-! ### The invariant of a run -/

/-- **The tracker keeps within its bound**, and every entry was seen first when a call was made. -/
structure Timely (cfg : Config) (es : List (ℤ × Call)) (tracker : Tracker) : Prop where
  size_le : tracker.size ≤ cfg.maxTrackerEntries
  firstSeenAt_mem : ∀ k e, tracker.get k = some e → ∃ event ∈ es, event.1 = e.firstSeenAt

/-- With the first entry of a new job, the tracker is over its limit by one entry at most. -/
theorem size_set_of_none {value : FailureSignature} (h : tracker.get k = none) :
    (tracker.set k value).size = tracker.size + 1 := by
  rw [OrderedMap.size, OrderedMap.entries_set_of_none h, List.length_append, List.length_singleton,
    OrderedMap.size]

/-- **A new entry is not evicted**: what is evicted was tracked before. -/
theorem get_of_evicted_set (hmax : 1 ≤ cfg.maxTrackerEntries) (h : Timely cfg es tracker)
    (hnow : ∀ event ∈ es, event.1 ≤ now) {signature errorClass : String}
    (hnone : tracker.get k = none) {a : String × FailureSignature}
    (ha : a ∈ evicted cfg (tracker.set k (firstFailure now signature errorClass))) :
    tracker.get a.1 = some a.2 := by
  have hlast : ∀ b ∈ tracker.entries, b.2.firstSeenAt ≤ now := fun b hb => by
    obtain ⟨event, hevent, htime⟩ := h.firstSeenAt_mem b.1 b.2 (OrderedMap.get_eq_some.mpr hb)
    exact htime ▸ hnow event hevent
  have hcount : tracker.size + 1 - cfg.maxTrackerEntries ≤
      (tracker.entries.insertionSort fun a b => a.2.firstSeenAt ≤ b.2.firstSeenAt).length := by
    rw [List.length_insertionSort]
    change _ ≤ tracker.size
    omega
  rw [evicted, size_set_of_none hnone, OrderedMap.entries_set_of_none hnone,
    OrderedMap.insertionSort_concat hlast, List.take_append_of_le_length hcount] at ha
  exact mem_insertionSort_entries.mp (List.mem_of_mem_take ha)

/-- **The failure of a new job stays in the tracker.** -/
theorem get_enforceTrackerLimit_set (hmax : 1 ≤ cfg.maxTrackerEntries) (h : Timely cfg es tracker)
    (hnow : ∀ event ∈ es, event.1 ≤ now) {signature errorClass : String}
    (hnone : tracker.get k = none) :
    (enforceTrackerLimit cfg (tracker.set k (firstFailure now signature errorClass))).get k =
      some (firstFailure now signature errorClass) := by
  rw [get_enforceTrackerLimit, if_neg, OrderedMap.get_set_self]
  intro hevicted
  obtain ⟨a, ha, rfl⟩ := List.mem_map.mp hevicted
  have hsome := get_of_evicted_set hmax h hnow hnone ha
  rw [hnone] at hsome
  cases hsome

/-- What a call leaves in the tracker was there, or has been seen now. -/
theorem firstSeenAt_of_get_track {call : Call}
    (h : (call.track sha256 cfg now tracker).get k = some e) :
    e.firstSeenAt = now ∨ ∃ e', tracker.get k = some e' ∧ e'.firstSeenAt = e.firstSeenAt := by
  cases call with
  | recordFailure job error =>
    rw [Call.track] at h
    cases hget : tracker.get job.jobId with
    | none =>
      rw [recordFailure_of_none hget, get_enforceTrackerLimit] at h
      split at h
      · cases h
      rw [OrderedMap.get_set] at h
      split at h
      · exact .inl (Option.some.inj h ▸ rfl)
      · exact .inr ⟨e, h, rfl⟩
    | some existing =>
      by_cases hsame : existing.signature = computeSignature sha256 error.errorClass job.data
      · rw [recordFailure_of_eq hget hsame, OrderedMap.get_set] at h
        split at h
        next heq =>
          subst heq
          exact .inr ⟨existing, hget, Option.some.inj h ▸ rfl⟩
        next => exact .inr ⟨e, h, rfl⟩
      · rw [recordFailure_of_ne hget hsame, OrderedMap.get_set] at h
        split at h
        · exact .inl (Option.some.inj h ▸ rfl)
        · exact .inr ⟨e, h, rfl⟩
  | getPoisonStatus jobId =>
    rw [Call.track, getPoisonStatus] at h
    split at h
    · exact .inr ⟨e, h, rfl⟩
    split at h
    · rw [OrderedMap.get_delete] at h
      split at h
      · cases h
      · exact .inr ⟨e, h, rfl⟩
    · exact .inr ⟨e, h, rfl⟩
  | getAllPoisonCandidates =>
    change (cleanupStaleEntries cfg now tracker).get k = some e at h
    rw [cleanupStaleEntries, OrderedMap.get_filter] at h
    exact .inr ⟨e, (Option.filter_eq_some_iff.mp h).1, rfl⟩
  | clearJob jobId =>
    rw [Call.track, clearJob, OrderedMap.get_delete] at h
    split at h
    · cases h
    · exact .inr ⟨e, h, rfl⟩

/-- **No call takes the tracker over its bound.** -/
theorem size_track_le {call : Call} (h : tracker.size ≤ cfg.maxTrackerEntries) :
    (call.track sha256 cfg now tracker).size ≤ cfg.maxTrackerEntries := by
  cases call with
  | recordFailure job error =>
    rw [Call.track]
    cases hget : tracker.get job.jobId with
    | none =>
      rw [recordFailure_of_none hget]
      exact size_enforceTrackerLimit
    | some existing =>
      by_cases hsame : existing.signature = computeSignature sha256 error.errorClass job.data
      · rw [recordFailure_of_eq hget hsame, OrderedMap.size_set_of_some hget]
        exact h
      · rw [recordFailure_of_ne hget hsame, OrderedMap.size_set_of_some hget]
        exact h
  | getPoisonStatus jobId =>
    rw [Call.track, getPoisonStatus]
    split
    · exact h
    split
    · exact (OrderedMap.size_filter_le tracker _).trans h
    · exact h
  | getAllPoisonCandidates => exact (OrderedMap.size_filter_le tracker _).trans h
  | clearJob jobId => exact (OrderedMap.size_filter_le tracker _).trans h

/-- **The bound holds along every run.** -/
theorem timely_of_run (h : Run sha256 cfg es tracker) : Timely cfg es tracker := by
  induction h with
  | nil => exact ⟨Nat.zero_le _, fun k e hget => by cases hget⟩
  | @cons es tracker _ now call ih =>
    refine ⟨size_track_le ih.size_le, fun k e hget => ?_⟩
    obtain hfirst | ⟨e', hget', hfirst⟩ := firstSeenAt_of_get_track hget
    · exact ⟨(now, call), List.mem_cons_self, hfirst.symm⟩
    · obtain ⟨event, hevent, htime⟩ := ih.firstSeenAt_mem k e' hget'
      exact ⟨event, List.mem_cons_of_mem _ hevent, htime.trans hfirst⟩

/-! ### What a call drops -/

/-- A failure drops nothing but what it evicts. -/
theorem dropped_recordFailure (h : tracker.size ≤ cfg.maxTrackerEntries) {job : Job}
    {error : JobError} (hget : tracker.get k = some e)
    (hnone : (recordFailure sha256 cfg now job error tracker).2.get k = none) :
    Dropped cfg now tracker (recordFailure sha256 cfg now job error tracker).2 k e
      (.recordFailure job error) := by
  cases hjob : tracker.get job.jobId with
  | none =>
    have hne : k ≠ job.jobId := by
      rintro rfl
      rw [hjob] at hget
      cases hget
    rw [recordFailure_of_none hjob] at hnone ⊢
    have hset : (tracker.set job.jobId (firstFailure now
        (computeSignature sha256 error.errorClass job.data) error.errorClass)).get k = some e :=
      (OrderedMap.get_set_of_ne hne).trans hget
    refine .evicted hjob (Nat.le_antisymm h ?_) fun k' e' hkept =>
      firstSeenAt_le_of_evicted hset hnone hkept
    -- within the limit nothing would have gone
    by_contra hroom
    rw [enforceTrackerLimit, if_pos, hset] at hnone
    · cases hnone
    · rw [size_set_of_none hjob]
      omega
  | some existing =>
    have hkept : ∀ value, (tracker.set job.jobId value).get k ≠ none := fun value => by
      rw [OrderedMap.get_set]
      split <;> simp [hget]
    by_cases hsame : existing.signature = computeSignature sha256 error.errorClass job.data
    · rw [recordFailure_of_eq hjob hsame] at hnone
      exact absurd hnone (hkept _)
    · rw [recordFailure_of_ne hjob hsame] at hnone
      exact absurd hnone (hkept _)

theorem dropped_track {call : Call} (h : tracker.size ≤ cfg.maxTrackerEntries)
    (hget : tracker.get k = some e) (hnone : (call.track sha256 cfg now tracker).get k = none) :
    Dropped cfg now tracker (call.track sha256 cfg now tracker) k e call := by
  cases call with
  | recordFailure job error => exact dropped_recordFailure h hget hnone
  | getPoisonStatus jobId =>
    rw [Call.track, getPoisonStatus] at hnone
    split at hnone
    · rw [hget] at hnone
      cases hnone
    next entry hentry =>
      split at hnone
      next hstale =>
        obtain rfl : k = jobId := by
          by_contra hne
          rw [OrderedMap.get_delete, if_neg hne, hget] at hnone
          cases hnone
        obtain rfl : entry = e := Option.some.inj (hentry.symm.trans hget)
        exact .staleStatus hstale
      next =>
        rw [hget] at hnone
        cases hnone
  | getAllPoisonCandidates =>
    change (cleanupStaleEntries cfg now tracker).get k = none at hnone
    rw [cleanupStaleEntries, OrderedMap.get_filter, hget] at hnone
    refine .staleCandidate ?_
    by_contra hfresh
    simp [hfresh] at hnone
  | clearJob jobId =>
    obtain rfl : k = jobId := by
      by_contra hne
      rw [Call.track, clearJob, OrderedMap.get_delete, if_neg hne, hget] at hnone
      cases hnone
    exact .cleared

/-- **A failure that has been recorded is in the tracker.** -/
theorem get_recordFailure (hmax : 1 ≤ cfg.maxTrackerEntries) (h : Timely cfg es tracker)
    (hnow : ∀ event ∈ es, event.1 ≤ now) (job : Job) (error : JobError) : ∃ e,
    (recordFailure sha256 cfg now job error tracker).2.get job.jobId = some e ∧
      e.signature = computeSignature sha256 error.errorClass job.data ∧ e.lastSeenAt = now := by
  cases hget : tracker.get job.jobId with
  | none =>
    rw [recordFailure_of_none hget]
    exact ⟨_, get_enforceTrackerLimit_set hmax h hnow hget, rfl, rfl⟩
  | some existing =>
    by_cases hsame : existing.signature = computeSignature sha256 error.errorClass job.data
    · rw [recordFailure_of_eq hget hsame]
      exact ⟨_, OrderedMap.get_set_self, hsame, rfl⟩
    · rw [recordFailure_of_ne hget hsame]
      exact ⟨_, OrderedMap.get_set_self, rfl, rfl⟩

/-! ### The bound -/

/-- **The tracker is bounded**, at every call of every run. -/
theorem bounded_of_run (hmax : 1 ≤ cfg.maxTrackerEntries) (hrun : Run sha256 cfg es tracker)
    (now : ℤ) (call : Call) :
    Bounded sha256 cfg es now call tracker (call.track sha256 cfg now tracker) where
  size_le := size_track_le (timely_of_run hrun).size_le
  dropped _ _ hget hnone := dropped_track (timely_of_run hrun).size_le hget hnone
  recorded hnow job error hcall := by
    subst hcall
    exact get_recordFailure hmax (timely_of_run hrun) hnow job error

namespace Sample

/-- A tracker of one entry. -/
def single : Config := { maxTrackerEntries := 1 }

def job (id : String) : Job := ⟨some id, .null⟩

def error : JobError := ⟨some "Error", "", none⟩

end Sample

/-- A tracker of one entry, in which the failure of a second job takes the place of the first. -/
theorem bounded_of_run_full :
    let failure (jobId : String) : Call := .recordFailure (Sample.job jobId) Sample.error
    let before := (failure "1").track id Sample.single 5 .empty
    Bounded id Sample.single [(5, failure "1")] 5 (failure "2") before
      ((failure "2").track id Sample.single 5 before) :=
  bounded_of_run (by decide) (.cons .nil 5 _) 5 _

/-- **On a clock that goes back** the entry just recorded is the one that is evicted. -/
theorem not_recorded : ¬ ∀ (cfg : Config) (es : List (ℤ × Call)) (tracker : Tracker),
    1 ≤ cfg.maxTrackerEntries → Run id cfg es tracker → ∀ (now : ℤ) (job : Job) (error : JobError),
      ((Call.recordFailure job error).track id cfg now tracker).get job.jobId ≠ none := by
  intro h
  refine h Sample.single _ _ (by decide)
    (.cons .nil 5 (.recordFailure (Sample.job "1") Sample.error)) 3 (Sample.job "2") Sample.error ?_
  decide +kernel

end Ahjoor.Poison
