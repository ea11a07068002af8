import Ahjoor.Json.KeyOrder
import Ahjoor.Store.OrderedMap

/-!
# `PoisonMessageDetectorService`

The tracker holds one entry for each job that has failed: the signature of its last failure, when it
was seen first and last, and how often in a row. It is a map in the order of insertion. The clock is
read once in each call; `Date.now()` may go back between calls. SHA-256, as hexadecimal digits, is a
parameter; what the service only logs is left out.
-/

namespace Ahjoor.Poison

open Json Store

/-- The settings of the detector. -/
structure Config where
  poisonThreshold : ℕ := 3
  signatureTtlMs : ℕ := 30 * 60 * 1000
  maxTrackerEntries : ℕ := 10000

/-- `FailureSignature`. -/
structure FailureSignature where
  signature : String
  errorClass : String
  firstSeenAt : ℤ
  lastSeenAt : ℤ
  consecutiveFailures : ℕ
  deriving DecidableEq, Repr

/-- `PoisonMessageDetectionResult`. -/
structure PoisonMessageDetectionResult where
  isPoison : Bool
  consecutiveFailures : ℕ
  threshold : ℕ
  signature : String
  errorClass : String
  deriving DecidableEq, Repr

/-- `failureTracker`. -/
abbrev Tracker : Type := OrderedMap String FailureSignature

/-- What a failed job says of itself. -/
structure Job where
  id : Option String
  data : Value

/-- What a job has failed with. -/
structure JobError where
  className : Option String
  message : String := ""
  stack : Option String := none

/-- `String(job.id ?? 'unknown')`. -/
def Job.jobId (job : Job) : String := job.id.getD "unknown"

/-- `error.constructor?.name ?? 'Error'`. -/
def JobError.errorClass (error : JobError) : String := error.className.getD "Error"

/-! ### Signatures -/

mutual

/-- `canonicalize(value)`, as characters. -/
def canonicalText : Value → List Char
  | .null => ['n', 'u', 'l', 'l']
  | .bool true => ['t', 'r', 'u', 'e']
  | .bool false => ['f', 'a', 'l', 's', 'e']
  | .num n => n.text
  | .str s => s.toList
  | .arr xs => '[' :: join (canonicalTexts xs) ++ [']']
  | .obj members =>
      '{' :: join ((sortByKey (canonicalMembers members)).map fun (key, text) =>
        key.toList ++ ':' :: text) ++ ['}']
termination_by structural value => value

def canonicalTexts : List Value → List (List Char)
  | [] => []
  | value :: values => canonicalText value :: canonicalTexts values
termination_by structural values => values

def canonicalMember : String × Value → String × List Char
  | (key, value) => (key, canonicalText value)
termination_by structural member => member

def canonicalMembers : List (String × Value) → List (String × List Char)
  | [] => []
  | member :: members => canonicalMember member :: canonicalMembers members
termination_by structural members => members

end

/-- `computeSignature(errorClass, data)`. -/
def computeSignature (sha256 : String → String) (errorClass : String) (data : Value) : String :=
  sha256 (errorClass ++ ":" ++ String.ofList (canonicalText data))

/-! ### The service -/

section

variable (sha256 : String → String) (cfg : Config) (now : ℤ)

/-- `enforceTrackerLimit()`. -/
def enforceTrackerLimit (tracker : Tracker) : Tracker :=
  if tracker.size ≤ cfg.maxTrackerEntries then tracker
  else
    let entries := tracker.entries.insertionSort fun a b => a.2.firstSeenAt ≤ b.2.firstSeenAt
    let toEvict := entries.take (tracker.size - cfg.maxTrackerEntries)
    tracker.deleteAll (toEvict.map Prod.fst)

/-- An entry for a first failure. -/
def firstFailure (signature errorClass : String) : FailureSignature where
  signature := signature
  errorClass := errorClass
  firstSeenAt := now
  lastSeenAt := now
  consecutiveFailures := 1

/-- What is reported of a first failure. -/
def firstResult (signature errorClass : String) : PoisonMessageDetectionResult where
  isPoison := false
  consecutiveFailures := 1
  threshold := cfg.poisonThreshold
  signature := signature
  errorClass := errorClass

/-- `recordFailure(job, error)`. -/
def recordFailure (job : Job) (error : JobError) (tracker : Tracker) :
    PoisonMessageDetectionResult × Tracker :=
  let signature := computeSignature sha256 error.errorClass job.data
  match tracker.get job.jobId with
  | some existing =>
      if existing.signature ≠ signature then
        (firstResult cfg signature error.errorClass,
          tracker.set job.jobId (firstFailure now signature error.errorClass))
      else
        let updated := { existing with
          lastSeenAt := now
          consecutiveFailures := existing.consecutiveFailures + 1 }
        ({ isPoison := cfg.poisonThreshold ≤ updated.consecutiveFailures
           consecutiveFailures := updated.consecutiveFailures
           threshold := cfg.poisonThreshold
           signature
           errorClass := error.errorClass },
          tracker.set job.jobId updated)
  | none =>
      (firstResult cfg signature error.errorClass,
        enforceTrackerLimit cfg
          (tracker.set job.jobId (firstFailure now signature error.errorClass)))

/-- The entry has gone stale. -/
def FailureSignature.isStale (entry : FailureSignature) : Bool :=
  (cfg.signatureTtlMs : ℤ) < now - entry.lastSeenAt

/-- `getPoisonStatus(jobId)`. -/
def getPoisonStatus (jobId : String) (tracker : Tracker) : Option FailureSignature × Tracker :=
  match tracker.get jobId with
  | none => (none, tracker)
  | some entry =>
      if entry.isStale cfg now then (none, tracker.delete jobId) else (some entry, tracker)

/-- `cleanupStaleEntries()`. -/
def cleanupStaleEntries (tracker : Tracker) : Tracker :=
  tracker.filter fun e => !e.2.isStale cfg now

/-- `getAllPoisonCandidates()`. -/
def getAllPoisonCandidates (tracker : Tracker) : List (String × FailureSignature) × Tracker :=
  let tracker := cleanupStaleEntries cfg now tracker
  (tracker.entries.filter fun e => cfg.poisonThreshold ≤ e.2.consecutiveFailures, tracker)

end

/-- `clearJob(jobId)`. -/
def clearJob (jobId : String) (tracker : Tracker) : Tracker := tracker.delete jobId

/-! ### Runs -/

/-- The calls that use the tracker. -/
inductive Call
  | recordFailure (job : Job) (error : JobError)
  | getPoisonStatus (jobId : String)
  | getAllPoisonCandidates
  | clearJob (jobId : String)

section

variable (sha256 : String → String) (cfg : Config)

/-- The tracker after a call. -/
def Call.track (now : ℤ) (tracker : Tracker) : Call → Tracker
  | recordFailure job error => (Poison.recordFailure sha256 cfg now job error tracker).2
  | getPoisonStatus jobId => (Poison.getPoisonStatus cfg now jobId tracker).2
  | getAllPoisonCandidates => (Poison.getAllPoisonCandidates cfg now tracker).2
  | clearJob jobId => Poison.clearJob jobId tracker

/-- **A run**: the calls with the times they have read, newest first, and the tracker they leave. -/
inductive Run : List (ℤ × Call) → Tracker → Prop
  | nil : Run [] .empty
  | cons {es : List (ℤ × Call)} {tracker : Tracker} (h : Run es tracker) (now : ℤ) (call : Call) :
      Run ((now, call) :: es) (call.track sha256 cfg now tracker)

/-- A run on a clock that does not go back, each call of which meets the condition `ok` on the tracker
before it. -/
inductive RunWhen (ok : Tracker → ℤ → Call → Prop) : List (ℤ × Call) → Tracker → Prop
  | nil : RunWhen ok [] .empty
  | cons {es : List (ℤ × Call)} {tracker : Tracker} (h : RunWhen ok es tracker) {now : ℤ}
      (hnow : ∀ e ∈ es, e.1 ≤ now) {call : Call} (hok : ok tracker now call) :
      RunWhen ok ((now, call) :: es) (call.track sha256 cfg now tracker)

end

/-! ### What the calls leave -/

section Calls

variable {sha256 : String → String} {cfg : Config} {now : ℤ} {tracker : Tracker} {jobId k : String}
  {e e' : FailureSignature}

section RecordFailure

variable {job : Job} {error : JobError}

/-- A job that is not tracked. -/
theorem recordFailure_of_none (h : tracker.get job.jobId = none) :
    recordFailure sha256 cfg now job error tracker =
      (firstResult cfg (computeSignature sha256 error.errorClass job.data) error.errorClass,
        enforceTrackerLimit cfg (tracker.set job.jobId (firstFailure now
          (computeSignature sha256 error.errorClass job.data) error.errorClass))) := by
  simp only [recordFailure, h]

/-- A job that is tracked with another signature. -/
theorem recordFailure_of_ne (h : tracker.get job.jobId = some e)
    (hne : e.signature ≠ computeSignature sha256 error.errorClass job.data) :
    recordFailure sha256 cfg now job error tracker =
      (firstResult cfg (computeSignature sha256 error.errorClass job.data) error.errorClass,
        tracker.set job.jobId (firstFailure now
          (computeSignature sha256 error.errorClass job.data) error.errorClass)) := by
  simp only [recordFailure, h, if_pos hne]

/-- A job that is tracked with this signature. -/
theorem recordFailure_of_eq (h : tracker.get job.jobId = some e)
    (heq : e.signature = computeSignature sha256 error.errorClass job.data) :
    recordFailure sha256 cfg now job error tracker =
      ({ isPoison := cfg.poisonThreshold ≤ e.consecutiveFailures + 1
         consecutiveFailures := e.consecutiveFailures + 1
         threshold := cfg.poisonThreshold
         signature := computeSignature sha256 error.errorClass job.data
         errorClass := error.errorClass },
        tracker.set job.jobId { e with
          lastSeenAt := now
          consecutiveFailures := e.consecutiveFailures + 1 }) := by
  simp only [recordFailure, h, if_neg (not_not.mpr heq)]

end RecordFailure

theorem mem_insertionSort_entries {a : String × FailureSignature} :
    a ∈ tracker.entries.insertionSort (fun a b => a.2.firstSeenAt ≤ b.2.firstSeenAt) ↔
      tracker.get a.1 = some a.2 := by
  rw [List.mem_insertionSort, OrderedMap.get_eq_some]

/-- The entries that are evicted. -/
def evicted (cfg : Config) (tracker : Tracker) : List (String × FailureSignature) :=
  (tracker.entries.insertionSort fun a b => a.2.firstSeenAt ≤ b.2.firstSeenAt).take
    (tracker.size - cfg.maxTrackerEntries)

theorem get_enforceTrackerLimit : (enforceTrackerLimit cfg tracker).get k =
    if k ∈ (evicted cfg tracker).map Prod.fst then none else tracker.get k := by
  rw [enforceTrackerLimit]
  split
  next hle =>
    have hnone : evicted cfg tracker = [] := by rw [evicted, Nat.sub_eq_zero_of_le hle, List.take_zero]
    rw [hnone]
    rfl
  next => exact OrderedMap.get_deleteAll

theorem mem_of_evicted {a : String × FailureSignature} (h : a ∈ evicted cfg tracker) :
    tracker.get a.1 = some a.2 :=
  mem_insertionSort_entries.mp (List.mem_of_mem_take h)

/-- **The limit holds** after it has been enforced. -/
theorem size_enforceTrackerLimit : (enforceTrackerLimit cfg tracker).size ≤ cfg.maxTrackerEntries := by
  rw [enforceTrackerLimit]
  split
  · assumption
  next hgt =>
    have hperm := tracker.entries.perm_insertionSort fun a b => a.2.firstSeenAt ≤ b.2.firstSeenAt
    have hnodup : ((evicted cfg tracker).map Prod.fst).Nodup :=
      ((hperm.map Prod.fst).nodup_iff.mpr tracker.nodup).sublist ((List.take_sublist _ _).map _)
    have hdeleted := OrderedMap.size_deleteAll hnodup fun key hkey => by
      obtain ⟨a, ha, rfl⟩ := List.mem_map.mp hkey
      exact ⟨a.2, mem_of_evicted ha⟩
    have hcount : ((evicted cfg tracker).map Prod.fst).length =
        tracker.size - cfg.maxTrackerEntries := by
      rw [List.length_map, evicted, List.length_take, hperm.length_eq]
      exact Nat.min_eq_left (Nat.sub_le _ _)
    change (tracker.deleteAll ((evicted cfg tracker).map Prod.fst)).size ≤ _
    omega

/-- **The oldest are evicted**: no entry that stays was seen before one that goes. -/
theorem firstSeenAt_le_of_evicted (hgone : tracker.get jobId = some e)
    (hnone : (enforceTrackerLimit cfg tracker).get jobId = none)
    (hkept : (enforceTrackerLimit cfg tracker).get k = some e') : e.firstSeenAt ≤ e'.firstSeenAt := by
  rw [get_enforceTrackerLimit] at hnone hkept
  have hin : jobId ∈ (evicted cfg tracker).map Prod.fst := by
    by_contra hout
    rw [if_neg hout, hgone] at hnone
    cases hnone
  split at hkept
  · cases hkept
  next hout =>
    obtain ⟨a, ha, rfl⟩ := List.mem_map.mp hin
    obtain rfl : a.2 = e := Option.some.inj ((mem_of_evicted ha).symm.trans hgone)
    -- what stays comes after what is taken
    have hsorted := tracker.entries.pairwise_insertionSort fun a b => a.2.firstSeenAt ≤ b.2.firstSeenAt
    rw [← List.take_append_drop (tracker.size - cfg.maxTrackerEntries) (List.insertionSort _ _),
      List.pairwise_append] at hsorted
    have hmem : (k, e') ∈ tracker.entries.insertionSort
        (fun a b => a.2.firstSeenAt ≤ b.2.firstSeenAt) := mem_insertionSort_entries.mpr hkept
    rw [← List.take_append_drop (tracker.size - cfg.maxTrackerEntries) (List.insertionSort _ _),
      List.mem_append] at hmem
    exact hsorted.2.2 a ha (k, e')
      (hmem.resolve_left fun htaken => hout (List.mem_map.mpr ⟨(k, e'), htaken, rfl⟩))

end Calls

end Ahjoor.Poison
