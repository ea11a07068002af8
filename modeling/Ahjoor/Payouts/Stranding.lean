import Ahjoor.Payouts.Settlement

/-!
# Stranded payouts

A record *waits* while its outcome is open: it is `SUBMITTED`, or `PENDING_SUBMISSION` with a
hash. The sweep enqueues a job for each record that it finds waiting, under a job id that never
changes, so a finished job that is still kept under that id swallows the new one: the record is
stranded. A sweep whose additions are not blocked in this way, and whose records are not touched
under its hands, leaves every waiting record with a job that can run.
-/

namespace Ahjoor

open Async Bullmq Store StellarService PayoutService

variable {sdk : Sdk} {cfg : Config}

/-! ### Waiting records and sweeps -/

/-- `SUBMITTED`, or `PENDING_SUBMISSION` with a hash. -/
def PayoutTransaction.Unconfirmed (c : PayoutTransaction) : Prop :=
  c.status = .submitted ∨ c.status = .pendingSubmission ∧ c.txHash ≠ none

instance (c : PayoutTransaction) : Decidable c.Unconfirmed := inferInstanceAs (Decidable (_ ∨ _))

/-- The record `i` is in the table and its outcome is open. -/
def Waiting (h : PayoutHist) (i : Uuid) : Prop := ∃ c ∈ (records h).row i, c.Unconfirmed

instance (h : PayoutHist) (i : Uuid) : Decidable (Waiting h i) :=
  inferInstanceAs (Decidable (∃ c ∈ (records h).row i, c.Unconfirmed))

/-- The reconciliation queue. -/
abbrev queue (h : PayoutHist) : Queue Uuid := h.world.payoutQueue

/-- The sweeps that were started. -/
def sweeps (h : PayoutHist) : List ℕ :=
  h.trace.filterMap fun
    | .start pid .sweep => some pid
    | _ => none

/-- The sweeps that have neither returned nor crashed. -/
def runningSweeps (h : PayoutHist) : List ℕ :=
  (sweeps h).filter fun pid => h.trace.all fun e => !e.isEnd || e.pid != pid

/-- The records with a hash that a sweep has found waiting. -/
def sweptIds (L : Log Op.Ret) : List Uuid :=
  L.flatMap fun
    | ⟨.db (.findPayouts _), .ok ps⟩ =>
        (List.filter (fun p : PayoutTransaction => p.txHash.isSome) ps).map (·.id)
    | _ => []

/-- The records whose enqueueing was acknowledged. -/
def enqueuedIds (L : Log Op.Ret) : List Uuid :=
  L.filterMap fun
    | ⟨.addJob id _, .ok _⟩ => some id
    | _ => none

/-! ### Undisturbed sweeps -/

/-- When a sweep adds the job of a waiting record, no finished job holds its id. -/
def Unblocked (h h' : PayoutHist) : Prop :=
  match h'.trace with
  | .did pid (.addJob i _) (.ok _) _ :: _ =>
      pid ∈ sweeps h → Waiting h i → ¬ (queue h).Finished i
  | _ => True

/-- When a sweep returns, a waiting record that it has not found has a job that can run. -/
def FoundAll (h h' : PayoutHist) : Prop :=
  match h'.trace with
  | .returned pid _ :: _ =>
      pid ∈ sweeps h → ∀ i < (records h).next, Waiting h i →
        i ∈ sweptIds (log pid h.trace) ∨ (queue h).Live i
  | _ => True

/-- From the addition of a record's job to the sweep's return, the record loses no job that can
run while it waits, and does not start to wait without one. -/
def KeepsJobs (h h' : PayoutHist) : Prop :=
  ∀ pid ∈ runningSweeps h, ∀ i ∈ enqueuedIds (log pid h.trace), Waiting h' i →
    (Waiting h i ∧ ¬ (queue h).Live i) ∨ (queue h').Live i

/-- The step disturbs no sweep. -/
def SweepsUndisturbed (h h' : PayoutHist) : Prop :=
  Unblocked h h' ∧ FoundAll h h' ∧ KeepsJobs h h'

instance : DecidableRel SweepsUndisturbed := fun h h' => by
  unfold SweepsUndisturbed Unblocked FoundAll KeepsJobs
  refine @instDecidableAnd _ _ ?_ (@instDecidableAnd _ _ ?_ ?_)
  · rcases h'.trace with _ | ⟨_ | ⟨_, o, r, _⟩ | _ | _, _⟩
    case cons.did =>
      rcases o with _ | _
      case addJob => rcases r with _ | _ <;> infer_instance
      all_goals infer_instance
    all_goals infer_instance
  · rcases h'.trace with _ | ⟨_ | _ | _ | _, _⟩ <;> infer_instance
  · infer_instance

/-! ### What a sweep leaves behind -/

/-- Just after a sweep, every waiting record has a job that can run. -/
def NothingStranded (h : PayoutHist) : Prop :=
  match h.trace with
  | .returned pid (.ok _) :: _ => pid ∈ sweeps h → ∀ i, Waiting h i → (queue h).Live i
  | _ => True

theorem mem_sweeps {h : PayoutHist} {pid : ℕ} :
    pid ∈ sweeps h ↔ Event.start pid .sweep ∈ h.trace := by
  constructor
  · intro hp
    obtain ⟨e, he, heq⟩ := List.mem_filterMap.mp hp
    split at heq
    · cases heq
      exact he
    · cases heq
  · exact fun hp => List.mem_filterMap.mpr ⟨_, hp, rfl⟩

theorem mem_runningSweeps {h : PayoutHist} {pid : ℕ} :
    pid ∈ runningSweeps h ↔
      Event.start pid .sweep ∈ h.trace ∧ ∀ e ∈ h.trace, e.isEnd = true → e.pid ≠ pid := by
  rw [runningSweeps, List.mem_filter, mem_sweeps, List.all_eq_true]
  refine and_congr_right fun _ => forall_congr' fun e => forall_congr' fun _ => ?_
  cases e.isEnd <;> simp

theorem mem_enqueuedIds {L : Log Op.Ret} {i : Uuid} :
    i ∈ enqueuedIds L ↔ ∃ job, ⟨.addJob i job, .ok ()⟩ ∈ L := by
  constructor
  · intro hi
    obtain ⟨e, he, heq⟩ := List.mem_filterMap.mp hi
    split at heq
    · cases heq
      exact ⟨_, he⟩
    · cases heq
  · exact fun ⟨job, hjob⟩ => List.mem_filterMap.mpr ⟨_, hjob, rfl⟩

/-- Whatever a running sweep has enqueued has a job that can run as long as it waits. -/
def SweptLive (h : PayoutHist) : Prop :=
  ∀ pid ∈ runningSweeps h, ∀ i ∈ enqueuedIds (log pid h.trace), Waiting h i → (queue h).Live i

/-- A call whose log is not empty was started before. -/
theorem start_of_log {h h' : PayoutHist} (hsound : Sound h) (hsound' : Sound h')
    {e : Event Op.Ret World PayoutCall (Except Exc Unit)} (hcons : h'.trace = e :: h.trace) {pid : ℕ}
    {c : PayoutCall} (hstart : Event.start pid c ∈ h'.trace) {x : Entry Op.Ret}
    (hx : x ∈ log pid h.trace) : Event.start pid c ∈ h.trace := by
  obtain ⟨w, hw⟩ := mem_log.mp hx
  obtain ⟨c', hc'⟩ := hsound.start_mem _ hw
  have hc'' : Event.start pid c' ∈ h'.trace := by
    rw [hcons]
    exact List.mem_cons_of_mem e hc'
  rw [hsound'.start_unique pid c c' hstart hc'']
  exact hc'

theorem job_of_maySweep {L : Log Op.Ret} {i : Uuid} {job : Job Uuid} (h : MaySweep L (.addJob i job)) :
    job = payoutReconciliationJob i := by
  cases h
  rfl

theorem SweptLive.step {h h' : PayoutHist} (hl : SweptLive h) (hsound : Sound h) (hsound' : Sound h')
    (hs : HistStep (payoutSystem sdk cfg) May h h') (hok : SweepsUndisturbed h h') :
    SweptLive h' := by
  intro q hq i hi hwait
  obtain ⟨hqstart, hqlive⟩ := mem_runningSweeps.mp hq
  obtain ⟨e, hcons⟩ : ∃ e, h'.trace = e :: h.trace := by cases hs <;> exact ⟨_, rfl⟩
  -- what the sweep had enqueued before the step
  have old : i ∈ enqueuedIds (log q h.trace) → (queue h').Live i := by
    intro hi
    obtain ⟨job, hjob⟩ := mem_enqueuedIds.mp hi
    have hrun : q ∈ runningSweeps h := mem_runningSweeps.mpr
      ⟨start_of_log hsound hsound' hcons hqstart hjob, fun e' he' =>
        hqlive e' (by rw [hcons]; exact List.mem_cons_of_mem e he')⟩
    rcases hok.2.2 q hrun i hi hwait with ⟨hwait₀, hdead⟩ | hlive
    · exact absurd (hl q hrun i hi hwait₀) hdead
    · exact hlive
  cases hs with
  | idle e he hlive =>
    rw [Hist.push_trace, he] at hi
    exact old hi
  | did pid c o choice r w hstart hD hexec hlive =>
    by_cases hpid : pid = q
    · subst hpid
      rw [Hist.push_trace, log_did_self] at hi
      obtain ⟨job, hjob⟩ := mem_enqueuedIds.mp hi
      rcases List.mem_cons.mp hjob with heq | hjob
      · -- the step enqueues the record
        cases heq
        obtain rfl : c = .sweep :=
          hsound'.start_unique pid c _ (List.mem_cons_of_mem _ hstart) hqstart
        obtain rfl := exec_addJob_ok hexec
        have hfree : ¬ (queue h).Finished i := hok.1 (mem_sweeps.mpr hstart) hwait
        obtain rfl := job_of_maySweep hD
        exact Queue.live_add rfl hfree
      · exact old (mem_enqueuedIds.mpr ⟨job, hjob⟩)
    · rw [Hist.push_trace, log_cons_of_ne (e := .did pid o r h.world) hpid] at hi
      exact old hi

/-- A sweep reads once. -/
theorem eq_of_sweep_read {L : Log Op.Ret} (hL : Lawful MaySweep L)
    {st st' : List PayoutTransactionStatus} {ps ps' : List PayoutTransaction}
    (h : ⟨.db (.findPayouts st), .ok ps⟩ ∈ L) (h' : ⟨.db (.findPayouts st'), .ok ps'⟩ ∈ L) :
    ps = ps' := by
  have last : ∀ {st} {ps : List PayoutTransaction}, ⟨.db (.findPayouts st), .ok ps⟩ ∈ L →
      [⟨.db (.findPayouts st), .ok ps⟩] <:+ L := fun hmem => by
    obtain ⟨L', hL', hD⟩ := hL.allowed hmem
    cases hD
    exact hL'
  have heq := (List.suffix_of_suffix_length_le (last h) (last h') le_rfl).eq_of_length rfl
  cases heq
  rfl

theorem nothingStranded_step {h h' : PayoutHist} (hl : SweptLive h) (hsound : Sound h)
    (hsound' : Sound h') (hs : HistStep (payoutSystem sdk cfg) May h h')
    (hok : SweepsUndisturbed h h') : NothingStranded h' := by
  cases hs with
  | did pid c o choice r w hstart hD hexec hlive => trivial
  | idle e he hlive =>
    cases e with
    | returned pid a =>
      cases a with
      | error x => trivial
      | ok _ =>
        intro hsweep i hwait
        have hstart : Event.start pid .sweep ∈ h.trace :=
          (List.mem_cons.mp (mem_sweeps.mp hsweep)).resolve_left nofun
        obtain ⟨c, hc, -⟩ := id hwait
        rcases hok.2.1 (mem_sweeps.mpr hstart) i ((records h).lt_next hc) hwait with hswept | hlive'
        · obtain ⟨ps, hread, hps⟩ := hsound'.returned pid .sweep (.ok ()) (mem_sweeps.mp hsweep)
            List.mem_cons_self rfl
          rw [Hist.push_trace, log_returned] at hread hps
          obtain ⟨x, hx, hmem⟩ := List.mem_flatMap.mp hswept
          split at hmem
          next st ps' =>
            obtain rfl := eq_of_sweep_read (hsound.lawful pid _ hstart) hread hx
            obtain ⟨p, hp, rfl⟩ := List.mem_map.mp hmem
            obtain ⟨hp, hhash⟩ := List.mem_filter.mp hp
            have henq := hps p hp (Option.isSome_iff_ne_none.mp hhash)
            exact hl pid (mem_runningSweeps.mpr ⟨hstart, hlive⟩) p.id
              (mem_enqueuedIds.mpr ⟨_, henq⟩) hwait
          next => cases hmem
        · exact hlive'
    | start pid c => trivial
    | crashed pid => trivial
    | did pid o r w => simpa using he pid []

/-- **Undisturbed sweeps strand nothing**, in every run from any world. -/
theorem nothingStranded_of_undisturbed (sdk : Sdk) (cfg : Config) (w : World) {s : PayoutState}
    (hr : (payoutSystem sdk cfg).ReachableWhen SweepsUndisturbed (.init w) s) :
    NothingStranded s.hist :=
  (payout_rule (I := fun h => SweptLive h ∧ NothingStranded h) ⟨by simp [SweptLive, runningSweeps,
    sweeps], trivial⟩ (fun h h' hsound hsound' hI hs hok =>
      ⟨hI.1.step hsound hsound' hs hok, nothingStranded_step hI.1 hsound hsound' hs hok⟩) hr).2.2

/-! ### Both cases occur -/

/-- The schedule of a job's attempt by call `pid` that finds the transaction pending. -/
def pendingAttempt (pid : ℕ) : List PayoutMove :=
  (.start (.reconcile 0) :: dones pid 2 : List PayoutMove) ++
    ([.run pid (.found none), .run pid .done, .finish pid] : List PayoutMove)

/-- Just after a sweep, the first record waits, and has a job that can run or not. -/
def sweptWaiting (live : Bool) (s : PayoutState) : Bool :=
  match s.hist.trace with
  | .returned pid (.ok _) :: _ =>
      (sweeps s.hist).contains pid && decide (Waiting s.hist 0) &&
        decide ((queue s.hist).Live 0) == live
  | _ => false

/-- The payout is sent and `distributePayout` crashes: the sweep enqueues it. -/
theorem nothingStranded_sample : ∃ s : PayoutState,
    (payoutSystem Sample.sdk Sample.cfg).ReachableWhen SweepsUndisturbed
      (.init (Sample.world Sample.group [Sample.member])) s ∧
    sweptWaiting true s = true ∧ NothingStranded s.hist := by
  obtain ⟨s, hr, hs⟩ := System.exists_of_replay (payoutSystem Sample.sdk Sample.cfg)
    SweepsUndisturbed (.init (Sample.world Sample.group [Sample.member]))
    (sentSchedule ++ .crash 0 :: .start .sweep :: dones 1 2 ++ [.finish 1]) (sweptWaiting true)
    (by decide +kernel)
  exact ⟨s, hr, hs, nothingStranded_of_undisturbed _ _ _ hr⟩

/-- Five attempts find the transaction pending, and the job has failed: the sweep adds nothing. -/
theorem not_nothingStranded : ¬ ∀ s, (payoutSystem Sample.sdk Sample.cfg).Reachable
    (.init (Sample.world Sample.group [Sample.member])) s → NothingStranded s.hist := by
  intro hnone
  obtain ⟨s, hr, hs⟩ := System.exists_of_replay (payoutSystem Sample.sdk Sample.cfg)
    (fun _ _ => True) (.init (Sample.world Sample.group [Sample.member]))
    (sentSchedule ++ dones 0 4 ++ .finish 0 :: [1, 2, 3, 4, 5].flatMap pendingAttempt ++
      .start .sweep :: dones 6 2 ++ [.finish 6]) (sweptWaiting false) (by decide +kernel)
  have hstranded := hnone s hr
  unfold sweptWaiting at hs
  unfold NothingStranded at hstranded
  split at hs
  next pid a es htrace =>
    rw [htrace] at hstranded
    simp only [Bool.and_eq_true, List.contains_iff_mem, beq_iff_eq, decide_eq_true_eq,
      decide_eq_false_iff_not] at hs
    exact hs.2 (hstranded hs.1.1 0 hs.1.2)
  next => cases hs

end Ahjoor
