import Ahjoor.Stellar.CircuitBreaker

/-!
# The open circuit

While the circuit stays open its two marks only move forward: the last failure, which the timeout is
counted from, and the last probe, which keeps the probes apart.
-/

namespace Ahjoor.CircuitBreaker

open Async

variable {T ε : Type} {cfg : Config}

/-! ### What is claimed -/

/-- When `fn` has last failed. -/
def lastFailure : Trace T ε → Option ℤ
  | [] => none
  | .did _ (.settle _) settled _ :: es =>
      match settled.outcome with
      | .ok _ => lastFailure es
      | .error _ => some settled.endTime
  | _ :: es => lastFailure es

/-- Every stretch among these events took place in an open circuit. -/
def OpenThroughout (es : Trace T ε) : Prop :=
  ∀ e ∈ es, match e with
    | .did _ _ _ before => before.state.isOpen = true
    | _ => True

/-- What holds of the next call while the circuit is open: it waits for the timeout and keeps its
distance from the starts before it, or it is refused and leaves the breaker alone. -/
structure Holds (cfg : Config) (s : RunState T ε) : Prop where
  waits : ∀ pid (choice : Choice T ε) t w, exec cfg .enter pid choice s.hist.world = some (.started t, w) →
    s.hist.world.state.isOpen = true → ∃ failedAt, lastFailure s.hist.trace = some failedAt ∧
      cfg.baseTimeoutMs ≤ 2 * (t - failedAt) ∧
        (choice.report.isSlowOnly = false → cfg.baseTimeoutMs ≤ t - failedAt)
  apart : ∀ pid (choice : Choice T ε) t w, exec cfg .enter pid choice s.hist.world = some (.started t, w) →
    s.hist.world.state.isOpen = true → ∀ es pid' t' before es',
      s.hist.trace = es ++ Event.did pid' .enter (.started t') before :: es' →
        before.state.isOpen = true → OpenThroughout es → cfg.minHalfOpenProbeIntervalMs ≤ t - t'
  refused : ∀ pid (choice : Choice T ε) e w, exec cfg .enter pid choice s.hist.world = some (.refused e, w) →
    w.state = s.hist.world.state

/-! ### The stretches -/

section Stretches

variable {pid : ℕ} {choice : Choice T ε} {w w' : World} {t : ℤ}

/-- A call is admitted through a closed circuit, or as a probe. -/
theorem admission_ok {report : CongestionState} {now : ℤ} {state state' : CircuitState}
    (h : admission cfg report now state = .ok state') :
    (state.isOpen = false ∧ state' = state) ∨
      (state.isOpen = true ∧ getAdaptiveTimeout cfg report ≤ now - state.lastFailureAt.getD 0 ∧
        cfg.minHalfOpenProbeIntervalMs ≤ now - state.lastHalfOpenProbeAt.getD 0 ∧
          state' = { state with lastHalfOpenProbeAt := some now }) := by
  by_cases hopen : state.isOpen = true
  · rw [admission, if_pos hopen] at h
    simp only at h
    split_ifs at h with htimeout hprobe
    have hinterval : cfg.minHalfOpenProbeIntervalMs ≤ now - state.lastHalfOpenProbeAt.getD 0 := by
      simpa [shouldAttemptRecoveryProbe] using hprobe
    exact .inr ⟨hopen, Int.not_lt.mp htimeout, hinterval, (Except.ok.inj h).symm⟩
  · rw [admission, if_neg hopen] at h
    exact .inl ⟨Bool.eq_false_iff.mpr hopen, (Except.ok.inj h).symm⟩

/-- What entering does. -/
theorem exec_enter {r : Entered} (h : exec cfg .enter pid choice w = some (r, w')) :
    w.clock ≤ choice.now ∧ w'.clock = choice.now ∧
      ((∃ e, r = .refused e ∧ w'.state = w.state) ∨
        (r = .started choice.now ∧ admission cfg choice.report choice.now w.state = .ok w'.state)) := by
  simp only [exec] at h
  split_ifs at h with hclock
  refine ⟨Int.not_lt.mp hclock, ?_⟩
  split at h
  · cases h
    exact ⟨rfl, .inl ⟨_, rfl, rfl⟩⟩
  · next state hadmitted =>
    cases h
    exact ⟨rfl, .inr ⟨rfl, hadmitted⟩⟩

/-- What settling does. -/
theorem exec_settle {startTime : ℤ} {r : Settled T ε}
    (h : exec cfg (.settle startTime) pid choice w = some (r, w')) :
    w.clock ≤ choice.now ∧ w'.clock = choice.now ∧ r.endTime = choice.now ∧
      (((∃ t, r.outcome = .ok t) ∧ w'.state = onSuccess) ∨
        ((∃ e, r.outcome = .error e) ∧ w'.state = onFailure cfg choice.now w.state)) := by
  simp only [exec] at h
  split_ifs at h with hclock
  refine ⟨Int.not_lt.mp hclock, ?_⟩
  split at h <;> cases h
  · exact ⟨rfl, rfl, .inl ⟨⟨_, rfl⟩, rfl⟩⟩
  · exact ⟨rfl, rfl, .inr ⟨⟨_, rfl⟩, rfl⟩⟩

end Stretches

/-! ### The marks -/

/-- The marks of the breaker are those of the run. -/
structure Marks (s : RunState T ε) : Prop where
  failed : ∀ t, s.hist.world.state.lastFailureAt = some t → lastFailure s.hist.trace = some t
  opened : s.hist.world.state.isOpen = true → s.hist.world.state.lastFailureAt ≠ none
  probed : ∀ es pid t before es',
    s.hist.trace = es ++ Event.did pid .enter (.started t) before :: es' →
      before.state.isOpen = true → OpenThroughout es → s.hist.world.state.isOpen = true →
        ∃ probe, s.hist.world.state.lastHalfOpenProbeAt = some probe ∧ t ≤ probe
  past : ∀ t, s.hist.world.state.lastHalfOpenProbeAt = some t → t ≤ s.hist.world.clock

section Marks

variable {s s' : RunState T ε}

/-- An event that performs nothing. -/
theorem Marks.idle (hs : Marks s) {e : Event (Op.Ret T ε) World Unit (Except (Failure ε) T)}
    (he : ∀ pid o r w, e ≠ .did pid o r w) (n : ℕ) (task : ℕ → Option (Prog (Op.Ret T ε) _)) :
    Marks ⟨s.hist.push e s.hist.world, n, task⟩ := by
  refine ⟨fun t ht => ?_, hs.opened, fun es pid t before es' htrace hbefore hopen hnow => ?_,
    hs.past⟩
  · cases e with
    | did pid o r w => exact absurd rfl (he pid o r w)
    | start pid c => exact hs.failed t ht
    | returned pid a => exact hs.failed t ht
    | crashed pid => exact hs.failed t ht
  · rcases List.cons_eq_append_iff.mp htrace with ⟨-, heq⟩ | ⟨es₁, rfl, hold⟩
    · exact (he _ _ _ _ (List.cons.inj heq).1.symm).elim
    · exact hs.probed es₁ pid t before es' hold hbefore
        (fun e he => hopen e (List.mem_cons_of_mem _ he)) hnow

/-- A call enters and leaves the breaker alone. -/
theorem Marks.unchanged (hs : Marks s) {pid : ℕ} {r : Entered} {w : World}
    (hstate : w.state = s.hist.world.state) (hclock : s.hist.world.clock ≤ w.clock)
    (hstart : s.hist.world.state.isOpen = true → ∀ t, r ≠ .started t) (n : ℕ)
    (task : ℕ → Option (Prog (Op.Ret T ε) _)) :
    Marks ⟨s.hist.push (.did pid .enter r s.hist.world) w, n, task⟩ := by
  refine ⟨fun t ht => ?_, ?_, fun es pid' t before es' htrace hopen hall _ => ?_, fun t ht => ?_⟩
  · rw [Hist.push_world, hstate] at ht
    exact hs.failed t ht
  · rw [Hist.push_world, hstate]
    exact hs.opened
  · rw [Hist.push_world, hstate]
    rcases List.cons_eq_append_iff.mp htrace with ⟨-, heq⟩ | ⟨es₁, rfl, hold⟩
    · cases heq
      exact absurd rfl (hstart hopen t)
    · exact hs.probed es₁ pid' t before es' hold hopen
        (fun e he => hall e (List.mem_cons_of_mem _ he)) (hall _ List.mem_cons_self)
  · rw [Hist.push_world, hstate] at ht
    exact (hs.past t ht).trans hclock

/-- A call enters. -/
theorem Marks.enter (hs : Marks s) {pid : ℕ} {choice : Choice T ε} {r : Entered} {w : World}
    (hexec : exec cfg .enter pid choice s.hist.world = some (r, w)) (n : ℕ)
    (task : ℕ → Option (Prog (Op.Ret T ε) _)) :
    Marks ⟨s.hist.push (.did pid .enter r s.hist.world) w, n, task⟩ := by
  obtain ⟨hclock, hnow, hcases⟩ := exec_enter hexec
  rw [← hnow] at hclock
  rcases hcases with ⟨e, rfl, hstate⟩ | ⟨rfl, hadmitted⟩
  · exact hs.unchanged hstate hclock (fun _ _ => by simp) n task
  rcases admission_ok hadmitted with ⟨hclosed, hstate⟩ | ⟨hopened, -, -, hstate⟩
  · refine hs.unchanged hstate hclock (fun hopen => ?_) n task
    rw [hclosed] at hopen
    cases hopen
  -- a probe: its start is the new mark
  refine ⟨fun t ht => ?_, fun _ => ?_, fun es pid' t before es' htrace hopen hall _ => ?_,
    fun t ht => ?_⟩
  · rw [Hist.push_world, hstate] at ht
    exact hs.failed t ht
  · rw [Hist.push_world, hstate]
    exact hs.opened hopened
  · rw [Hist.push_world, hstate]
    refine ⟨choice.now, rfl, ?_⟩
    rcases List.cons_eq_append_iff.mp htrace with ⟨-, heq⟩ | ⟨es₁, rfl, hold⟩
    · cases heq
      exact le_refl _
    · obtain ⟨probe, hprobe, hle⟩ := hs.probed es₁ pid' t before es' hold hopen
        (fun e he => hall e (List.mem_cons_of_mem _ he)) hopened
      have hpast := hs.past probe hprobe
      omega
  · rw [Hist.push_world, hstate] at ht
    rw [Hist.push_world, hnow]
    exact (Option.some.inj ht).symm.le

/-- The end of `fn` is recorded. -/
theorem Marks.settle (hs : Marks s) {pid : ℕ} {startTime : ℤ} {choice : Choice T ε}
    {r : Settled T ε} {w : World}
    (hexec : exec cfg (.settle startTime) pid choice s.hist.world = some (r, w)) (n : ℕ)
    (task : ℕ → Option (Prog (Op.Ret T ε) _)) :
    Marks ⟨s.hist.push (.did pid (.settle startTime) r s.hist.world) w, n, task⟩ := by
  obtain ⟨hclock, hnow, hend, ⟨-, hstate⟩ | ⟨⟨e, he⟩, hstate⟩⟩ := exec_settle hexec
  · -- success closes the circuit and clears the marks
    refine ⟨fun t ht => ?_, fun hopen => ?_, fun es pid' t before es' _ _ _ hopen => ?_,
      fun t ht => ?_⟩
    · rw [Hist.push_world, hstate] at ht
      cases ht
    · rw [Hist.push_world, hstate] at hopen
      cases hopen
    · rw [Hist.push_world, hstate] at hopen
      cases hopen
    · rw [Hist.push_world, hstate] at ht
      cases ht
  · refine ⟨fun t ht => ?_, fun _ => ?_, fun es pid' t before es' htrace hopen hall _ => ?_,
      fun t ht => ?_⟩
    · rw [Hist.push_world, hstate] at ht
      rw [Hist.push_trace, lastFailure, he]
      exact (congrArg some hend).trans ht
    · rw [Hist.push_world, hstate]
      exact nofun
    · rcases List.cons_eq_append_iff.mp htrace with ⟨-, heq⟩ | ⟨es₁, rfl, hold⟩
      · cases heq
      · have hopened : s.hist.world.state.isOpen = true := hall _ List.mem_cons_self
        obtain ⟨probe, hprobe, hle⟩ := hs.probed es₁ pid' t before es' hold hopen
          (fun e he => hall e (List.mem_cons_of_mem _ he)) hopened
        have hpast := hs.past probe hprobe
        rw [Hist.push_world, hstate, onFailure, if_pos hopened]
        exact ⟨choice.now, rfl, by omega⟩
    · rw [Hist.push_world, hstate] at ht
      rw [Hist.push_world, hnow]
      replace ht : (if s.hist.world.state.isOpen then some choice.now
        else s.hist.world.state.lastHalfOpenProbeAt) = some t := ht
      split_ifs at ht
      · exact (Option.some.inj ht).symm.le
      · exact (hs.past t ht).trans hclock

/-- **One step** keeps the marks. -/
theorem Marks.step (hs : Marks s) (h : System.StepKind (system T ε cfg) s s') : Marks s' := by
  cases h with
  | start c => exact hs.idle (fun _ _ _ _ => by simp) _ _
  | run pid o k choice r w htask hexec =>
    cases o with
    | enter => exact hs.enter hexec _ _
    | settle startTime => exact hs.settle hexec _ _
  | finish pid a htask => exact hs.idle (fun _ _ _ _ => by simp) _ _
  | crash pid p htask => exact hs.idle (fun _ _ _ _ => by simp) _ _

/-- **Every run** keeps the marks. -/
theorem marks_of_reachable {clock : ℤ}
    (hr : (system T ε cfg).Reachable (.init ⟨{}, clock⟩) s) : Marks s := by
  refine (hr.rule (J := Marks) ⟨by simp [State.init], by simp [State.init],
    fun es pid t before es' htrace => ?_, by simp [State.init]⟩
      fun _ _ _ _ hs hstep _ => hs.step hstep).2
  exact absurd htrace.symm (List.append_ne_nil_of_right_ne_nil _ (List.cons_ne_nil _ _))

end Marks

/-! ### The open circuit -/

/-- **The open circuit holds** in every state of every run: whatever calls overlap and whatever the
monitor reports. -/
theorem holds_of_reachable {s : RunState T ε} {clock : ℤ}
    (hr : (system T ε cfg).Reachable (.init ⟨{}, clock⟩) s) : Holds cfg s := by
  have hmarks := marks_of_reachable hr
  have hprobe : ∀ pid (choice : Choice T ε) t w,
      exec cfg .enter pid choice s.hist.world = some (.started t, w) →
        s.hist.world.state.isOpen = true → t = choice.now ∧
          getAdaptiveTimeout cfg choice.report ≤ t - s.hist.world.state.lastFailureAt.getD 0 ∧
            cfg.minHalfOpenProbeIntervalMs ≤
              t - s.hist.world.state.lastHalfOpenProbeAt.getD 0 := by
    intro pid choice t w hexec hopen
    obtain ⟨-, -, ⟨e, hrefused, -⟩ | ⟨hstarted, hadmitted⟩⟩ := exec_enter hexec
    · cases hrefused
    · obtain rfl : t = choice.now := Entered.started.inj hstarted
      rcases admission_ok hadmitted with ⟨hclosed, -⟩ | ⟨-, htimeout, hinterval, -⟩
      · rw [hclosed] at hopen
        cases hopen
      · exact ⟨rfl, htimeout, hinterval⟩
  refine ⟨fun pid choice t w hexec hopen => ?_,
    fun pid choice t w hexec hopen es pid' t' before es' htrace hbefore hall => ?_,
    fun pid choice e w hexec => ?_⟩
  · obtain ⟨-, htimeout, -⟩ := hprobe pid choice t w hexec hopen
    obtain ⟨failedAt, hfailed⟩ := Option.ne_none_iff_exists'.mp (hmarks.opened hopen)
    refine ⟨failedAt, hmarks.failed failedAt hfailed, ?_⟩
    rw [hfailed, getAdaptiveTimeout] at htimeout
    replace htimeout : (if choice.report.isSlowOnly = true then cfg.baseTimeoutMs / 2
      else cfg.baseTimeoutMs) ≤ t - failedAt := htimeout
    unfold Config.baseTimeoutMs at htimeout ⊢
    split_ifs at htimeout with hslow
    · refine ⟨by omega, fun hnot => ?_⟩
      rw [hslow] at hnot
      cases hnot
    · exact ⟨by omega, fun _ => htimeout⟩
  · obtain ⟨-, -, hinterval⟩ := hprobe pid choice t w hexec hopen
    obtain ⟨probe, hset, hle⟩ := hmarks.probed es pid' t' before es' htrace hbefore hall hopen
    rw [hset] at hinterval
    replace hinterval : cfg.minHalfOpenProbeIntervalMs ≤ t - probe := hinterval
    omega
  · obtain ⟨-, -, ⟨_, -, hstate⟩ | ⟨hstarted, -⟩⟩ := exec_enter hexec
    · exact hstate
    · cases hstarted

namespace Sample

/-- A failure opens the circuit, and a call that follows at once is refused. -/
def schedule : List (Move (Choice Unit Unit) Unit) :=
  [.start (), .start (), .run 0 ⟨0, ⟨false, 0⟩, .ok ()⟩, .run 0 ⟨10, ⟨false, 0⟩, .error ()⟩,
    .run 1 ⟨20, ⟨false, 0⟩, .ok ()⟩, .finish 0, .finish 1]

end Sample

/-- A circuit that a failure has opened. -/
theorem holds_of_reachable_sample : ∃ s : RunState Unit Unit,
    (system Unit Unit { threshold := 1 }).Reachable (.init ⟨{}, 0⟩) s ∧
      s.hist.world.state = ⟨1, some 10, true, none⟩ ∧ Holds { threshold := 1 } s := by
  obtain ⟨s, hr, hstate⟩ := System.exists_of_replay (system Unit Unit { threshold := 1 })
    (fun _ _ => True) (.init ⟨{}, 0⟩) Sample.schedule
      (fun s => s.hist.world.state = ⟨1, some 10, true, none⟩) (by decide +kernel)
  exact ⟨s, hr, of_decide_eq_true hstate, holds_of_reachable hr⟩

end Ahjoor.CircuitBreaker
