import Ahjoor.Stellar.OpenCircuit

/-!
# Recovery

Whatever ends in success closes the circuit: `onSuccess` does not ask when its call has started. A
probe that was let through the open circuit is meant to close it; a call that was in flight when
the circuit opened closes it as well.
-/

namespace Ahjoor.CircuitBreaker

open Async

variable {T ε : Type} {cfg : Config}

/-! ### What is claimed -/

/-- A call that starts at `now` in this state is a half-open probe. -/
structure IsProbe (cfg : Config) (now : ℤ) (state : CircuitState) : Prop where
  opened : state.isOpen = true
  waited : ∃ report, getAdaptiveTimeout cfg report ≤ now - state.lastFailureAt.getD 0
  apart : shouldAttemptRecoveryProbe cfg state now = true

/-- Call `pid` was admitted as a probe among these events, and the circuit has stayed open since. -/
def AdmittedAsProbe (cfg : Config) (pid : ℕ) (es : Trace T ε) : Prop :=
  ∃ es₁ startTime before es₂, es = es₁ ++ Event.did pid .enter (.started startTime) before :: es₂ ∧
    IsProbe cfg startTime before.state ∧ OpenThroughout es₁

/-- The stretch is the end of a successful `fn`. -/
def Succeeds : (o : Op) → o.Ret T ε → Prop
  | .enter, _ => False
  | .settle _, settled => ∃ t, settled.outcome = .ok t

/-- Whenever the circuit has closed on the way to the world `w`, a probe has succeeded. -/
def ProbesClose (cfg : Config) (w : World) : Trace T ε → Prop
  | [] => True
  | .did pid o r before :: es =>
      (before.state.isOpen = true → w.state.isOpen = false →
        Succeeds o r ∧ AdmittedAsProbe cfg pid es) ∧ ProbesClose cfg before es
  | .start _ _ :: es | .returned _ _ :: es | .crashed _ :: es => ProbesClose cfg w es

/-- **Only probes close the circuit** in this run. -/
def OnlyProbesClose (cfg : Config) (s : RunState T ε) : Prop :=
  ProbesClose cfg s.hist.world s.hist.trace

/-! ### When it holds -/

/-- Call `pid` has started among these events, and every stretch from its start on took place in an
open circuit. -/
def startedOpen (pid : ℕ) : Trace T ε → Bool
  | [] => false
  | .did p .enter (.started _) before :: es =>
      before.state.isOpen && (p == pid || startedOpen pid es)
  | .did _ _ _ before :: es => before.state.isOpen && startedOpen pid es
  | .start _ _ :: es | .returned _ _ :: es | .crashed _ :: es => startedOpen pid es

/-- `fn` has ended in success. -/
def Settled.isOk (settled : Settled T ε) : Bool :=
  match settled.outcome with
  | .ok _ => true
  | .error _ => false

/-- **No late success**: a call that succeeds while the circuit is open has started after the
circuit had opened. -/
def noLateSuccess : Trace T ε → Bool
  | [] => true
  | .did pid (.settle _) settled before :: es =>
      (!settled.isOk || !before.state.isOpen || startedOpen pid es) && noLateSuccess es
  | .did _ .enter _ _ :: es => noLateSuccess es
  | .start _ _ :: es | .returned _ _ :: es | .crashed _ :: es => noLateSuccess es

/-! ### The calls started in an open circuit -/

theorem Settled.isOk_iff {settled : Settled T ε} :
    settled.isOk = true ↔ ∃ t, settled.outcome = .ok t := by
  unfold Settled.isOk
  split <;> simp_all

theorem openThroughout_nil : OpenThroughout ([] : Trace T ε) := fun e he => by cases he

/-- What has happened since a start, event by event. -/
theorem openThroughout_cons {e : Event (Op.Ret T ε) World Unit (Except (Failure ε) T)}
    {es : Trace T ε} : OpenThroughout (e :: es) ↔
      (match e with
        | .did _ _ _ before => before.state.isOpen = true
        | _ => True) ∧ OpenThroughout es :=
  List.forall_mem_cons

/-- A start before the event `e`. -/
theorem exists_cons_iff {pid : ℕ} {e : Event (Op.Ret T ε) World Unit (Except (Failure ε) T)}
    {es : Trace T ε} {P : ℤ → World → Prop} :
    (∃ es₁ t before es₂, e :: es = es₁ ++ Event.did pid .enter (.started t) before :: es₂ ∧ P t before ∧
        OpenThroughout es₁) ↔
      (∃ t before, e = .did pid .enter (.started t) before ∧ P t before) ∨
        (OpenThroughout [e] ∧ ∃ es₁ t before es₂,
          es = es₁ ++ Event.did pid .enter (.started t) before :: es₂ ∧ P t before ∧ OpenThroughout es₁) := by
  constructor
  · rintro ⟨es₁, t, before, es₂, htrace, hP, hopen⟩
    cases es₁ with
    | nil =>
      obtain ⟨rfl, rfl⟩ := List.cons.inj htrace
      exact .inl ⟨t, before, rfl, hP⟩
    | cons e' es₁ =>
      obtain ⟨rfl, rfl⟩ := List.cons.inj htrace
      obtain ⟨he, hrest⟩ := openThroughout_cons.mp hopen
      exact .inr ⟨openThroughout_cons.mpr ⟨he, openThroughout_nil⟩, es₁, t, before, es₂, rfl, hP, hrest⟩
  · rintro (⟨t, before, rfl, hP⟩ | ⟨he, es₁, t, before, es₂, rfl, hP, hopen⟩)
    · exact ⟨[], t, before, es, rfl, hP, openThroughout_nil⟩
    · exact ⟨e :: es₁, t, before, es₂, rfl, hP,
        openThroughout_cons.mpr ⟨(openThroughout_cons.mp he).1, hopen⟩⟩

/-- The start that `startedOpen` finds. -/
theorem startedOpen_iff {pid : ℕ} {es : Trace T ε} : startedOpen pid es = true ↔
    ∃ es₁ t before es₂, es = es₁ ++ Event.did pid .enter (.started t) before :: es₂ ∧
      before.state.isOpen = true ∧ OpenThroughout es₁ := by
  induction es with
  | nil => simp [startedOpen]
  | cons e es ih =>
    rw [exists_cons_iff (P := fun _ before => before.state.isOpen = true), ← ih]
    cases e with
    | did p o r before =>
      cases o with
      | settle startTime => simp [startedOpen, OpenThroughout]
      | enter =>
        cases r with
        | refused e => simp [startedOpen, OpenThroughout]
        | started t =>
          simp only [startedOpen, OpenThroughout, Bool.and_eq_true, Bool.or_eq_true, beq_iff_eq]
          constructor
          · rintro ⟨hopen, rfl | hrest⟩
            · exact .inl ⟨t, before, rfl, hopen⟩
            · exact .inr ⟨by simpa using hopen, hrest⟩
          · rintro (⟨t', before', heq, hopen⟩ | ⟨hopen, hrest⟩)
            · cases heq
              exact ⟨hopen, .inl rfl⟩
            · exact ⟨by simpa using hopen, .inr hrest⟩
    | start p c => simp [startedOpen, OpenThroughout]
    | returned p a => simp [startedOpen, OpenThroughout]
    | crashed p => simp [startedOpen, OpenThroughout]

/-! ### The stretches -/

section Stretches

variable {pid : ℕ} {choice : Choice T ε} {w w' : World}

/-- Entering neither opens nor closes the circuit. -/
theorem isOpen_of_enter {r : Entered} (h : exec cfg .enter pid choice w = some (r, w')) :
    w'.state.isOpen = w.state.isOpen := by
  obtain ⟨-, -, ⟨e, -, hstate⟩ | ⟨-, hadmitted⟩⟩ := exec_enter h
  · rw [hstate]
  · rcases admission_ok hadmitted with ⟨-, hstate⟩ | ⟨-, -, -, hstate⟩ <;> rw [hstate]

/-- A call that is let through the open circuit is a probe. -/
theorem isProbe_of_started {t : ℤ} (h : exec cfg .enter pid choice w = some (.started t, w'))
    (hopen : w.state.isOpen = true) : IsProbe cfg t w.state := by
  obtain ⟨-, -, ⟨e, hrefused, -⟩ | ⟨hstarted, hadmitted⟩⟩ := exec_enter h
  · cases hrefused
  · obtain rfl : t = choice.now := Entered.started.inj hstarted
    rcases admission_ok hadmitted with ⟨hclosed, -⟩ | ⟨-, htimeout, hinterval, -⟩
    · rw [hclosed] at hopen
      cases hopen
    · exact ⟨hopen, ⟨_, htimeout⟩, decide_eq_true hinterval⟩

/-- An end of `fn` leaves an open circuit closed exactly when it is a success. -/
theorem isOpen_of_settle {startTime : ℤ} {r : Settled T ε}
    (h : exec cfg (.settle startTime) pid choice w = some (r, w')) (hopen : w.state.isOpen = true) :
    w'.state.isOpen = !r.isOk := by
  obtain ⟨-, -, -, ⟨⟨t, ht⟩, hstate⟩ | ⟨⟨e, he⟩, hstate⟩⟩ := exec_settle h
  · rw [hstate, Settled.isOk, ht]
    rfl
  · rw [hstate, Settled.isOk, he]
    simp [onFailure, hopen]

end Stretches

/-! ### Runs -/

/-- Every call that was let through the open circuit is a probe. -/
def Admitted (cfg : Config) (es : Trace T ε) : Prop :=
  ∀ pid t before, .did pid .enter (.started t) before ∈ es → before.state.isOpen = true →
    IsProbe cfg t before.state

section Runs

variable {s s' : RunState T ε}

/-- **One step** lets only probes through an open circuit. -/
theorem Admitted.step (hs : Admitted cfg s.hist.trace) (h : System.StepKind (system T ε cfg) s s') :
    Admitted cfg s'.hist.trace := by
  intro pid t before hmem hopen
  cases h with
  | run pid' o k choice r w htask hexec =>
    rcases List.mem_cons.mp hmem with heq | hold
    · cases heq
      have henter : exec cfg .enter pid choice s.hist.world = some (.started t, w) := hexec
      exact isProbe_of_started henter hopen
    · exact hs pid t before hold hopen
  | start c => exact hs pid t before (by simpa using hmem) hopen
  | finish pid' a htask => exact hs pid t before (by simpa using hmem) hopen
  | crash pid' p htask => exact hs pid t before (by simpa using hmem) hopen

/-- Where only probes are let through, a call that has started in the open circuit is one. -/
theorem Admitted.admittedAsProbe {es : Trace T ε} (hs : Admitted cfg es) (pid : ℕ) :
    AdmittedAsProbe cfg pid es ↔ startedOpen pid es = true := by
  rw [startedOpen_iff]
  constructor
  · rintro ⟨es₁, t, before, es₂, htrace, hprobe, hopen⟩
    exact ⟨es₁, t, before, es₂, htrace, hprobe.opened, hopen⟩
  · rintro ⟨es₁, t, before, es₂, htrace, hbefore, hopen⟩
    have hmem : .did pid .enter (.started t) before ∈ es := by simp [htrace]
    exact ⟨es₁, t, before, es₂, htrace, hs pid t before hmem hbefore, hopen⟩

/-- The two accounts of a run agree, and only probes have been let through. -/
structure Accounted (cfg : Config) (s : RunState T ε) : Prop where
  admitted : Admitted cfg s.hist.trace
  agree : OnlyProbesClose cfg s ↔ noLateSuccess s.hist.trace = true

/-- **One step** keeps the accounts in agreement. -/
theorem Accounted.step (hs : Accounted cfg s) (h : System.StepKind (system T ε cfg) s s') :
    Accounted cfg s' := by
  refine ⟨hs.admitted.step h, ?_⟩
  have hagree := hs.agree
  unfold OnlyProbesClose at hagree ⊢
  cases h with
  | start c => exact hagree
  | finish pid a htask => exact hagree
  | crash pid p htask => exact hagree
  | run pid o k choice r w htask hexec =>
    simp only [Hist.push_world, Hist.push_trace, ProbesClose]
    cases o with
    | enter =>
      rw [noLateSuccess, ← hagree, and_iff_right_iff_imp]
      have henter : exec cfg .enter pid choice s.hist.world = some (r, w) := hexec
      intro _ hopen hclosed
      rw [isOpen_of_enter henter, hopen] at hclosed
      cases hclosed
    | settle startTime =>
      rw [noLateSuccess, Bool.and_eq_true, ← hagree]
      refine and_congr_left fun _ => ?_
      cases hopen : s.hist.world.state.isOpen with
      | false => simp
      | true =>
        have hsettle : exec cfg (.settle startTime) pid choice s.hist.world = some (r, w) := hexec
        have hsucceeds : Succeeds (.settle startTime) r ↔ r.isOk = true := Settled.isOk_iff.symm
        rw [isOpen_of_settle hsettle hopen, hsucceeds, hs.admitted.admittedAsProbe pid]
        cases r.isOk <;> simp

/-- **Every run** keeps the accounts in agreement. -/
theorem accounted_of_reachable {clock : ℤ}
    (hr : (system T ε cfg).Reachable (.init ⟨{}, clock⟩) s) : Accounted cfg s :=
  (hr.rule (J := Accounted cfg)
    ⟨by simp [Admitted, State.init], by simp [OnlyProbesClose, State.init, ProbesClose, noLateSuccess]⟩
      fun _ _ _ _ hs hstep _ => hs.step hstep).2

/-- **Only probes close the circuit** in exactly the runs without a late success: whatever calls
overlap, however `fn` ends and whatever the monitor reports. -/
theorem onlyProbesClose_iff {clock : ℤ} (hr : (system T ε cfg).Reachable (.init ⟨{}, clock⟩) s) :
    OnlyProbesClose cfg s ↔ noLateSuccess s.hist.trace = true :=
  (accounted_of_reachable hr).agree

end Runs

namespace Sample

/-- The moves of the samples. -/
abbrev Moves := List (Move (Choice Unit Unit) Unit)

/-- Six calls are in flight; five fail and open the circuit, then the sixth succeeds. -/
def lateSuccess : Moves :=
  ((List.range 6).map fun _ => .start () : Moves) ++
    ((List.range 6).map fun pid => .run pid ⟨0, ⟨false, 0⟩, .ok ()⟩ : Moves) ++
    ((List.range 5).map fun n => .run (n + 1) ⟨10, ⟨false, 1⟩, .error ()⟩ : Moves) ++
    ([.run 0 ⟨20, ⟨false, 1⟩, .ok ()⟩] : Moves)

/-- Five failures open the circuit, and a probe closes it. -/
def probe : Moves :=
  ((List.range 6).map fun _ => .start () : Moves) ++
    ((List.range 5).map fun pid => .run pid ⟨0, ⟨false, 0⟩, .ok ()⟩ : Moves) ++
    ((List.range 5).map fun pid => .run pid ⟨10, ⟨false, 1⟩, .error ()⟩ : Moves) ++
    ([.run 5 ⟨60010, ⟨false, 1⟩, .ok ()⟩, .run 5 ⟨60020, ⟨false, 1⟩, .ok ()⟩] : Moves)

end Sample

/-- A probe closes the circuit. -/
theorem onlyProbesClose_iff_sample : ∃ s : RunState Unit Unit,
    (system Unit Unit {}).Reachable (.init ⟨{}, 0⟩) s ∧ s.hist.world.state = {} ∧
      OnlyProbesClose {} s := by
  obtain ⟨s, hr, hs⟩ := System.exists_of_replay (system Unit Unit {}) (fun _ _ => True)
    (.init ⟨{}, 0⟩) Sample.probe
    (fun s => s.hist.world.state = {} ∧ noLateSuccess s.hist.trace = true) (by decide +kernel)
  obtain ⟨hstate, hlate⟩ := of_decide_eq_true hs
  exact ⟨s, hr, hstate, (onlyProbesClose_iff hr).mpr hlate⟩

/-- A call that has started before the circuit opened closes it. -/
theorem lateSuccess_closes : ¬ ∀ s : RunState Unit Unit,
    (system Unit Unit {}).Reachable (.init ⟨{}, 0⟩) s → OnlyProbesClose {} s := by
  intro hall
  obtain ⟨s, hr, hs⟩ := System.exists_of_replay (system Unit Unit {}) (fun _ _ => True)
    (.init ⟨{}, 0⟩) Sample.lateSuccess (fun s => noLateSuccess s.hist.trace = false)
      (by decide +kernel)
  have haccounted := accounted_of_reachable hr
  have hlate : noLateSuccess s.hist.trace = false := of_decide_eq_true hs
  rw [haccounted.agree.mp (hall s hr)] at hlate
  cases hlate

end Ahjoor.CircuitBreaker
