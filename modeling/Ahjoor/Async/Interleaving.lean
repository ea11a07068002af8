import Ahjoor.Async.Routine
import Mathlib.Logic.Relation

/-!
# Interleaved runs of asynchronous calls

A `System` says what each operation does to a shared world and which calls exist. Its runs
start calls at any time, let any pending call perform its next operation atomically, and
drop (crash) any call at any of its awaits. The environment's freedom inside one operation
(a lost reply, a network answer) is an explicit `choice`, so a run is replayed by a list of
`Move`s and a concrete schedule evaluates.

A run keeps its `Hist`: the current world together with the list of lifecycle and operation
events, newest first. An operation's event carries its reply and the world it was performed
in, so that a property of a run can speak of what a call had read. `Step S ok` restricts the
steps by a condition `ok` on the history before and after; the plain runs take `ok` to be
trivially true.
-/

namespace Async

/-- What an operation does: under each `choice` of the environment it either is not
possible or yields a reply and the next world. `pid` is the call that performs it. -/
structure System {Op : Type} (Ret : Op → Type) (Choice World Call α : Type) where
  exec : (o : Op) → ℕ → Choice → World → Option (Ret o × World)
  body : Call → Prog Ret α

variable {Op : Type} {Ret : Op → Type} {Choice World Call α : Type}

/-! ### Events and histories -/

/-- The lifecycle of a call and the operations it performs. -/
inductive Event (Ret : Op → Type) (World Call α : Type) : Type
  | start (pid : ℕ) (c : Call)
  | did (pid : ℕ) (o : Op) (r : Ret o) (before : World)
  | returned (pid : ℕ) (a : α)
  | crashed (pid : ℕ)

/-- The call an event belongs to. -/
def Event.pid : Event Ret World Call α → ℕ
  | start p _ | did p _ _ _ | returned p _ | crashed p => p

@[simp] theorem Event.pid_start (p : ℕ) (c : Call) :
    (start p c : Event Ret World Call α).pid = p := rfl

@[simp] theorem Event.pid_did (p : ℕ) (o : Op) (r : Ret o) (w : World) :
    (did p o r w : Event Ret World Call α).pid = p := rfl

@[simp] theorem Event.pid_returned (p : ℕ) (a : α) :
    (returned p a : Event Ret World Call α).pid = p := rfl

@[simp] theorem Event.pid_crashed (p : ℕ) :
    (crashed p : Event Ret World Call α).pid = p := rfl

/-- The event ends its call. -/
def Event.isEnd : Event Ret World Call α → Bool
  | start _ _ | did _ _ _ _ => false
  | returned _ _ | crashed _ => true

/-- The world and the events that led to it, newest first. -/
structure Hist (Ret : Op → Type) (World Call α : Type) where
  world : World
  trace : List (Event Ret World Call α)

/-- Record an event and its resulting world. -/
def Hist.push (h : Hist Ret World Call α) (e : Event Ret World Call α) (w : World) :
    Hist Ret World Call α :=
  ⟨w, e :: h.trace⟩

@[simp] theorem Hist.push_world (h : Hist Ret World Call α) (e : Event Ret World Call α)
    (w : World) : (h.push e w).world = w := rfl

@[simp] theorem Hist.push_trace (h : Hist Ret World Call α) (e : Event Ret World Call α)
    (w : World) : (h.push e w).trace = e :: h.trace := rfl

/-! ### States and steps -/

/-- A run's state: its history, how many calls were started, and what is left of each call
that is neither finished nor crashed. -/
structure State (Ret : Op → Type) (World Call α : Type) where
  hist : Hist Ret World Call α
  started : ℕ
  task : ℕ → Option (Prog Ret α)

/-- No call started yet. -/
def State.init (w : World) : State Ret World Call α := ⟨⟨w, []⟩, 0, fun _ => none⟩

/-- No call is in flight. -/
def State.Quiet (s : State Ret World Call α) : Prop := ∀ pid, s.task pid = none

/-- One scheduling decision. -/
inductive Move (Choice Call : Type) : Type
  | start (c : Call)
  | run (pid : ℕ) (choice : Choice)
  | finish (pid : ℕ)
  | crash (pid : ℕ)

namespace System

variable (S : System Ret Choice World Call α)

/-- Replay one scheduling decision. -/
def move (s : State Ret World Call α) : Move Choice Call → Option (State Ret World Call α)
  | .start c =>
      some ⟨s.hist.push (.start s.started c) s.hist.world, s.started + 1,
        Function.update s.task s.started (some (S.body c))⟩
  | .run pid choice =>
      match s.task pid with
      | some (.op o k) =>
          (S.exec o pid choice s.hist.world).map fun rw =>
            ⟨s.hist.push (.did pid o rw.1 s.hist.world) rw.2, s.started,
              Function.update s.task pid (some (k rw.1))⟩
      | _ => none
  | .finish pid =>
      match s.task pid with
      | some (.ret a) =>
          some ⟨s.hist.push (.returned pid a) s.hist.world, s.started,
            Function.update s.task pid none⟩
      | _ => none
  | .crash pid =>
      match s.task pid with
      | some _ =>
          some ⟨s.hist.push (.crashed pid) s.hist.world, s.started,
            Function.update s.task pid none⟩
      | none => none

/-- Replay a schedule, as far as its steps meet the condition `ok` on the history before and
after. -/
def replay (ok : Hist Ret World Call α → Hist Ret World Call α → Prop) [DecidableRel ok]
    (s : State Ret World Call α) : List (Move Choice Call) → Option (State Ret World Call α)
  | [] => some s
  | m :: ms => (S.move s m).bind fun s' => if ok s.hist s'.hist then replay ok s' ms else none

/-- One step of a run whose steps meet the condition `ok` on the history before and
after. -/
def Step (ok : Hist Ret World Call α → Hist Ret World Call α → Prop)
    (s s' : State Ret World Call α) : Prop :=
  (∃ m, S.move s m = some s') ∧ ok s.hist s'.hist

/-- The states of the runs from `s` whose steps meet `ok`. -/
def ReachableWhen (ok : Hist Ret World Call α → Hist Ret World Call α → Prop)
    (s s' : State Ret World Call α) : Prop :=
  Relation.ReflTransGen (S.Step ok) s s'

/-- The states of all runs from `s`. -/
def Reachable (s s' : State Ret World Call α) : Prop :=
  S.ReachableWhen (fun _ _ => True) s s'

variable {S}

theorem ReachableWhen.mono {ok ok' : Hist Ret World Call α → Hist Ret World Call α → Prop}
    (hok : ∀ h h', ok h h' → ok' h h') {s s' : State Ret World Call α}
    (hr : S.ReachableWhen ok s s') : S.ReachableWhen ok' s s' :=
  Relation.ReflTransGen.mono (fun _ _ h => ⟨h.1, hok _ _ h.2⟩) _ _ hr

variable {ok : Hist Ret World Call α → Hist Ret World Call α → Prop} [DecidableRel ok]

/-- A schedule that replays ends in a reachable state. -/
theorem reachableWhen_of_replay {s s' : State Ret World Call α} {ms : List (Move Choice Call)}
    (h : S.replay ok s ms = some s') : S.ReachableWhen ok s s' := by
  induction ms generalizing s with
  | nil =>
    obtain rfl : s = s' := by simpa [replay] using h
    exact .refl
  | cons m ms ih =>
    obtain ⟨s₁, hm, hms⟩ := Option.bind_eq_some_iff.mp h
    split at hms
    next hok => exact .head ⟨⟨m, hm⟩, hok⟩ (ih hms)
    next => cases hms

theorem exists_of_any {γ : Type} {x : Option γ} {p : γ → Bool} (h : x.any p = true) :
    ∃ a, x = some a ∧ p a = true := by
  cases x with
  | none => cases h
  | some a => exact ⟨a, rfl, h⟩

variable (S ok) in
/-- A property decided along a schedule holds in some reachable state. -/
theorem exists_of_replay (s : State Ret World Call α) (ms : List (Move Choice Call))
    (p : State Ret World Call α → Bool) (h : (S.replay ok s ms).any p = true) :
    ∃ s', S.ReachableWhen ok s s' ∧ p s' = true := by
  obtain ⟨s', hs, hp⟩ := exists_of_any h
  exact ⟨s', reachableWhen_of_replay hs, hp⟩

variable (S ok) in
/-- Two properties decided along a schedule hold one after the other in some run. -/
theorem exists_of_replay₂ (s : State Ret World Call α) (ms ms' : List (Move Choice Call))
    (p p' : State Ret World Call α → Bool)
    (h : ((S.replay ok s ms).any fun s₁ => p s₁ && (S.replay ok s₁ ms').any p') = true) :
    ∃ s₁ s₂, S.ReachableWhen ok s s₁ ∧ S.ReachableWhen ok s₁ s₂ ∧ p s₁ = true ∧ p' s₂ = true := by
  obtain ⟨s₁, hr, hs₁⟩ := exists_of_replay S ok _ _ _ h
  obtain ⟨hp, hnext⟩ := Bool.and_eq_true_iff.mp hs₁
  obtain ⟨s₂, hr', hp'⟩ := exists_of_replay S ok _ _ _ hnext
  exact ⟨s₁, s₂, hr, hr', hp, hp'⟩

/-! ### The four kinds of step, inverted once -/

/-- Everything a step can do. -/
inductive StepKind (S : System Ret Choice World Call α) (s : State Ret World Call α) :
    State Ret World Call α → Prop
  | start (c : Call) :
      StepKind S s ⟨s.hist.push (.start s.started c) s.hist.world, s.started + 1,
        Function.update s.task s.started (some (S.body c))⟩
  | run (pid : ℕ) (o : Op) (k : Ret o → Prog Ret α) (choice : Choice) (r : Ret o)
      (w : World) (htask : s.task pid = some (.op o k))
      (hexec : S.exec o pid choice s.hist.world = some (r, w)) :
      StepKind S s ⟨s.hist.push (.did pid o r s.hist.world) w, s.started,
        Function.update s.task pid (some (k r))⟩
  | finish (pid : ℕ) (a : α) (htask : s.task pid = some (.ret a)) :
      StepKind S s ⟨s.hist.push (.returned pid a) s.hist.world, s.started,
        Function.update s.task pid none⟩
  | crash (pid : ℕ) (p : Prog Ret α) (htask : s.task pid = some p) :
      StepKind S s ⟨s.hist.push (.crashed pid) s.hist.world, s.started,
        Function.update s.task pid none⟩

theorem stepKind_of_move {s s' : State Ret World Call α} {m : Move Choice Call}
    (h : S.move s m = some s') : StepKind S s s' := by
  cases m with
  | start c =>
    obtain rfl := Option.some.inj h
    exact .start c
  | run pid choice =>
    simp only [move] at h
    split at h
    next o k htask =>
      obtain ⟨⟨r, w⟩, hexec, rfl⟩ := Option.map_eq_some_iff.mp h
      exact .run pid o k choice r w htask hexec
    next => cases h
  | finish pid =>
    simp only [move] at h
    split at h
    next a htask =>
      obtain rfl := Option.some.inj h
      exact .finish pid a htask
    next => cases h
  | crash pid =>
    simp only [move] at h
    split at h
    next p htask =>
      obtain rfl := Option.some.inj h
      exact .crash pid p htask
    next => cases h

/-! ### The life of a call -/

/-- Calls are numbered in the order of their starts, an event belongs to a call that has
started, and a call is in flight exactly until an event ends it. -/
structure Lifecycle (s : State Ret World Call α) : Prop where
  lt_started : ∀ e ∈ s.hist.trace, e.pid < s.started
  start_mem : ∀ pid < s.started, ∃ c, Event.start pid c ∈ s.hist.trace
  start_unique : ∀ pid c c', Event.start pid c ∈ s.hist.trace →
    Event.start pid c' ∈ s.hist.trace → c = c'
  running : ∀ pid p, s.task pid = some p →
    pid < s.started ∧ ∀ e ∈ s.hist.trace, e.isEnd = true → e.pid ≠ pid
  ended : ∀ pid < s.started, s.task pid = none → ∃ e ∈ s.hist.trace, e.isEnd = true ∧ e.pid = pid

/-- No call is in flight when every event's call has ended. -/
theorem Lifecycle.quiet {s : State Ret World Call α} (hl : Lifecycle s)
    (h : ∀ e ∈ s.hist.trace, ∃ e' ∈ s.hist.trace, e'.isEnd = true ∧ e'.pid = e.pid) : s.Quiet := by
  intro pid
  by_contra hne
  obtain ⟨p, hp⟩ := Option.ne_none_iff_exists'.mp hne
  obtain ⟨hlt, hopen⟩ := hl.running pid p hp
  obtain ⟨c, hstart⟩ := hl.start_mem pid hlt
  obtain ⟨e, he, hend, heq⟩ := h _ hstart
  exact hopen e he hend heq

theorem lifecycle_init (w : World) : Lifecycle (State.init w : State Ret World Call α) where
  lt_started := by simp [State.init]
  start_mem := by simp [State.init]
  start_unique := by simp [State.init]
  running := by simp [State.init]
  ended := by simp [State.init]

/-- A call's own event, other than a start, keeps the lifecycle when its task is replaced and
is dropped exactly by an end. -/
theorem Lifecycle.update {s : State Ret World Call α} (hs : Lifecycle s)
    {e : Event Ret World Call α} (hstart : ∀ c, e ≠ .start e.pid c) (w : World)
    {p : Prog Ret α} (htask : s.task e.pid = some p) {p? : Option (Prog Ret α)}
    (hp : p?.isSome = !e.isEnd) :
    Lifecycle (⟨s.hist.push e w, s.started, Function.update s.task e.pid p?⟩ :
      State Ret World Call α) where
  lt_started e' he' := by
    rcases List.mem_cons.mp he' with rfl | he'
    · exact (hs.running _ _ htask).1
    · exact hs.lt_started e' he'
  start_mem pid hpid := by
    obtain ⟨c, hc⟩ := hs.start_mem pid hpid
    exact ⟨c, List.mem_cons_of_mem _ hc⟩
  start_unique pid c c' h h' := by
    have old : ∀ c, Event.start pid c ∈ (s.hist.push e w).trace →
        Event.start pid c ∈ s.hist.trace := fun c hc =>
      (List.mem_cons.mp hc).resolve_left fun heq => hstart c (by rw [← heq]; rfl)
    exact hs.start_unique pid c c' (old c h) (old c' h')
  running pid q hq := by
    by_cases hpid : pid = e.pid
    · subst hpid
      obtain rfl : p? = some q := by simpa using hq
      refine ⟨(hs.running _ _ htask).1, fun e' he' hend => ?_⟩
      rcases List.mem_cons.mp he' with rfl | he'
      · simp [hend] at hp
      · exact (hs.running _ _ htask).2 e' he' hend
    · obtain ⟨hlt, hnone⟩ := hs.running pid q (by simpa [hpid] using hq)
      refine ⟨hlt, fun e' he' hend => ?_⟩
      rcases List.mem_cons.mp he' with rfl | he'
      · exact fun h => hpid h.symm
      · exact hnone e' he' hend
  ended pid hlt hnone := by
    by_cases hpid : pid = e.pid
    · subst hpid
      obtain rfl : p? = none := by simpa using hnone
      exact ⟨e, List.mem_cons_self, by simpa using hp, rfl⟩
    · obtain ⟨e', he', hend, hpid'⟩ := hs.ended pid hlt (by simpa [hpid] using hnone)
      exact ⟨e', List.mem_cons_of_mem _ he', hend, hpid'⟩

theorem Lifecycle.step {s s' : State Ret World Call α} (hs : Lifecycle s)
    (h : StepKind S s s') : Lifecycle s' := by
  cases h with
  | start c =>
    have hnew : ∀ e ∈ s.hist.trace, e.pid ≠ s.started := fun e he => Nat.ne_of_lt (hs.lt_started e he)
    refine ⟨fun e he => ?_, fun pid hpid => ?_, fun pid c₁ c₂ h₁ h₂ => ?_, fun pid p hp => ?_,
      fun pid hlt hnone => ?_⟩
    · rcases List.mem_cons.mp he with rfl | he
      · exact Nat.lt_succ_self _
      · exact Nat.lt_succ_of_lt (hs.lt_started e he)
    · rcases Nat.lt_succ_iff_lt_or_eq.mp hpid with hlt | rfl
      · obtain ⟨c', hc'⟩ := hs.start_mem pid hlt
        exact ⟨c', List.mem_cons_of_mem _ hc'⟩
      · exact ⟨c, List.mem_cons_self⟩
    · rcases List.mem_cons.mp h₁ with h₁ | h₁ <;> rcases List.mem_cons.mp h₂ with h₂ | h₂
      · cases h₁; cases h₂; rfl
      · cases h₁; exact absurd rfl (hnew _ h₂)
      · cases h₂; exact absurd rfl (hnew _ h₁)
      · exact hs.start_unique pid c₁ c₂ h₁ h₂
    · by_cases hpid : pid = s.started
      · subst hpid
        refine ⟨Nat.lt_succ_self _, fun e he hend => ?_⟩
        rcases List.mem_cons.mp he with rfl | he
        · simp [Event.isEnd] at hend
        · exact hnew e he
      · obtain ⟨hlt, hnone⟩ := hs.running pid p (by simpa [hpid] using hp)
        refine ⟨Nat.lt_succ_of_lt hlt, fun e he hend => ?_⟩
        rcases List.mem_cons.mp he with rfl | he
        · simp [Event.isEnd] at hend
        · exact hnone e he hend
    · by_cases hpid : pid = s.started
      · subst hpid
        simp at hnone
      · have hlt' : pid < s.started := Nat.lt_of_le_of_ne (Nat.lt_succ_iff.mp hlt) hpid
        obtain ⟨e, he, hend, hepid⟩ := hs.ended pid hlt' (by simpa [hpid] using hnone)
        exact ⟨e, List.mem_cons_of_mem _ he, hend, hepid⟩
  | run pid o k choice r w htask hexec =>
    exact hs.update (e := .did pid o r _) (fun c => by simp) w htask rfl
  | finish pid a htask =>
    exact hs.update (e := .returned pid a) (fun c => by simp) _ htask rfl
  | crash pid p htask =>
    exact hs.update (e := .crashed pid) (fun c => by simp) _ htask rfl

theorem exists_of_update {β : Type} {f : ℕ → Option β} {n m : ℕ} {x : Option β} {a b : β}
    (hn : f n = some a) (h : Function.update f n x m = some b) : ∃ b', f m = some b' := by
  by_cases hm : m = n
  · exact ⟨a, hm ▸ hn⟩
  · rw [Function.update_of_ne hm] at h
    exact ⟨b, h⟩

/-- A call in flight after a step was in flight before it, or the step has started it. -/
theorem Lifecycle.live {s s' : State Ret World Call α} (hl : Lifecycle s) (h : StepKind S s s')
    {pid : ℕ} {c : Call} {p : Prog Ret α} (hstart : Event.start pid c ∈ s'.hist.trace)
    (htask : s'.task pid = some p) :
    (Event.start pid c ∈ s.hist.trace ∧ ∃ p', s.task pid = some p') ∨
      s'.hist.trace = .start pid c :: s.hist.trace := by
  cases h with
  | start c' =>
    rcases List.mem_cons.mp hstart with heq | hold
    · cases heq
      exact .inr rfl
    · have hne : pid ≠ s.started := Nat.ne_of_lt (hl.lt_started _ hold)
      replace htask : Function.update s.task s.started (some (S.body c')) pid = some p := htask
      rw [Function.update_of_ne hne] at htask
      exact .inl ⟨hold, p, htask⟩
  | run pid' o k choice r w htask' hexec =>
    exact .inl ⟨by simpa using hstart, exists_of_update htask' htask⟩
  | finish pid' a htask' => exact .inl ⟨by simpa using hstart, exists_of_update htask' htask⟩
  | crash pid' q htask' => exact .inl ⟨by simpa using hstart, exists_of_update htask' htask⟩

/-- **The rule for runs**: what holds at first and is kept by every step that meets `ok` holds
in every state of every such run; a step may rely on the lifecycle of both states. -/
theorem ReachableWhen.rule {ok : Hist Ret World Call α → Hist Ret World Call α → Prop}
    {J : State Ret World Call α → Prop} {w : World} (h₀ : J (.init w))
    (hstep : ∀ s s', Lifecycle s → Lifecycle s' → J s → StepKind S s s' → ok s.hist s'.hist → J s')
    {s : State Ret World Call α} (hr : S.ReachableWhen ok (.init w) s) : Lifecycle s ∧ J s := by
  induction hr with
  | refl => exact ⟨lifecycle_init w, h₀⟩
  | tail _ hmove ih =>
    obtain ⟨⟨m, hm⟩, hok⟩ := hmove
    have hkind := stepKind_of_move hm
    exact ⟨ih.1.step hkind, hstep _ _ ih.1 (ih.1.step hkind) ih.2 hkind hok⟩

/-- Every call of the run has ended. -/
def ended (s : State Ret World Call α) : Bool :=
  s.hist.trace.all fun e => s.hist.trace.any fun e' => e'.isEnd && e'.pid == e.pid

theorem quiet_of_ended {ok : Hist Ret World Call α → Hist Ret World Call α → Prop} {w : World}
    {s : State Ret World Call α} (hr : S.ReachableWhen ok (.init w) s) (h : ended s = true) :
    s.Quiet := by
  refine (hr.rule (J := fun _ => True) trivial fun _ _ _ _ _ _ _ => trivial).1.quiet ?_
  intro e he
  obtain ⟨e', he', hend⟩ := List.any_eq_true.mp (List.all_eq_true.mp h e he)
  exact ⟨e', he', by simpa using hend⟩

end System

end Async
