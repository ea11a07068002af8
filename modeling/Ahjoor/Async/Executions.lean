import Ahjoor.Async.Discipline
import Mathlib.Algebra.Order.BigOperators.Group.Finset

/-!
# What a part of a body has performed

A discipline can only speak of the log of a call. `Follows.ends` lets it speak of a whole part of the
body: when the part is over, the log is the one that an execution of the part (`Ends`) leaves. So a later
operation of the body can be allowed *because* the part has been performed to its end, or has thrown.

The logs of a run only grow (`HistStep.log_suffix`), so that what a part has performed stays performed;
and what is counted over all events of a run (`total`) is the sum of what is counted in the logs of its
calls (`total_eq_sum`).
-/

namespace Async

variable {Op : Type} {Ret : Op → Type} {Choice World Call ρ α β σ ε : Type}

/-- A routine that performs such operations performs others, if these are. -/
theorem Routine.Performs.mono {P P' : Op → Prop} {m : Routine Ret σ ε α} (hm : m.Performs P)
    (h : ∀ o, P o → P' o) : m.Performs P' :=
  fun s => (hm s).mono h

/-! ### Parts that are performed to their end -/

/-- **A part of a body**, all of whose operations are admitted, comes to an end by an execution. -/
theorem Follows.ends {D : Log Ret → Op → Prop} {P : Op → Prop} {R : α → Prop} {A : Log Ret → Prop}
    (hA : Admits D P A) {p : Prog Ret α} (hp : p.Uses P R) {L : Log Ret} (h : A L) :
    Follows D (fun a L' => Ends (fun _ => True) p L a L' ∧ A L') p L := by
  induction p generalizing L with
  | ret a => exact ⟨.ret a L, h⟩
  | op o k ih =>
    refine ⟨hA.allowed L o h hp.1, fun r => ?_⟩
    refine (ih r (hp.2 r) (hA.kept L o r h hp.1)).mono fun a L' h' => ?_
    exact ⟨.op r trivial h'.1, h'.2⟩

/-- The same for a routine. -/
theorem Obeys.ends {D : Log Ret → Op → Prop} {P : Op → Prop} {A : Log Ret → Prop}
    (hA : Admits D P A) {m : Routine Ret σ ε α} (hm : m.Performs P) {s : σ} {L : Log Ret} (h : A L) :
    Obeys D m (fun a t L' => Ends (fun _ => True) (m s) L (.ok a, t) L' ∧ A L')
      (fun e t L' => Ends (fun _ => True) (m s) L (.error e, t) L' ∧ A L') s L := by
  refine ⟨(Follows.ends hA (hm s) h).mono fun x L' hx => ?_⟩
  rcases x with ⟨e | a, t⟩ <;> exact hx

/-- Two disciplines at once. -/
theorem Follows.and {D D' : Log Ret → Op → Prop} {Q Q' : α → Log Ret → Prop} {p : Prog Ret α}
    {L : Log Ret} (h : Follows D Q p L) (h' : Follows D' Q' p L) :
    Follows (fun L o => D L o ∧ D' L o) (fun a L => Q a L ∧ Q' a L) p L := by
  induction p generalizing L with
  | ret a => exact ⟨h, h'⟩
  | op o k ih => exact ⟨⟨h.1, h'.1⟩, fun r => ih r (h.2 r) (h'.2 r)⟩

/-! ### Logs of a run -/

/-- A discipline that allows more. -/
theorem HistStep.weaken {S : System Ret Choice World Call ρ} {D D' : Call → Log Ret → Op → Prop}
    {h h' : Hist Ret World Call ρ} (hs : HistStep S D h h') (hD : ∀ c L o, D c L o → D' c L o) :
    HistStep S D' h h' := by
  cases hs with
  | idle e he hlive => exact .idle e he hlive
  | did pid c o choice r w hstart hallowed hexec hlive =>
    exact .did pid c o choice r w hstart (hD _ _ _ hallowed) hexec hlive

theorem Lawful.weaken {D D' : Log Ret → Op → Prop} {L : Log Ret} (h : Lawful D L)
    (hD : ∀ L o, D L o → D' L o) : Lawful D' L := by
  induction L with
  | nil => trivial
  | cons e L ih => exact ⟨hD _ _ h.1, ih h.2⟩

/-- Where all calls have one discipline, every log is lawful. -/
theorem Disciplined.lawful_log {D : Log Ret → Op → Prop} {Q : Call → ρ → Log Ret → Prop}
    {h : Hist Ret World Call ρ} (hd : Disciplined (fun _ => D) Q h) (pid : ℕ) :
    Lawful D (log pid h.trace) := by
  by_cases hstart : ∃ c, Event.start pid c ∈ h.trace
  · obtain ⟨c, hc⟩ := hstart
    exact hd.lawful pid c hc
  · rw [log_eq_nil]
    · trivial
    · rintro e he rfl
      exact hstart (hd.start_mem e he)

/-- What another event leaves on top of a log. -/
theorem log_suffix_cons (pid : ℕ) (e : Event Ret World Call ρ) (es : List (Event Ret World Call ρ)) :
    log pid es <:+ log pid (e :: es) := by
  by_cases he : e.pid = pid
  · cases e with
    | did p o r w =>
      obtain rfl : p = pid := he
      rw [log_did_self]
      exact List.suffix_cons _ _
    | _ => exact List.suffix_refl _
  · exact (log_cons_of_ne he es).symm ▸ List.suffix_refl _

/-- **Logs only grow.** -/
theorem HistStep.log_suffix {S : System Ret Choice World Call ρ} {D : Call → Log Ret → Op → Prop}
    {h h' : Hist Ret World Call ρ} (hs : HistStep S D h h') (pid : ℕ) :
    log pid h.trace <:+ log pid h'.trace := by
  cases hs with
  | idle e _ _ => exact log_suffix_cons pid e h.trace
  | did p c o choice r w _ _ _ _ => exact log_suffix_cons pid _ h.trace

/-- A call that is in flight: it has started, and no event has ended it. -/
def InFlight (pid : ℕ) (es : List (Event Ret World Call ρ)) : Prop :=
  (∃ c, Event.start pid c ∈ es) ∧ ∀ e ∈ es, e.isEnd = true → e.pid ≠ pid

/-- A call stays in flight through an event that does not end it. -/
theorem InFlight.cons {pid : ℕ} {es : List (Event Ret World Call ρ)} (h : InFlight pid es)
    {e : Event Ret World Call ρ} (he : e.isEnd = true → e.pid ≠ pid) : InFlight pid (e :: es) := by
  obtain ⟨⟨c, hc⟩, hlive⟩ := h
  exact ⟨⟨c, List.mem_cons_of_mem _ hc⟩, List.forall_mem_cons.mpr ⟨he, hlive⟩⟩

/-- A call that is in flight after its last event was in flight before, if it had started. -/
theorem InFlight.of_cons {pid : ℕ} {e : Event Ret World Call ρ} {es : List (Event Ret World Call ρ)}
    (h : InFlight pid (e :: es)) (he : ∀ c, e ≠ .start pid c) : InFlight pid es := by
  obtain ⟨⟨c, hc⟩, hlive⟩ := h
  exact ⟨⟨c, (List.mem_cons.mp hc).resolve_left fun heq => he c heq.symm⟩,
    (List.forall_mem_cons.mp hlive).2⟩

/-- An operation neither starts nor ends a call. -/
theorem inFlight_did {p pid : ℕ} {o : Op} {r : Ret o} {w : World}
    {es : List (Event Ret World Call ρ)} :
    InFlight p (.did pid o r w :: es) ↔ InFlight p es :=
  ⟨fun h => h.of_cons fun c => (by simp), fun h => h.cons fun hend => (by cases hend)⟩

/-! ### Counting in a run -/

/-- What the entries of a log count for, each after the log before it. -/
def weight (f : Log Ret → Entry Ret → ℕ) : Log Ret → ℕ
  | [] => 0
  | e :: L => f L e + weight f L

/-- The same for all operations of a run. -/
def total (f : Log Ret → Entry Ret → ℕ) : List (Event Ret World Call ρ) → ℕ
  | [] => 0
  | .did pid o r _ :: es => f (log pid es) ⟨o, r⟩ + total f es
  | .start _ _ :: es | .returned _ _ :: es | .crashed _ :: es => total f es

section Total

variable {f g : Log Ret → Entry Ret → ℕ} {es : List (Event Ret World Call ρ)}

/-- **A run is the sum of its calls.** -/
theorem total_eq_sum {n : ℕ} (h : ∀ e ∈ es, e.pid < n) :
    total f es = ∑ pid ∈ Finset.range n, weight f (log pid es) := by
  induction es with
  | nil => simp [total, weight, log]
  | cons e es ih =>
    obtain ⟨he, hes⟩ := List.forall_mem_cons.mp h
    cases e with
    | did p o r w =>
      have hp : p ∈ Finset.range n := Finset.mem_range.mpr he
      rw [total, ih hes, ← Finset.add_sum_erase _ _ hp, ← Finset.add_sum_erase _ _ hp, log_did_self,
        weight, add_assoc]
      refine congrArg _ (congrArg _ (Finset.sum_congr rfl fun q hq => ?_))
      rw [log_cons_of_ne (e := .did p o r w) (Finset.ne_of_mem_erase hq).symm]
    | start p c | returned p a | crashed p => exact ih hes

theorem exists_pid_lt (es : List (Event Ret World Call ρ)) : ∃ n, ∀ e ∈ es, e.pid < n := by
  induction es with
  | nil => exact ⟨0, fun e he => by cases he⟩
  | cons e es ih =>
    obtain ⟨n, hn⟩ := ih
    refine ⟨max n (e.pid + 1), List.forall_mem_cons.mpr ⟨by omega, fun e' he' => ?_⟩⟩
    have := hn e' he'
    omega

/-- What is at most so much in each call is at most so much in the run. -/
theorem total_le_total (h : ∀ pid, weight f (log pid es) ≤ weight g (log pid es)) :
    total f es ≤ total g es := by
  obtain ⟨n, hn⟩ := exists_pid_lt es
  rw [total_eq_sum hn, total_eq_sum hn]
  exact Finset.sum_le_sum fun pid _ => h pid

theorem total_congr (h : ∀ pid, weight f (log pid es) = weight g (log pid es)) :
    total f es = total g es := by
  obtain ⟨n, hn⟩ := exists_pid_lt es
  rw [total_eq_sum hn, total_eq_sum hn]
  exact Finset.sum_congr rfl fun pid _ => h pid

end Total

/-! ### Looking for events -/

section Looking

variable {World Call ρ : Type} {Ret : Op → Type}

/-- The event starts this call. -/
def Event.isStart [DecidableEq Call] (pid : ℕ) (c : Call) : Event Ret World Call ρ → Bool
  | .start p c' => p == pid && c' = c
  | _ => false

/-- The event returns this result. -/
def Event.isReturned [DecidableEq ρ] (pid : ℕ) (a : ρ) : Event Ret World Call ρ → Bool
  | .returned p a' => p == pid && a' = a
  | _ => false

theorem mem_of_isStart [DecidableEq Call] {pid : ℕ} {c : Call} {es : List (Event Ret World Call ρ)}
    (h : es.any (Event.isStart pid c) = true) : Event.start pid c ∈ es := by
  obtain ⟨e, he, hstart⟩ := List.any_eq_true.mp h
  cases e with
  | start p c' =>
    obtain ⟨rfl, rfl⟩ : p = pid ∧ c' = c := by simpa [Event.isStart] using hstart
    exact he
  | _ => cases hstart

theorem mem_of_isReturned [DecidableEq ρ] {pid : ℕ} {a : ρ} {es : List (Event Ret World Call ρ)}
    (h : es.any (Event.isReturned pid a) = true) : Event.returned pid a ∈ es := by
  obtain ⟨e, he, hreturned⟩ := List.any_eq_true.mp h
  cases e with
  | returned p a' =>
    obtain ⟨rfl, rfl⟩ : p = pid ∧ a' = a := by simpa [Event.isReturned] using hreturned
    exact he
  | _ => cases hreturned

end Looking

/-! ### From some state on -/

/-- **The rule for the rest of a run**: an invariant of the histories from a reachable state on. -/
theorem hist_invariant_from {S : System Ret Choice World Call ρ} {D : Call → Log Ret → Op → Prop}
    {Q : Call → ρ → Log Ret → Prop} (hbody : ∀ c, Follows (D c) (Q c) (S.body c) [])
    {ok₁ ok : Hist Ret World Call ρ → Hist Ret World Call ρ → Prop}
    {I : Hist Ret World Call ρ → Prop} {w : World} {s₁ s : State Ret World Call ρ}
    (hr₁ : S.ReachableWhen ok₁ (.init w) s₁) (h₁ : I s₁.hist)
    (hstep : ∀ h h', Disciplined D Q h → Disciplined D Q h' → I h → HistStep S D h h' →
      ok h h' → I h') (hr : S.ReachableWhen ok s₁ s) : I s.hist := by
  have key : (System.Lifecycle s ∧ Orderly D Q s) ∧ I s.hist := by
    induction hr with
    | refl =>
      exact ⟨⟨(hr₁.rule (J := fun _ => True) trivial fun _ _ _ _ _ _ _ => trivial).1,
        orderly_of_reachable hbody hr₁⟩, h₁⟩
    | tail _ hnext ih =>
      obtain ⟨⟨hl, ho⟩, hI⟩ := ih
      obtain ⟨⟨m, hm⟩, hok⟩ := hnext
      have hk := System.stepKind_of_move hm
      have hl' := hl.step hk
      have ho' := ho.step hbody hl hk
      exact ⟨⟨hl', ho'⟩, hstep _ _ (ho.disciplined hl) (ho'.disciplined hl') hI (ho.histStep hl hk) hok⟩
  exact key.2

/-- A call that has not been started has done nothing. -/
theorem log_eq_nil_of_le {s : State Ret World Call ρ} (hl : System.Lifecycle s) {pid : ℕ}
    (h : s.started ≤ pid) : log pid s.hist.trace = [] :=
  log_eq_nil fun e he => Nat.ne_of_lt ((hl.lt_started e he).trans_le h)

end Async
