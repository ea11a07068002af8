import Ahjoor.Async.Discipline

/-!
# The moments of a run

A run passes through worlds: the one it began in, and one after each operation. `worldAt` finds the
world before some last events of a history; the *moments* of a call are the worlds from its start
on. What an operation did is read off the two worlds around its event (`Performed`).
-/

namespace Async

variable {Op : Type} {Ret : Op → Type} {Choice World Call ρ : Type}

/-- The world of the run before the events `later`, when it has come to `w`. -/
def worldAt (w : World) : List (Event Ret World Call ρ) → World
  | [] => w
  | .did _ _ _ before :: later => worldAt before later
  | .start _ _ :: later | .returned _ _ :: later | .crashed _ :: later => worldAt w later

theorem worldAt_append_did {w : World} {later : List (Event Ret World Call ρ)} {pid : ℕ} {o : Op}
    {r : Ret o} {before : World} : worldAt w (later ++ [.did pid o r before]) = before := by
  induction later generalizing w with
  | nil => rfl
  | cons e later ih => cases e <;> exact ih

/-- An event that performs nothing leaves the world as it is. -/
theorem worldAt_cons {e : Event Ret World Call ρ} (he : ∀ pid o r before, e ≠ .did pid o r before)
    (w : World) (later : List (Event Ret World Call ρ)) : worldAt w (e :: later) = worldAt w later := by
  cases e with
  | did pid o r before => exact absurd rfl (he pid o r before)
  | _ => rfl

/-- A world of the run from the start of call `pid` on. -/
def Moment (h : Hist Ret World Call ρ) (pid : ℕ) (w : World) : Prop :=
  ∃ later earlier c, h.trace = later ++ earlier ∧ Event.start pid c ∈ earlier ∧
    w = worldAt h.world later

/-- **What has been performed**: each operation by a call that had started, between the world before
it and the world after it. -/
def Performed (S : System Ret Choice World Call ρ) (h : Hist Ret World Call ρ) : Prop :=
  ∀ later pid o r before earlier, h.trace = later ++ Event.did pid o r before :: earlier →
    (∃ c, Event.start pid c ∈ earlier) ∧
      ∃ choice, S.exec o pid choice before = some (r, worldAt h.world later)

section Performed

variable {S : System Ret Choice World Call ρ} {h : Hist Ret World Call ρ} {pid : ℕ} {o : Op}
  {r : Ret o} {before : World}

theorem Performed.idle (hp : Performed S h) {e : Event Ret World Call ρ}
    (he : ∀ pid o r before, e ≠ .did pid o r before) : Performed S (h.push e h.world) := by
  intro later pid o r before earlier htrace
  rcases List.cons_eq_append_iff.mp htrace with ⟨-, heq⟩ | ⟨later, rfl, hold⟩
  · exact absurd (List.cons.inj heq).1.symm (he pid o r before)
  · rw [Hist.push_world, worldAt_cons he]
    exact hp later pid o r before earlier hold

theorem Performed.did (hp : Performed S h) (hstart : ∃ c, Event.start pid c ∈ h.trace)
    {choice : Choice} {w : World} (hexec : S.exec o pid choice h.world = some (r, w)) :
    Performed S (h.push (.did pid o r h.world) w) := by
  intro later pid' o' r' before earlier htrace
  rcases List.cons_eq_append_iff.mp htrace with ⟨rfl, heq⟩ | ⟨later, rfl, hold⟩
  · cases heq
    exact ⟨hstart, choice, hexec⟩
  · exact hp later pid' o' r' before earlier hold

/-- **Every operation of every run** has been performed. -/
theorem performed_of_reachable {ok : Hist Ret World Call ρ → Hist Ret World Call ρ → Prop} {w : World}
    {s : State Ret World Call ρ} (hr : S.ReachableWhen ok (.init w) s) : Performed S s.hist := by
  refine (hr.rule (J := fun s => Performed S s.hist) (fun later pid o r before earlier htrace => ?_)
    fun s s' hl _ hp hstep _ => ?_).2
  · exact absurd htrace.symm (List.append_ne_nil_of_right_ne_nil later (List.cons_ne_nil _ _))
  · cases hstep with
    | start c => exact hp.idle fun _ _ _ _ => by simp
    | run pid o k choice r w htask hexec =>
      exact hp.did (hl.start_mem pid (hl.running pid _ htask).1) hexec
    | finish pid a htask => exact hp.idle fun _ _ _ _ => by simp
    | crash pid p htask => exact hp.idle fun _ _ _ _ => by simp

/-- The operation of an event was possible in the world before it. -/
theorem Performed.exec (hp : Performed S h) (he : .did pid o r before ∈ h.trace) :
    ∃ choice after, S.exec o pid choice before = some (r, after) := by
  obtain ⟨later, earlier, htrace⟩ := List.append_of_mem he
  obtain ⟨-, choice, hexec⟩ := hp later pid o r before earlier htrace
  exact ⟨choice, _, hexec⟩

/-- A call performs its operations at moments of its own. -/
theorem Performed.moment (hp : Performed S h) (he : .did pid o r before ∈ h.trace) :
    Moment h pid before := by
  obtain ⟨later, earlier, htrace⟩ := List.append_of_mem he
  obtain ⟨⟨c, hc⟩, -⟩ := hp later pid o r before earlier htrace
  exact ⟨later ++ [.did pid o r before], earlier, c, by simpa using htrace, hc, worldAt_append_did.symm⟩

end Performed

/-- **A call begins with its start**: there is no event of it before. -/
theorem starts_first_of_reachable {S : System Ret Choice World Call ρ}
    {ok : Hist Ret World Call ρ → Hist Ret World Call ρ → Prop} {w : World} {s : State Ret World Call ρ}
    (hr : S.ReachableWhen ok (.init w) s) {pid : ℕ} {c : Call} {later earlier : List (Event Ret World Call ρ)}
    (htrace : s.hist.trace = later ++ Event.start pid c :: earlier) : ∀ e ∈ earlier, e.pid ≠ pid := by
  have hfirst := (hr.rule (J := fun s => ∀ later pid c earlier,
    s.hist.trace = later ++ Event.start pid c :: earlier → ∀ e ∈ earlier, e.pid ≠ pid)
    (fun later pid c earlier h => ?_) fun s s' hl _ hold hstep _ later pid c earlier h => ?_).2
  · exact hfirst later pid c earlier htrace
  · exact absurd h.symm (List.append_ne_nil_of_right_ne_nil later (List.cons_ne_nil _ _))
  · have hpushed : ∀ {e w}, (s.hist.push e w).trace = later ++ Event.start pid c :: earlier →
        (∀ p c', e ≠ .start p c') → ∀ e' ∈ earlier, e'.pid ≠ pid := by
      intro e w h he
      rcases List.cons_eq_append_iff.mp h with ⟨-, heq⟩ | ⟨later, rfl, hbefore⟩
      · exact absurd (List.cons.inj heq).1.symm (he pid c)
      · exact hold later pid c earlier hbefore
    cases hstep with
    | start c' =>
      rcases List.cons_eq_append_iff.mp h with ⟨-, heq⟩ | ⟨later, rfl, hbefore⟩
      · obtain ⟨heq, rfl⟩ := List.cons.inj heq
        cases heq
        exact fun e he => Nat.ne_of_lt (hl.lt_started e he)
      · exact hold later pid c earlier hbefore
    | run p o k choice r w _ _ => exact hpushed h nofun
    | finish p a _ => exact hpushed h nofun
    | crash p q _ => exact hpushed h nofun

end Async
