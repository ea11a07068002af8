import Ahjoor.Async.Interleaving

/-!
# Calls one after another

A call that runs `Alone` performs all its operations in a world that nobody else touches. A
sequential run is a list of such calls, each from the world that the last one has left; it is what
an interleaved run is compared with.
-/

namespace Async

variable {Op : Type} {Ret : Op → Type} {Choice World Call α β : Type}

/-- The computation runs from `w` to the result `a` in `w'`, and nobody else does anything. -/
inductive Alone (exec : (o : Op) → ℕ → Choice → World → Option (Ret o × World)) (pid : ℕ) :
    Prog Ret α → World → α → World → Prop
  | ret (a : α) (w : World) : Alone exec pid (.ret a) w a w
  | op {o : Op} {k : Ret o → Prog Ret α} {w w₁ w' : World} {r : Ret o} {a : α} (choice : Choice)
      (hexec : exec o pid choice w = some (r, w₁)) (h : Alone exec pid (k r) w₁ a w') :
      Alone exec pid (.op o k) w a w'

/-- From `w` on these calls run one after another, with these results (the last one first), and
leave `w'`. -/
inductive Runs (S : System Ret Choice World Call α) (w : World) : List (Call × α) → World → Prop
  | nil : Runs S w [] w
  | call {w' w'' : World} {calls : List (Call × α)} {c : Call} {a : α} (pid : ℕ)
      (hcalls : Runs S w calls w') (h : Alone S.exec pid (S.body c) w' a w'') :
      Runs S w ((c, a) :: calls) w''

/-- The same, where each call meets `ok` with its result, the world before it and the world after
it. -/
inductive RunsWhen (S : System Ret Choice World Call α) (ok : World → Call → α → World → Prop)
    (w : World) : List (Call × α) → World → Prop
  | nil : RunsWhen S ok w [] w
  | call {w' w'' : World} {calls : List (Call × α)} {c : Call} {a : α} (pid : ℕ)
      (hcalls : RunsWhen S ok w calls w') (h : Alone S.exec pid (S.body c) w' a w'')
      (hok : ok w' c a w'') : RunsWhen S ok w ((c, a) :: calls) w''

/-- Run a computation with these choices of the environment. -/
def Prog.replay (exec : (o : Op) → ℕ → Choice → World → Option (Ret o × World)) (pid : ℕ) :
    List Choice → Prog Ret α → World → Option (α × World)
  | _, .ret a, w => some (a, w)
  | [], .op _ _, _ => none
  | choice :: choices, .op o k, w =>
      (exec o pid choice w).bind fun x => (k x.1).replay exec pid choices x.2

/-- Run these calls one after another (the last one first), each with the choices beside it. -/
def System.replayCalls (S : System Ret Choice World Call α) (w : World) :
    List (Call × List Choice) → Option (List (Call × α) × World)
  | [] => some ([], w)
  | (c, choices) :: calls => (S.replayCalls w calls).bind fun x =>
      ((S.body c).replay S.exec 0 choices x.2).map fun y => ((c, y.1) :: x.1, y.2)

section Alone

variable {exec : (o : Op) → ℕ → Choice → World → Option (Ret o × World)} {pid : ℕ} {w w' : World}
  {a : α}

theorem alone_ret {b : α} : Alone exec pid (.ret b) w a w' ↔ a = b ∧ w' = w := by
  constructor
  · intro h
    cases h
    exact ⟨rfl, rfl⟩
  · rintro ⟨rfl, rfl⟩
    exact .ret a w'

theorem alone_op {o : Op} {k : Ret o → Prog Ret α} : Alone exec pid (.op o k) w a w' ↔
    ∃ choice r w₁, exec o pid choice w = some (r, w₁) ∧ Alone exec pid (k r) w₁ a w' := by
  constructor
  · intro h
    cases h with
    | op choice hexec h => exact ⟨choice, _, _, hexec, h⟩
  · rintro ⟨choice, r, w₁, hexec, h⟩
    exact .op choice hexec h

/-- What all operations of the computation keep holds after it. -/
theorem Alone.keeps {P : Op → Prop} {R : α → Prop} {J : World → Prop}
    (hkeeps : ∀ o choice r w w', P o → exec o pid choice w = some (r, w') → J w → J w')
    {p : Prog Ret α} (hp : p.Uses P R) (h : Alone exec pid p w a w') (hw : J w) : J w' := by
  induction h with
  | ret a w => exact hw
  | op choice hexec _ ih => exact ih (hp.2 _) (hkeeps _ _ _ _ _ hp.1 hexec hw)

theorem alone_of_replay {p : Prog Ret α} {choices : List Choice}
    (h : p.replay exec pid choices w = some (a, w')) : Alone exec pid p w a w' := by
  induction p generalizing choices w with
  | ret b =>
    rw [Prog.replay] at h
    obtain ⟨rfl, rfl⟩ := Prod.mk.inj (Option.some.inj h)
    exact .ret b w
  | op o k ih =>
    cases choices with
    | nil => cases h
    | cons choice choices =>
      obtain ⟨⟨r, w₁⟩, hexec, hrest⟩ := Option.bind_eq_some_iff.mp h
      exact .op choice hexec (ih r hrest)

end Alone

section Runs

variable {S : System Ret Choice World Call α} {w w' : World} {calls : List (Call × α)}

/-- **The rule for sequential runs**: what every call keeps holds after them. -/
theorem Runs.rule {I : List (Call × α) → World → Prop} (h₀ : I [] w)
    (hstep : ∀ calls w₁ pid c a w₂, Runs S w calls w₁ → I calls w₁ →
      Alone S.exec pid (S.body c) w₁ a w₂ → I ((c, a) :: calls) w₂)
    (h : Runs S w calls w') : I calls w' := by
  induction h with
  | nil => exact h₀
  | call pid hcalls halone ih => exact hstep _ _ _ _ _ _ hcalls ih halone

theorem runs_of_replayCalls {choices : List (Call × List Choice)}
    (h : S.replayCalls w choices = some (calls, w')) : Runs S w calls w' := by
  induction choices generalizing calls w' with
  | nil =>
    obtain ⟨rfl, rfl⟩ := Prod.mk.inj (Option.some.inj h)
    exact .nil
  | cons x choices ih =>
    obtain ⟨⟨calls₁, w₁⟩, hcalls, hlast⟩ := Option.bind_eq_some_iff.mp h
    obtain ⟨⟨a, w₂⟩, halone, heq⟩ := Option.map_eq_some_iff.mp hlast
    obtain ⟨rfl, rfl⟩ := Prod.mk.inj heq
    exact .call 0 (ih hcalls) (alone_of_replay halone)

variable (S) in
/-- A property decided along a sequential run holds after some sequential run. -/
theorem exists_runs_of_replayCalls (w : World) (choices : List (Call × List Choice))
    (p : List (Call × α) × World → Bool) (h : (S.replayCalls w choices).any p = true) :
    ∃ calls w', Runs S w calls w' ∧ p (calls, w') = true := by
  obtain ⟨⟨calls, w'⟩, hreplay, hp⟩ := System.exists_of_any h
  exact ⟨calls, w', runs_of_replayCalls hreplay, hp⟩

/-- Further calls after a sequential run. -/
theorem Runs.append {w₁ : World} {later : List (Call × α)} (h : Runs S w calls w₁)
    (hlater : Runs S w₁ later w') : Runs S w (later ++ calls) w' := by
  induction hlater with
  | nil => exact h
  | call pid _ halone ih => exact .call pid ih halone

theorem Runs.eq_of_nil (h : Runs S w [] w') : w' = w := by
  cases h
  rfl

end Runs

section RunsWhen

variable {S : System Ret Choice World Call α} {ok : World → Call → α → World → Prop} {w w' : World}
  {calls : List (Call × α)}

theorem RunsWhen.runs (h : RunsWhen S ok w calls w') : Runs S w calls w' := by
  induction h with
  | nil => exact .nil
  | call pid _ halone _ ih => exact .call pid ih halone

/-- What every call ensures where it meets `ok`. -/
theorem RunsWhen.mono {ok' : World → Call → α → World → Prop} (h : RunsWhen S ok w calls w')
    (hok : ∀ pid w c a w', Alone S.exec pid (S.body c) w a w' → ok w c a w' → ok' w c a w') :
    RunsWhen S ok' w calls w' := by
  induction h with
  | nil => exact .nil
  | call pid _ halone hmeets ih => exact .call pid ih halone (hok pid _ _ _ _ halone hmeets)

/-- The first of the calls that are left out of a run. -/
theorem RunsWhen.tail {x : Call × α} (h : RunsWhen S ok w (x :: calls) w') :
    ∃ pid w₁, RunsWhen S ok w calls w₁ ∧ Alone S.exec pid (S.body x.1) w₁ x.2 w' ∧
      ok w₁ x.1 x.2 w' := by
  cases h with
  | call pid hcalls halone hok => exact ⟨pid, _, hcalls, halone, hok⟩

/-- Run calls as `replayCalls` does, as long as they meet `ok`. -/
def System.replayCallsWhen (S : System Ret Choice World Call α) (ok : World → Call → α → World → Bool)
    (w : World) : List (Call × List Choice) → Option (List (Call × α) × World)
  | [] => some ([], w)
  | (c, choices) :: calls => (S.replayCallsWhen ok w calls).bind fun x =>
      ((S.body c).replay S.exec 0 choices x.2).bind fun y =>
        if ok x.2 c y.1 y.2 then some ((c, y.1) :: x.1, y.2) else none

theorem runsWhen_of_replayCallsWhen {ok : World → Call → α → World → Bool}
    {choices : List (Call × List Choice)}
    (h : S.replayCallsWhen ok w choices = some (calls, w')) :
    RunsWhen S (fun w c a w' => ok w c a w' = true) w calls w' := by
  induction choices generalizing calls w' with
  | nil =>
    obtain ⟨rfl, rfl⟩ := Prod.mk.inj (Option.some.inj h)
    exact .nil
  | cons x choices ih =>
    obtain ⟨⟨calls₁, w₁⟩, hcalls, hlast⟩ := Option.bind_eq_some_iff.mp h
    obtain ⟨⟨a, w₂⟩, halone, hmeets⟩ := Option.bind_eq_some_iff.mp hlast
    dsimp only at hmeets
    split_ifs at hmeets with hok
    obtain ⟨rfl, rfl⟩ := Prod.mk.inj (Option.some.inj hmeets)
    exact .call 0 (ih hcalls) (alone_of_replay halone) hok

variable (S) in
/-- A property decided along such a run holds after some such run. -/
theorem exists_runsWhen_of_replayCallsWhen (ok : World → Call → α → World → Bool) (w : World)
    (choices : List (Call × List Choice)) (p : List (Call × α) × World → Bool)
    (h : (S.replayCallsWhen ok w choices).any p = true) :
    ∃ calls w', RunsWhen S (fun w c a w' => ok w c a w' = true) w calls w' ∧ p (calls, w') = true := by
  obtain ⟨⟨calls, w'⟩, hreplay, hp⟩ := System.exists_of_any h
  exact ⟨calls, w', runsWhen_of_replayCallsWhen hreplay, hp⟩

end RunsWhen

end Async
