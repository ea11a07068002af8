import Ahjoor.Async.Solo

/-!
# The decisions of a run

Where a property speaks of every point at which a call may fail, the world of the call is run together
with a record of what has been performed and how the environment has decided about it. The record
does not change what the operations do (`alone_of_recording`, `recording_of_alone`), so that a
condition on the record is a condition on the environment.
-/

namespace Async

variable {Op : Type} {Ret : Op → Type} {Choice World α σ ε : Type}
  {exec : (o : Op) → ℕ → Choice → World → Option (Ret o × World)} {pid : ℕ}

/-- Operations, each with what the environment has decided about it, newest first. -/
abbrev Record (Op Choice : Type) := List (Op × Choice)

/-- What an operation does, and the record of it. -/
def recording (exec : (o : Op) → ℕ → Choice → World → Option (Ret o × World)) (o : Op) (pid : ℕ)
    (choice : Choice) (w : World × Record Op Choice) :
    Option (Ret o × (World × Record Op Choice)) :=
  (exec o pid choice w.1).map fun x => (x.1, x.2, (o, choice) :: w.2)

theorem recording_eq_some {o : Op} {choice : Choice} {w w' : World}
    {ds ds' : Record Op Choice} {r : Ret o} :
    recording exec o pid choice (w, ds) = some (r, w', ds') ↔
      exec o pid choice w = some (r, w') ∧ ds' = (o, choice) :: ds := by
  rw [recording, Option.map_eq_some_iff]
  constructor
  · rintro ⟨⟨r', w''⟩, hexec, heq⟩
    cases heq
    exact ⟨hexec, rfl⟩
  · rintro ⟨hexec, rfl⟩
    exact ⟨_, hexec, rfl⟩

/-- What comes to pass with a record comes to pass without it. -/
theorem alone_of_recording {p : Prog Ret α} {w w' : World × Record Op Choice} {a : α}
    (h : Alone (recording exec) pid p w a w') : Alone exec pid p w.1 a w'.1 := by
  induction h with
  | ret a w => exact .ret a w.1
  | op choice hexec _ ih => exact .op choice (recording_eq_some.mp hexec).1 ih

/-- Whatever comes to pass can be recorded. -/
theorem recording_of_alone {p : Prog Ret α} {w w' : World} {a : α} (h : Alone exec pid p w a w')
    (ds : Record Op Choice) : ∃ ds', Alone (recording exec) pid p (w, ds) a (w', ds') := by
  induction h generalizing ds with
  | ret a w => exact ⟨ds, .ret a (w, ds)⟩
  | op choice hexec _ ih =>
    obtain ⟨ds', hrest⟩ := ih ((_, choice) :: ds)
    exact ⟨ds', .op choice (recording_eq_some.mpr ⟨hexec, rfl⟩) hrest⟩

/-! ### Rules -/

section Rules

variable {s : σ} {w : World} {ds : Record Op Choice} {X : ε → σ → World × Record Op Choice → Prop}

theorem Solo.call_recording {o : Op} {out : Ret o → Except ε α}
    {Q : α → σ → World × Record Op Choice → Prop}
    (h : ∀ choice r w', exec o pid choice w = some (r, w') →
      match out r with
      | .ok a => Q a s (w', (o, choice) :: ds)
      | .error e => X e s (w', (o, choice) :: ds)) :
    Solo (recording exec) pid (Routine.call o out : Routine Ret σ ε α) Q X s (w, ds) := by
  refine Solo.call fun choice r x hrecorded => ?_
  obtain ⟨w', ds'⟩ := x
  obtain ⟨hexec, rfl⟩ := recording_eq_some.mp hrecorded
  exact h choice r w' hexec

theorem Solo.perform_recording {o : Op} {Q : Ret o → σ → World × Record Op Choice → Prop}
    (h : ∀ choice r w', exec o pid choice w = some (r, w') → Q r s (w', (o, choice) :: ds)) :
    Solo (recording exec) pid (Routine.perform o : Routine Ret σ ε (Ret o)) Q X s (w, ds) := by
  refine Solo.perform fun choice r x hrecorded => ?_
  obtain ⟨w', ds'⟩ := x
  obtain ⟨hexec, rfl⟩ := recording_eq_some.mp hrecorded
  exact h choice r w' hexec

/-- What each operation keeps, with its decision on record, holds at the end. -/
theorem Solo.keeps_recording {P : Op → Prop} {J : World → Record Op Choice → Prop}
    (hkeeps : ∀ o choice r w w' ds, P o → exec o pid choice w = some (r, w') → J w ds →
      J w' ((o, choice) :: ds))
    {m : Routine Ret σ ε α} (hm : m.Performs P) (h : J w ds) :
    Solo (recording exec) pid m (fun _ _ (x : World × Record Op Choice) => J x.1 x.2)
      (fun _ _ x => J x.1 x.2) s (w, ds) := by
  refine Solo.keeps (J := fun x : World × Record Op Choice => J x.1 x.2)
    (fun o choice r x x' ho hrecorded hx => ?_) hm h
  obtain ⟨w, ds⟩ := x
  obtain ⟨w', ds'⟩ := x'
  obtain ⟨hexec, rfl⟩ := recording_eq_some.mp hrecorded
  exact hkeeps o choice r w w' ds ho hexec hx

end Rules

end Async
