import Ahjoor.Async.Solo

/-!
# Calls that are cut short

A call can stop at any of its awaits: its process ends, or nobody waits for it any longer. `Stops`
relates the world in which a call starts to every world in which it can be left, and `Throughout`
says what holds wherever a routine stops, and what holds when it comes to a result. A routine that
throws has stopped too.
-/

namespace Async

variable {Op : Type} {Ret : Op → Type} {Choice World α β σ ε : Type}

/-- The computation runs from `w` to `w'` and stops there, at its end or before an operation. -/
inductive Stops (exec : (o : Op) → ℕ → Choice → World → Option (Ret o × World)) (pid : ℕ) :
    Prog Ret α → World → World → Prop
  | here (p : Prog Ret α) (w : World) : Stops exec pid p w w
  | op {o : Op} {k : Ret o → Prog Ret α} {w w₁ w' : World} {r : Ret o} (choice : Choice)
      (hexec : exec o pid choice w = some (r, w₁)) (h : Stops exec pid (k r) w₁ w') :
      Stops exec pid (.op o k) w w'

variable {exec : (o : Op) → ℕ → Choice → World → Option (Ret o × World)} {pid : ℕ}

theorem Stops.of_bind {p : Prog Ret α} {f : α → Prog Ret β} {w w' : World}
    (h : Stops exec pid (p.bind f) w w') :
    Stops exec pid p w w' ∨ ∃ a w₁, Alone exec pid p w a w₁ ∧ Stops exec pid (f a) w₁ w' := by
  induction p generalizing w with
  | ret a => exact .inr ⟨a, w, .ret a w, h⟩
  | op o k ih =>
    cases h with
    | here => exact .inl (.here _ _)
    | op choice hexec hrest =>
      rcases ih _ hrest with hstop | ⟨a, w₁, halone, hstop⟩
      · exact .inl (.op choice hexec hstop)
      · exact .inr ⟨a, w₁, .op choice hexec halone, hstop⟩

/-- A computation that has come to its end has stopped there. -/
theorem Alone.stops {p : Prog Ret α} {w w' : World} {a : α} (h : Alone exec pid p w a w') :
    Stops exec pid p w w' := by
  induction h with
  | ret a w => exact .here _ w
  | op choice hexec _ ih => exact .op choice hexec ih

/-- Wherever the routine stops `C` holds, and `Q` holds when it comes to a result. -/
structure Throughout (exec : (o : Op) → ℕ → Choice → World → Option (Ret o × World)) (pid : ℕ)
    (C : World → Prop) (m : Routine Ret σ ε α) (Q : α → σ → World → Prop) (s : σ) (w : World) :
    Prop where
  stops : ∀ w', Stops exec pid (m s) w w' → C w'
  ends : ∀ a t w', Alone exec pid (m s) w (.ok a, t) w' → Q a t w'

namespace Throughout

variable {C : World → Prop} {Q : α → σ → World → Prop} {s : σ} {w : World}

theorem pure {a : α} (hC : C w) (hQ : Q a s w) :
    Throughout exec pid C (pure a : Routine Ret σ ε α) Q s w := by
  refine ⟨fun w' h => ?_, fun b t w' h => ?_⟩
  · cases h
    exact hC
  · obtain ⟨heq, rfl⟩ := alone_ret.mp h
    obtain ⟨hb, rfl⟩ := Prod.mk.inj heq
    obtain rfl := Except.ok.inj hb
    exact hQ

theorem bind {m : Routine Ret σ ε α} {f : α → Routine Ret σ ε β} {Q : β → σ → World → Prop}
    (hm : Throughout exec pid C m (fun a s w => Throughout exec pid C (f a) Q s w) s w) :
    Throughout exec pid C (m >>= f) Q s w := by
  refine ⟨fun w' h => ?_, fun b t w' h => ?_⟩
  · rcases h.of_bind with hstop | ⟨⟨x, t⟩, w₁, halone, hstop⟩
    · exact hm.stops w' hstop
    · cases x with
      | error e =>
        -- an exception of `m` ends the routine where `m` has ended
        cases hstop
        exact hm.stops _ halone.stops
      | ok a => exact (hm.ends a t w₁ halone).stops w' hstop
  · obtain ⟨⟨x, t₁⟩, w₁, halone, hrest⟩ := h.of_bind
    cases x with
    | error e =>
      obtain ⟨heq, -⟩ := alone_ret.mp hrest
      cases (Prod.mk.inj heq).1
    | ok a => exact (hm.ends a t₁ w₁ halone).ends b t w' hrest

/-- The rule for an awaited operation. -/
theorem call {o : Op} {out : Ret o → Except ε α} (hC : C w)
    (h : ∀ choice r w', exec o pid choice w = some (r, w') →
      C w' ∧ ∀ a, out r = .ok a → Q a s w') :
    Throughout exec pid C (Routine.call o out) Q s w := by
  refine ⟨fun w' hstop => ?_, fun a t w' halone => ?_⟩
  · cases hstop with
    | here => exact hC
    | op choice hexec hstop =>
      cases hstop
      exact (h choice _ _ hexec).1
  · obtain ⟨choice, r, w₁, hexec, hret⟩ := alone_op.mp halone
    obtain ⟨heq, rfl⟩ := alone_ret.mp hret
    obtain ⟨hout, rfl⟩ := Prod.mk.inj heq
    exact (h choice r w' hexec).2 a hout.symm

theorem perform {o : Op} {Q : Ret o → σ → World → Prop} (hC : C w)
    (h : ∀ choice r w', exec o pid choice w = some (r, w') → C w' ∧ Q r s w') :
    Throughout exec pid C (Routine.perform o : Routine Ret σ ε (Ret o)) Q s w := by
  refine ⟨fun w' hstop => ?_, fun a t w' halone => ?_⟩
  · cases hstop with
    | here => exact hC
    | op choice hexec hstop =>
      cases hstop
      exact (h choice _ _ hexec).1
  · obtain ⟨choice, r, w₁, hexec, hret⟩ := alone_op.mp halone
    obtain ⟨heq, rfl⟩ := alone_ret.mp hret
    obtain ⟨hok, rfl⟩ := Prod.mk.inj heq
    obtain rfl := Except.ok.inj hok
    exact (h choice _ w' hexec).2

theorem ite {c : Prop} [Decidable c] {m m' : Routine Ret σ ε α}
    (hm : c → Throughout exec pid C m Q s w) (hm' : ¬ c → Throughout exec pid C m' Q s w) :
    Throughout exec pid C (if c then m else m') Q s w := by
  by_cases hc : c
  · rw [if_pos hc]
    exact hm hc
  · rw [if_neg hc]
    exact hm' hc

end Throughout

end Async
