import Ahjoor.Async.Sequential

/-!
# Rules for a routine that nobody disturbs

`Solo` says what holds when a routine that runs alone has ended, whatever the environment has
decided about its operations: `Q` at a result and `X` at an exception. It has a rule for each
construct of a body, so that a body is executed forwards, with one fact for each operation it
awaits.
-/

namespace Async

variable {Op : Type} {Ret : Op → Type} {Choice World α β σ ε : Type}
  {exec : (o : Op) → ℕ → Choice → World → Option (Ret o × World)} {pid : ℕ}

theorem Alone.of_bind {p : Prog Ret α} {f : α → Prog Ret β} {w w' : World} {b : β}
    (h : Alone exec pid (p.bind f) w b w') :
    ∃ a w₁, Alone exec pid p w a w₁ ∧ Alone exec pid (f a) w₁ b w' := by
  induction p generalizing w with
  | ret a => exact ⟨a, w, .ret a w, h⟩
  | op o k ih =>
    obtain ⟨choice, r, w₁, hexec, hrest⟩ := alone_op.mp h
    obtain ⟨a, w₂, hp, hf⟩ := ih r hrest
    exact ⟨a, w₂, .op choice hexec hp, hf⟩

theorem Alone.bind {p : Prog Ret α} {f : α → Prog Ret β} {w w₁ w' : World} {a : α} {b : β}
    (hp : Alone exec pid p w a w₁) (hf : Alone exec pid (f a) w₁ b w') :
    Alone exec pid (p.bind f) w b w' := by
  induction hp with
  | ret a w => exact hf
  | op choice hexec _ ih => exact .op choice hexec (ih hf)

/-- Whatever the environment decides, the routine ends in `Q` or throws in `X`. -/
def Solo (exec : (o : Op) → ℕ → Choice → World → Option (Ret o × World)) (pid : ℕ)
    (m : Routine Ret σ ε α) (Q : α → σ → World → Prop) (X : ε → σ → World → Prop) (s : σ)
    (w : World) : Prop :=
  ∀ x t w', Alone exec pid (m s) w (x, t) w' →
    match x with
    | .ok a => Q a t w'
    | .error e => X e t w'

namespace Solo

variable {Q : α → σ → World → Prop} {X : ε → σ → World → Prop} {s : σ} {w : World}

theorem pure {a : α} (h : Q a s w) : Solo exec pid (pure a : Routine Ret σ ε α) Q X s w := by
  intro x t w' halone
  obtain ⟨hx, rfl⟩ := alone_ret.mp halone
  obtain ⟨rfl, rfl⟩ := Prod.mk.inj hx
  exact h

theorem throw {e : ε} (h : X e s w) : Solo exec pid (throw e : Routine Ret σ ε α) Q X s w := by
  intro x t w' halone
  obtain ⟨hx, rfl⟩ := alone_ret.mp halone
  obtain ⟨rfl, rfl⟩ := Prod.mk.inj hx
  exact h

theorem bind {m : Routine Ret σ ε α} {f : α → Routine Ret σ ε β} {Q : β → σ → World → Prop}
    (h : Solo exec pid m (fun a s w => Solo exec pid (f a) Q X s w) X s w) :
    Solo exec pid (m >>= f) Q X s w := by
  intro x t w' halone
  obtain ⟨⟨y, s₁⟩, w₁, hm, hf⟩ := halone.of_bind
  have hy := h y s₁ w₁ hm
  cases y with
  | ok a => exact hy x t w' hf
  | error e =>
    obtain ⟨hx, rfl⟩ := alone_ret.mp hf
    obtain ⟨rfl, rfl⟩ := Prod.mk.inj hx
    exact hy

theorem tryCatch {m : Routine Ret σ ε α} {f : ε → Routine Ret σ ε α}
    (h : Solo exec pid m Q (fun e s w => Solo exec pid (f e) Q X s w) s w) :
    Solo exec pid (tryCatch m f : Routine Ret σ ε α) Q X s w := by
  intro x t w' halone
  obtain ⟨⟨y, s₁⟩, w₁, hm, hf⟩ := halone.of_bind
  have hy := h y s₁ w₁ hm
  cases y with
  | ok a =>
    obtain ⟨hx, rfl⟩ := alone_ret.mp hf
    obtain ⟨rfl, rfl⟩ := Prod.mk.inj hx
    exact hy
  | error e => exact hy x t w' hf

theorem call {o : Op} {out : Ret o → Except ε α}
    (h : ∀ choice r w', exec o pid choice w = some (r, w') →
      match out r with
      | .ok a => Q a s w'
      | .error e => X e s w') :
    Solo exec pid (Routine.call o out : Routine Ret σ ε α) Q X s w := by
  intro x t w' halone
  obtain ⟨choice, r, w₁, hexec, hrest⟩ := alone_op.mp halone
  obtain ⟨hx, rfl⟩ := alone_ret.mp hrest
  obtain ⟨rfl, rfl⟩ := Prod.mk.inj hx
  exact h choice r w' hexec

theorem perform {o : Op} {Q : Ret o → σ → World → Prop}
    (h : ∀ choice r w', exec o pid choice w = some (r, w') → Q r s w') :
    Solo exec pid (Routine.perform o : Routine Ret σ ε (Ret o)) Q X s w := by
  intro x t w' halone
  obtain ⟨choice, r, w₁, hexec, hrest⟩ := alone_op.mp halone
  obtain ⟨hx, rfl⟩ := alone_ret.mp hrest
  obtain ⟨rfl, rfl⟩ := Prod.mk.inj hx
  exact h choice r w' hexec

theorem mono {Q' : α → σ → World → Prop} {X' : ε → σ → World → Prop} {m : Routine Ret σ ε α}
    (h : Solo exec pid m Q X s w) (hQ : ∀ a s w, Q a s w → Q' a s w)
    (hX : ∀ e s w, X e s w → X' e s w) : Solo exec pid m Q' X' s w := by
  intro x t w' halone
  have hx := h x t w' halone
  cases x with
  | ok a => exact hQ a t w' hx
  | error e => exact hX e t w' hx

/-- What all operations of a routine keep holds at its end. -/
theorem keeps {P : Op → Prop} {J : World → Prop}
    (hkeeps : ∀ o choice r w w', P o → exec o pid choice w = some (r, w') → J w → J w')
    {m : Routine Ret σ ε α} (hm : m.Performs P) (h : J w) :
    Solo exec pid m (fun _ _ => J) (fun _ _ => J) s w := by
  intro x t w' halone
  have hw : J w' := halone.keeps hkeeps (hm s) h
  cases x with
  | ok a => exact hw
  | error e => exact hw

theorem ite {c : Prop} [Decidable c] {m m' : Routine Ret σ ε α} (hm : c → Solo exec pid m Q X s w)
    (hm' : ¬ c → Solo exec pid m' Q X s w) : Solo exec pid (if c then m else m') Q X s w := by
  by_cases hc : c
  · rw [if_pos hc]
    exact hm hc
  · rw [if_neg hc]
    exact hm' hc

theorem throwWhen {c : Bool} {e : ε} {Q : Unit → σ → World → Prop} (hthrow : c = true → X e s w)
    (hpass : c = false → Q () s w) :
    Solo exec pid (Routine.throwWhen c e : Routine Ret σ ε Unit) Q X s w := by
  cases c with
  | true => exact throw (hthrow rfl)
  | false => exact pure (hpass rfl)

theorem valueOr {value : Option α} {e : ε} (hsome : ∀ a, value = some a → Q a s w)
    (hnone : value = none → X e s w) :
    Solo exec pid (Routine.valueOr value e : Routine Ret σ ε α) Q X s w := by
  cases value with
  | some a => exact pure (hsome a rfl)
  | none => exact throw (hnone rfl)

theorem forEach {xs : List β} {body : β → Routine Ret σ ε Unit} {J : List β → σ → World → Prop}
    (hbody : ∀ x xs s w, J (x :: xs) s w → Solo exec pid (body x) (fun _ => J xs) X s w)
    (h : J xs s w) : Solo exec pid (Routine.forEach xs body) (fun _ => J []) X s w := by
  induction xs generalizing s w with
  | nil => exact pure h
  | cons x xs ih =>
    exact bind ((hbody x xs s w h).mono (fun _ s w hJ => ih hJ) fun _ _ _ hX => hX)

end Solo

/-! ### Runs that are possible -/

/-- Some decisions of the environment bring the routine to a result in `Q`. -/
def Possible (exec : (o : Op) → ℕ → Choice → World → Option (Ret o × World)) (pid : ℕ)
    (m : Routine Ret σ ε α) (Q : α → σ → World → Prop) (s : σ) (w : World) : Prop :=
  ∃ a t w', Alone exec pid (m s) w (.ok a, t) w' ∧ Q a t w'

namespace Possible

variable {Q : α → σ → World → Prop} {s : σ} {w w₁ : World}

theorem pure {a : α} (h : Q a s w) : Possible exec pid (pure a : Routine Ret σ ε α) Q s w :=
  ⟨a, s, w, .ret _ w, h⟩

theorem bind {m : Routine Ret σ ε α} {f : α → Routine Ret σ ε β} {Q : β → σ → World → Prop}
    (h : Possible exec pid m (fun a s w => Possible exec pid (f a) Q s w) s w) :
    Possible exec pid (m >>= f) Q s w := by
  obtain ⟨a, t, w₁, hm, b, t', w', hf, hQ⟩ := h
  exact ⟨b, t', w', hm.bind hf, hQ⟩

theorem tryCatch {m : Routine Ret σ ε α} {f : ε → Routine Ret σ ε α}
    (h : Possible exec pid m Q s w) :
    Possible exec pid (tryCatch m f : Routine Ret σ ε α) Q s w := by
  obtain ⟨a, t, w', hm, hQ⟩ := h
  exact ⟨a, t, w', hm.bind (.ret _ w'), hQ⟩

theorem call {o : Op} {out : Ret o → Except ε α} {r : Ret o} {a : α} (choice : Choice)
    (hexec : exec o pid choice w = some (r, w₁)) (hout : out r = .ok a) (h : Q a s w₁) :
    Possible exec pid (Routine.call o out : Routine Ret σ ε α) Q s w :=
  ⟨a, s, w₁, .op choice hexec (hout ▸ .ret _ w₁), h⟩

theorem perform {o : Op} {r : Ret o} {Q : Ret o → σ → World → Prop} (choice : Choice)
    (hexec : exec o pid choice w = some (r, w₁)) (h : Q r s w₁) :
    Possible exec pid (Routine.perform o : Routine Ret σ ε (Ret o)) Q s w :=
  ⟨r, s, w₁, .op choice hexec (.ret _ w₁), h⟩

theorem mono {Q' : α → σ → World → Prop} {m : Routine Ret σ ε α} (h : Possible exec pid m Q s w)
    (hQ : ∀ a s w, Q a s w → Q' a s w) : Possible exec pid m Q' s w := by
  obtain ⟨a, t, w', hm, hpost⟩ := h
  exact ⟨a, t, w', hm, hQ a t w' hpost⟩

theorem ite {c : Prop} [Decidable c] {m m' : Routine Ret σ ε α} (hm : c → Possible exec pid m Q s w)
    (hm' : ¬ c → Possible exec pid m' Q s w) : Possible exec pid (if c then m else m') Q s w := by
  by_cases hc : c
  · rw [if_pos hc]
    exact hm hc
  · rw [if_neg hc]
    exact hm' hc

theorem throwWhen {c : Bool} {e : ε} {Q : Unit → σ → World → Prop} (hc : c = false) (h : Q () s w) :
    Possible exec pid (Routine.throwWhen c e : Routine Ret σ ε Unit) Q s w := by
  subst hc
  exact pure h

theorem forEach {xs : List β} {body : β → Routine Ret σ ε Unit} {J : σ → World → Prop}
    (hbody : ∀ x s w, J s w → Possible exec pid (body x) (fun _ => J) s w) (h : J s w) :
    Possible exec pid (Routine.forEach xs body) (fun _ => J) s w := by
  induction xs generalizing s w with
  | nil => exact pure h
  | cons x xs ih => exact bind ((hbody x s w h).mono fun _ s w hJ => ih hJ)

end Possible

/-! ### Runs that come to an outcome -/

/-- Some decisions of the environment bring the routine to the outcome `x` and a world in `P`. -/
def Comes (exec : (o : Op) → ℕ → Choice → World → Option (Ret o × World)) (pid : ℕ)
    (m : Routine Ret σ ε α) (x : Except ε α) (P : World → Prop) (s : σ) (w : World) : Prop :=
  ∃ w', Alone exec pid (m s) w (x, s) w' ∧ P w'

namespace Comes

variable {x : Except ε α} {P R : World → Prop} {s : σ} {w w₁ : World}

theorem pure {a : α} (h : P w) : Comes exec pid (pure a : Routine Ret σ ε α) (.ok a) P s w :=
  ⟨w, .ret _ w, h⟩

theorem throw {e : ε} (h : P w) : Comes exec pid (throw e : Routine Ret σ ε α) (.error e) P s w :=
  ⟨w, .ret _ w, h⟩

theorem bind {m : Routine Ret σ ε α} {f : α → Routine Ret σ ε β} {a : α} {x : Except ε β}
    (hm : Comes exec pid m (.ok a) R s w) (hf : ∀ w, R w → Comes exec pid (f a) x P s w) :
    Comes exec pid (m >>= f) x P s w := by
  obtain ⟨w₁, hm, hR⟩ := hm
  obtain ⟨w', hf, hP⟩ := hf w₁ hR
  exact ⟨w', hm.bind hf, hP⟩

theorem bind_error {m : Routine Ret σ ε α} {f : α → Routine Ret σ ε β} {e : ε}
    (hm : Comes exec pid m (.error e) P s w) : Comes exec pid (m >>= f) (.error e) P s w := by
  obtain ⟨w', hm, hP⟩ := hm
  exact ⟨w', hm.bind (.ret _ w'), hP⟩

theorem tried {m : Routine Ret σ ε α} {f : ε → Routine Ret σ ε α} {a : α}
    (hm : Comes exec pid m (.ok a) P s w) :
    Comes exec pid (tryCatch m f : Routine Ret σ ε α) (.ok a) P s w := by
  obtain ⟨w', hm, hP⟩ := hm
  exact ⟨w', hm.bind (.ret _ w'), hP⟩

theorem caught {m : Routine Ret σ ε α} {f : ε → Routine Ret σ ε α} {e : ε}
    (hm : Comes exec pid m (.error e) R s w) (hf : ∀ w, R w → Comes exec pid (f e) x P s w) :
    Comes exec pid (tryCatch m f : Routine Ret σ ε α) x P s w := by
  obtain ⟨w₁, hm, hR⟩ := hm
  obtain ⟨w', hf, hP⟩ := hf w₁ hR
  exact ⟨w', hm.bind hf, hP⟩

theorem call {o : Op} {out : Ret o → Except ε α} {r : Ret o} (choice : Choice)
    (hexec : exec o pid choice w = some (r, w₁)) (h : P w₁) :
    Comes exec pid (Routine.call o out : Routine Ret σ ε α) (out r) P s w :=
  ⟨w₁, .op choice hexec (.ret _ w₁), h⟩

theorem perform {o : Op} {r : Ret o} (choice : Choice) (hexec : exec o pid choice w = some (r, w₁))
    (h : P w₁) : Comes exec pid (Routine.perform o : Routine Ret σ ε (Ret o)) (.ok r) P s w :=
  ⟨w₁, .op choice hexec (.ret _ w₁), h⟩

theorem throwWhen {c : Bool} {e : ε} (hc : c = false) (h : P w) :
    Comes exec pid (Routine.throwWhen c e : Routine Ret σ ε Unit) (.ok ()) P s w := by
  subst hc
  exact pure h

theorem throwWhen_error {c : Bool} {e : ε} (hc : c = true) (h : P w) :
    Comes exec pid (Routine.throwWhen c e : Routine Ret σ ε Unit) (.error e) P s w := by
  subst hc
  exact throw h

theorem forEach {xs : List β} {body : β → Routine Ret σ ε Unit} {J : List β → World → Prop}
    (hbody : ∀ x xs w, J (x :: xs) w → Comes exec pid (body x) (.ok ()) (J xs) s w) (h : J xs w) :
    Comes exec pid (Routine.forEach xs body) (.ok ()) (J []) s w := by
  induction xs generalizing w with
  | nil => exact pure h
  | cons x xs ih => exact bind (hbody x xs w h) fun w' hw' => ih hw'

theorem mono {m : Routine Ret σ ε α} (hm : Comes exec pid m x R s w) (h : ∀ w, R w → P w) :
    Comes exec pid m x P s w := by
  obtain ⟨w', hm, hR⟩ := hm
  exact ⟨w', hm, h w' hR⟩

end Comes

end Async
