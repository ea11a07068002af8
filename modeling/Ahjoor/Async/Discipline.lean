import Ahjoor.Async.Interleaving

/-!
# What a call does, as a discipline on its own log

The *log* of a call is the list of the operations it has performed so far with their replies,
newest first. A *discipline* says which operation may come next after a log, and a body
`Follows` it when, whatever the replies, every operation it performs is allowed by what it has
done before. A body is verified against its discipline on its own: nothing that other calls do
can change its log.

`Obeys` is the same for a routine, with one postcondition for results and one for exceptions,
and has a rule for each construct. `Orderly` carries the discipline over to runs: in every
reachable state the log of each call is lawful, and a call that has returned has left a log
that its postcondition accepts.
-/

namespace Async

variable {Op : Type} {Ret : Op → Type} {Choice World Call ρ α β σ τ ε : Type}

/-! ### Logs -/

/-- An operation with its reply. -/
abbrev Entry (Ret : Op → Type) := (o : Op) × Ret o

/-- The operations a call has performed, newest first. -/
abbrev Log (Ret : Op → Type) := List (Entry Ret)

/-- The log of call `pid` in a trace. -/
def log (pid : ℕ) : List (Event Ret World Call ρ) → Log Ret
  | [] => []
  | .did p o r _ :: es => if p = pid then ⟨o, r⟩ :: log pid es else log pid es
  | .start _ _ :: es | .returned _ _ :: es | .crashed _ :: es => log pid es

@[simp] theorem log_did_self (pid : ℕ) (o : Op) (r : Ret o) (w : World)
    (es : List (Event Ret World Call ρ)) :
    log pid (.did pid o r w :: es) = ⟨o, r⟩ :: log pid es := by
  rw [log, if_pos rfl]

theorem log_cons_of_ne {pid : ℕ} {e : Event Ret World Call ρ} (h : e.pid ≠ pid)
    (es : List (Event Ret World Call ρ)) : log pid (e :: es) = log pid es := by
  cases e with
  | did p o r w => exact if_neg h
  | start p c => rfl
  | returned p a => rfl
  | crashed p => rfl

@[simp] theorem log_start (pid p : ℕ) (c : Call) (es : List (Event Ret World Call ρ)) :
    log pid (.start p c :: es) = log pid es := rfl

@[simp] theorem log_returned (pid p : ℕ) (a : ρ) (es : List (Event Ret World Call ρ)) :
    log pid (.returned p a :: es) = log pid es := rfl

@[simp] theorem log_crashed (pid p : ℕ) (es : List (Event Ret World Call ρ)) :
    log pid (.crashed p :: es) = log pid es := rfl

/-- The log records exactly the call's operation events. -/
theorem mem_log {pid : ℕ} {o : Op} {r : Ret o} {es : List (Event Ret World Call ρ)} :
    ⟨o, r⟩ ∈ log pid es ↔ ∃ w, Event.did pid o r w ∈ es := by
  induction es with
  | nil => simp [log]
  | cons e es ih =>
    by_cases he : e.pid = pid
    · cases e with
      | did p o' r' w' =>
        obtain rfl : p = pid := he
        rw [log_did_self, List.mem_cons, ih]
        constructor
        · rintro (h | ⟨w, hw⟩)
          · cases h
            exact ⟨w', List.mem_cons_self⟩
          · exact ⟨w, List.mem_cons_of_mem _ hw⟩
        · rintro ⟨w, hw⟩
          rcases List.mem_cons.mp hw with h | h
          · cases h
            exact .inl rfl
          · exact .inr ⟨w, h⟩
      | start p c => simpa using ih
      | returned p a => simpa using ih
      | crashed p => simpa using ih
    · rw [log_cons_of_ne he, ih]
      refine exists_congr fun w => ⟨List.mem_cons_of_mem e, fun h => ?_⟩
      exact (List.mem_cons.mp h).resolve_left fun heq => he (by rw [← heq]; rfl)

theorem log_eq_nil {pid : ℕ} {es : List (Event Ret World Call ρ)} (h : ∀ e ∈ es, e.pid ≠ pid) :
    log pid es = [] := by
  induction es with
  | nil => rfl
  | cons e es ih =>
    rw [log_cons_of_ne (h e List.mem_cons_self),
      ih fun e' he' => h e' (List.mem_cons_of_mem e he')]

/-- What is in the log of a call after an operation: the operation, if the call has performed it,
and what was there before. -/
theorem mem_log_did {pid p : ℕ} {o : Op} {r : Ret o} {w : World} {es : List (Event Ret World Call ρ)}
    {e : Entry Ret} (h : e ∈ log p (.did pid o r w :: es)) :
    e ∈ log p es ∨ p = pid ∧ e = ⟨o, r⟩ := by
  by_cases hp : pid = p
  · subst hp
    rw [log_did_self] at h
    exact (List.mem_cons.mp h).symm.imp_right fun heq => ⟨rfl, heq⟩
  · rw [log_cons_of_ne (e := .did pid o r w) hp] at h
    exact .inl h

/-- The log of a call is that of the later events on top of that of the earlier ones. -/
theorem log_append (pid : ℕ) (es es' : List (Event Ret World Call ρ)) :
    log pid (es ++ es') = log pid es ++ log pid es' := by
  induction es with
  | nil => rfl
  | cons e es ih =>
    by_cases he : e.pid = pid
    · cases e with
      | did p o r w =>
        obtain rfl : p = pid := he
        rw [List.cons_append, log_did_self, log_did_self, ih, List.cons_append]
      | _ => exact ih
    · rw [List.cons_append, log_cons_of_ne he, log_cons_of_ne he, ih]

/-! ### Following a discipline -/

/-- Every operation is allowed after the log before it. -/
def Lawful (D : Log Ret → Op → Prop) : Log Ret → Prop
  | [] => True
  | e :: L => D L e.1 ∧ Lawful D L

/-- An entry of a lawful log was allowed by the log before it. -/
theorem Lawful.allowed {D : Log Ret → Op → Prop} {L : Log Ret} (h : Lawful D L) {e : Entry Ret}
    (he : e ∈ L) : ∃ L', e :: L' <:+ L ∧ D L' e.1 := by
  induction L with
  | nil => cases he
  | cons e' L ih =>
    rcases List.mem_cons.mp he with rfl | he
    · exact ⟨L, List.suffix_refl _, h.1⟩
    · obtain ⟨L', hL', hD⟩ := ih h.2 he
      exact ⟨L', hL'.trans (List.suffix_cons e' L), hD⟩

/-- Whatever the replies, the computation performs allowed operations only, and its result and
log satisfy `Q`. -/
def Follows (D : Log Ret → Op → Prop) (Q : α → Log Ret → Prop) : Prog Ret α → Log Ret → Prop
  | .ret a, L => Q a L
  | .op o k, L => D L o ∧ ∀ r, Follows D Q (k r) (⟨o, r⟩ :: L)

section Follows

variable {D : Log Ret → Op → Prop}

theorem Follows.bind {Q : α → Log Ret → Prop} {Q' : β → Log Ret → Prop} {p : Prog Ret α}
    {f : α → Prog Ret β} {L : Log Ret} (hp : Follows D Q p L)
    (hf : ∀ a L, Q a L → Follows D Q' (f a) L) : Follows D Q' (p.bind f) L := by
  induction p generalizing L with
  | ret a => exact hf a L hp
  | op o k ih => exact ⟨hp.1, fun r => ih r (hp.2 r)⟩

theorem Follows.mono {Q Q' : α → Log Ret → Prop} (hQ : ∀ a L, Q a L → Q' a L)
    {p : Prog Ret α} {L : Log Ret} (hp : Follows D Q p L) : Follows D Q' p L := by
  induction p generalizing L with
  | ret a => exact hQ a L hp
  | op o k ih => exact ⟨hp.1, fun r => ih r (hp.2 r)⟩

/-- A discipline that allows more. -/
theorem Follows.weaken {D' : Log Ret → Op → Prop} (hD : ∀ L o, D L o → D' L o) {Q : α → Log Ret → Prop}
    {p : Prog Ret α} {L : Log Ret} (hp : Follows D Q p L) : Follows D' Q p L := by
  induction p generalizing L with
  | ret a => exact hp
  | op o k ih => exact ⟨hD L o hp.1, fun r => ih r (hp.2 r)⟩

/-- Where everything is allowed from a log on, every computation follows. -/
theorem Follows.of_forall {Q : α → Log Ret → Prop} {L : Log Ret}
    (hD : ∀ L', L <:+ L' → ∀ o, D L' o) (hQ : ∀ L', L <:+ L' → ∀ a, Q a L') (p : Prog Ret α) :
    Follows D Q p L := by
  induction p generalizing L with
  | ret a => exact hQ L (List.suffix_refl L) a
  | op o k ih =>
    refine ⟨hD L (List.suffix_refl L) o, fun r => ?_⟩
    have hsuffix : ∀ L', (⟨o, r⟩ : Entry Ret) :: L <:+ L' → L <:+ L' := fun _ h =>
      (List.suffix_cons _ L).trans h
    exact ih r (fun L' h => hD L' (hsuffix L' h)) fun L' h => hQ L' (hsuffix L' h)

/-- While the fact `A` holds of the log, the operations in `P` are allowed, and keep it. -/
structure Admits (D : Log Ret → Op → Prop) (P : Op → Prop) (A : Log Ret → Prop) : Prop where
  allowed : ∀ L o, A L → P o → D L o
  kept : ∀ L o r, A L → P o → A (⟨o, r⟩ :: L)

/-- A computation whose operations are all admitted. -/
theorem Follows.of_uses {P : Op → Prop} {R : α → Prop} {A : Log Ret → Prop} (hA : Admits D P A)
    {p : Prog Ret α} (hp : p.Uses P R) {L : Log Ret} (h : A L) :
    Follows D (fun a L' => R a ∧ A L') p L := by
  induction p generalizing L with
  | ret a => exact ⟨hp, h⟩
  | op o k ih =>
    exact ⟨hA.allowed L o h hp.1, fun r => ih r (hp.2 r) (hA.kept L o r h hp.1)⟩

end Follows

/-! ### Single executions -/

/-- From the log `L` on, by replies that satisfy `P`, the computation comes to the result `a` and
leaves the log `L'`. -/
inductive Ends (P : Entry Ret → Prop) : Prog Ret α → Log Ret → α → Log Ret → Prop
  | ret (a : α) (L : Log Ret) : Ends P (.ret a) L a L
  | op {o : Op} {k : Ret o → Prog Ret α} {L L' : Log Ret} {a : α} (r : Ret o) (hr : P ⟨o, r⟩)
      (h : Ends P (k r) (⟨o, r⟩ :: L) a L') : Ends P (.op o k) L a L'

namespace Ends

variable {P : Entry Ret → Prop}

theorem bind {p : Prog Ret α} {f : α → Prog Ret β} {L L₁ L₂ : Log Ret} {a : α} {b : β}
    (hp : Ends P p L a L₁) (hf : Ends P (f a) L₁ b L₂) : Ends P (p.bind f) L b L₂ := by
  induction hp with
  | ret a L => exact hf
  | op r hr _ ih => exact .op r hr (ih hf)

theorem mono {P' : Entry Ret → Prop} {p : Prog Ret α} {L L' : Log Ret} {a : α}
    (hp : Ends P p L a L') (hP : ∀ e, P e → P' e) : Ends P' p L a L' := by
  induction hp with
  | ret a L => exact .ret a L
  | op r hr _ ih => exact .op r (hP _ hr) ih

/-- The replies of an execution are all in its log. -/
theorem forall_mem {p : Prog Ret α} {L L' : Log Ret} {a : α} (hp : Ends P p L a L')
    (hL : ∀ e ∈ L, P e) : ∀ e ∈ L', P e := by
  induction hp with
  | ret a L => exact hL
  | op r hr _ ih => exact ih (List.forall_mem_cons.mpr ⟨hr, hL⟩)

/-- What holds whatever the replies holds of each execution. -/
theorem post {D : Log Ret → Op → Prop} {Q : α → Log Ret → Prop} {p : Prog Ret α} {L L' : Log Ret}
    {a : α} (hp : Ends P p L a L') (h : Follows D Q p L) : Q a L' := by
  induction hp with
  | ret a L => exact h
  | op r hr _ ih => exact ih (h.2 r)

variable {m : Routine Ret σ ε α} {s t : σ} {L L₁ L₂ : Log Ret} {a : α} {e : ε}

theorem andThen {f : α → Routine Ret σ ε β} {x : Except ε β × σ} (hm : Ends P (m s) L (.ok a, t) L₁)
    (hf : Ends P (f a t) L₁ x L₂) : Ends P ((m >>= f) s) L x L₂ :=
  hm.bind hf

theorem tried {f : ε → Routine Ret σ ε α} (hm : Ends P (m s) L (.ok a, t) L₁) :
    Ends P ((tryCatch m f : Routine Ret σ ε α) s) L (.ok a, t) L₁ :=
  hm.bind (.ret _ _)

theorem caught {f : ε → Routine Ret σ ε α} {x : Except ε α × σ}
    (hm : Ends P (m s) L (.error e, t) L₁) (hf : Ends P (f e t) L₁ x L₂) :
    Ends P ((tryCatch m f : Routine Ret σ ε α) s) L x L₂ :=
  hm.bind hf

theorem perform {o : Op} (r : Ret o) (hr : P ⟨o, r⟩) :
    Ends P ((Routine.perform o : Routine Ret σ ε (Ret o)) s) L (.ok r, s) (⟨o, r⟩ :: L) :=
  .op r hr (.ret _ _)

theorem call {o : Op} {out : Ret o → Except ε α} (r : Ret o) (hr : P ⟨o, r⟩) :
    Ends P (Routine.call o out s) L (out r, s) (⟨o, r⟩ :: L) :=
  .op r hr (.ret _ _)

end Ends

/-! ### Rules for routines -/

/-- `Q` at a result, `X` at an exception. -/
def Outcome (Q : α → σ → Log Ret → Prop) (X : ε → σ → Log Ret → Prop) :
    Except ε α × σ → Log Ret → Prop
  | (.ok a, t), L => Q a t L
  | (.error e, t), L => X e t L

/-- Nothing is claimed of the end of a routine. -/
abbrev Anyhow : α → σ → Log Ret → Prop := fun _ _ _ => True

/-- `Follows` for a routine started with captured variables `s`: `Q` at a result, `X` at an
exception. -/
structure Obeys (D : Log Ret → Op → Prop) (m : Routine Ret σ ε α) (Q : α → σ → Log Ret → Prop)
    (X : ε → σ → Log Ret → Prop) (s : σ) (L : Log Ret) : Prop where
  follows : Follows D (Outcome Q X) (m s) L

namespace Obeys

variable {D : Log Ret → Op → Prop} {Q : α → σ → Log Ret → Prop} {X : ε → σ → Log Ret → Prop}
  {s : σ} {L : Log Ret}

theorem pure {a : α} (hq : Q a s L) : Obeys D (pure a : Routine Ret σ ε α) Q X s L := ⟨hq⟩

theorem throw {e : ε} (hx : X e s L) : Obeys D (throw e : Routine Ret σ ε α) Q X s L := ⟨hx⟩

theorem get {Q : σ → σ → Log Ret → Prop} (hq : Q s s L) :
    Obeys D (get : Routine Ret σ ε σ) Q X s L := ⟨hq⟩

theorem modify {f : σ → σ} {Q : PUnit → σ → Log Ret → Prop} (hq : Q ⟨⟩ (f s) L) :
    Obeys D (modify f : Routine Ret σ ε PUnit) Q X s L := ⟨hq⟩

theorem bind {m : Routine Ret σ ε α} {f : α → Routine Ret σ ε β} {Q : β → σ → Log Ret → Prop}
    (hm : Obeys D m (fun a t L => Obeys D (f a) Q X t L) X s L) : Obeys D (m >>= f) Q X s L := by
  refine ⟨hm.follows.bind fun x L hx => ?_⟩
  rcases x with ⟨e | a, t⟩
  · exact hx
  · exact hx.follows

theorem tryCatch {m : Routine Ret σ ε α} {f : ε → Routine Ret σ ε α}
    (hm : Obeys D m Q (fun e t L => Obeys D (f e) Q X t L) s L) :
    Obeys D (tryCatch m f) Q X s L := by
  refine ⟨hm.follows.bind fun x L hx => ?_⟩
  rcases x with ⟨e | a, t⟩
  · exact hx.follows
  · exact hx

theorem scope {m : Routine Ret τ ε α} {t : τ} {Q : α × τ → σ → Log Ret → Prop}
    (hm : Obeys D m (fun a t L => Q (a, t) s L) (fun e _ L => X e s L) t L) :
    Obeys D (Routine.scope t m) Q X s L := by
  refine ⟨hm.follows.bind fun x L hx => ?_⟩
  rcases x with ⟨e | a, t⟩ <;> exact hx

theorem mono {Q' : α → σ → Log Ret → Prop} {X' : ε → σ → Log Ret → Prop}
    {m : Routine Ret σ ε α} (hm : Obeys D m Q X s L) (hQ : ∀ a t L, Q a t L → Q' a t L)
    (hX : ∀ e t L, X e t L → X' e t L) : Obeys D m Q' X' s L := by
  refine ⟨hm.follows.mono fun x L hx => ?_⟩
  rcases x with ⟨e | a, t⟩
  · exact hX e t L hx
  · exact hQ a t L hx

/-- The rule for an awaited operation. -/
theorem call {o : Op} {out : Ret o → Except ε α} (hD : D L o)
    (hr : ∀ r, match out r with
      | .ok a => Q a s (⟨o, r⟩ :: L)
      | .error e => X e s (⟨o, r⟩ :: L)) : Obeys D (Routine.call o out) Q X s L := by
  refine ⟨hD, fun r => ?_⟩
  have h := hr r
  rcases hout : out r with e | a <;> simpa [Follows, Outcome, hout] using h

theorem perform {o : Op} {Q : Ret o → σ → Log Ret → Prop} (hD : D L o)
    (hr : ∀ r, Q r s (⟨o, r⟩ :: L)) :
    Obeys D (Routine.perform o : Routine Ret σ ε (Ret o)) Q X s L :=
  ⟨hD, hr⟩

theorem throwWhen {c : Bool} {e : ε} {Q : Unit → σ → Log Ret → Prop}
    (hthrow : c = true → X e s L) (hpass : c = false → Q () s L) :
    Obeys D (Routine.throwWhen c e) Q X s L := by
  cases c with
  | true => exact throw (hthrow rfl)
  | false => exact pure (hpass rfl)

theorem valueOr {value : Option α} {e : ε} (hsome : ∀ a, value = some a → Q a s L)
    (hnone : value = none → X e s L) : Obeys D (Routine.valueOr value e) Q X s L := by
  cases value with
  | some a => exact pure (hsome a rfl)
  | none => exact throw (hnone rfl)

theorem ite {c : Prop} [Decidable c] {m m' : Routine Ret σ ε α} (hm : c → Obeys D m Q X s L)
    (hm' : ¬ c → Obeys D m' Q X s L) : Obeys D (if c then m else m') Q X s L := by
  split_ifs with hc
  · exact hm hc
  · exact hm' hc

theorem forEach {xs : List β} {body : β → Routine Ret σ ε Unit} {J : List β → σ → Log Ret → Prop}
    (hb : ∀ x xs t L, J (x :: xs) t L → Obeys D (body x) (fun _ => J xs) X t L) (h : J xs s L) :
    Obeys D (Routine.forEach xs body) (fun _ => J []) X s L := by
  induction xs generalizing s L with
  | nil => exact pure h
  | cons x xs ih =>
    exact bind ((hb x xs s L h).mono (fun _ t L hJ => ih hJ) fun _ _ _ hX => hX)

/-- Where everything is allowed from a log on, every routine obeys. -/
theorem of_forall (hD : ∀ L', L <:+ L' → ∀ o, D L' o) (hQ : ∀ L', L <:+ L' → ∀ a t, Q a t L')
    (hX : ∀ L', L <:+ L' → ∀ e t, X e t L') (m : Routine Ret σ ε α) : Obeys D m Q X s L := by
  refine ⟨Follows.of_forall hD (fun L' hL' x => ?_) _⟩
  rcases x with ⟨e | a, t⟩
  · exact hX L' hL' e t
  · exact hQ L' hL' a t

/-- A routine whose operations are all admitted. -/
theorem of_uses {P : Op → Prop} {A : Log Ret → Prop} (hA : Admits D P A)
    {m : Routine Ret σ ε α} (hm : m.Uses P) (h : A L) :
    Obeys D m (fun _ t L' => t = s ∧ A L') (fun _ t L' => t = s ∧ A L') s L := by
  refine ⟨(Follows.of_uses hA (hm s) h).mono fun x L hx => ?_⟩
  rcases x with ⟨e | a, t⟩ <;> exact hx

theorem of_performs {P : Op → Prop} {A : Log Ret → Prop} (hA : Admits D P A)
    {m : Routine Ret σ ε α} (hm : m.Performs P) (h : A L) :
    Obeys D m (fun _ _ => A) (fun _ _ => A) s L := by
  refine ⟨(Follows.of_uses hA (hm s) h).mono fun x L hx => ?_⟩
  rcases x with ⟨e | a, t⟩ <;> exact hx.2

/-- The same for a first part of a routine. -/
theorem bind_uses {P : Op → Prop} {A : Log Ret → Prop} (hA : Admits D P A)
    {m : Routine Ret σ ε α} {f : α → Routine Ret σ ε β} {Q : β → σ → Log Ret → Prop}
    (hm : m.Uses P) (h : A L) (hf : ∀ a L', A L' → Obeys D (f a) Q X s L')
    (hX : ∀ e L', A L' → X e s L') : Obeys D (m >>= f) Q X s L := by
  refine bind ((of_uses hA hm h).mono (fun a t L' hL' => ?_) fun e t L' hL' => ?_)
  · obtain ⟨rfl, hL'⟩ := hL'
    exact hf a L' hL'
  · obtain ⟨rfl, hL'⟩ := hL'
    exact hX e L' hL'

/-- Where everything is allowed, nothing need be said of a first part of a routine. -/
theorem bind_any {m : Routine Ret σ ε α} {f : α → Routine Ret σ ε β} {Q : β → σ → Log Ret → Prop}
    (hf : ∀ a t L', L <:+ L' → Obeys (fun _ _ => True) (f a) Q (fun _ _ _ => True) t L') :
    Obeys (fun _ _ => True) (m >>= f) Q (fun _ _ _ => True) s L :=
  bind (of_forall (fun _ _ _ => trivial) (fun L' hL' a t => hf a t L' hL')
    (fun _ _ _ _ => trivial) m)

end Obeys

/-! ### Disciplines in runs -/

/-- In a state of a run, every call's log is lawful for its call, what is left of a call in
flight follows its discipline, and a call that has returned satisfies its postcondition. -/
structure Orderly (D : Call → Log Ret → Op → Prop) (Q : Call → ρ → Log Ret → Prop)
    (s : State Ret World Call ρ) : Prop where
  lawful : ∀ pid c, Event.start pid c ∈ s.hist.trace → Lawful (D c) (log pid s.hist.trace)
  running : ∀ pid c p, Event.start pid c ∈ s.hist.trace → s.task pid = some p →
    Follows (D c) (Q c) p (log pid s.hist.trace)
  returned : ∀ pid c a, Event.start pid c ∈ s.hist.trace → Event.returned pid a ∈ s.hist.trace →
    Q c a (log pid s.hist.trace)

section Orderly

variable {S : System Ret Choice World Call ρ} {D : Call → Log Ret → Op → Prop}
  {Q : Call → ρ → Log Ret → Prop}

theorem Orderly.step (hbody : ∀ c, Follows (D c) (Q c) (S.body c) []) {s s' : State Ret World Call ρ}
    (hl : System.Lifecycle s) (hs : Orderly D Q s) (h : System.StepKind S s s') :
    Orderly D Q s' := by
  cases h with
  | start c =>
    have hlog : log s.started s.hist.trace = [] :=
      log_eq_nil fun e he => Nat.ne_of_lt (hl.lt_started e he)
    have cases_start : ∀ {pid c'}, Event.start pid c' ∈ (s.hist.push (.start s.started c)
        s.hist.world).trace → (pid = s.started ∧ c' = c) ∨ (Event.start pid c' ∈ s.hist.trace) := by
      intro pid c' h
      rcases List.mem_cons.mp h with h | h
      · cases h
        exact .inl ⟨rfl, rfl⟩
      · exact .inr h
    refine ⟨fun pid c' h => ?_, fun pid c' p h hp => ?_, fun pid c' a h ha => ?_⟩
    · rw [Hist.push_trace, log_start]
      rcases cases_start h with ⟨rfl, rfl⟩ | h
      · rw [hlog]
        trivial
      · exact hs.lawful pid c' h
    · rw [Hist.push_trace, log_start]
      rcases cases_start h with ⟨rfl, rfl⟩ | h
      · rw [hlog]
        obtain rfl : S.body c' = p := by simpa using hp
        exact hbody c'
      · have hne : pid ≠ s.started := Nat.ne_of_lt (hl.lt_started _ h)
        exact hs.running pid c' p h (by simpa [hne] using hp)
    · rw [Hist.push_trace, log_start]
      have ha' : Event.returned pid a ∈ s.hist.trace := by simpa using ha
      rcases cases_start h with ⟨rfl, rfl⟩ | h
      · exact absurd (hl.lt_started _ ha') (Nat.lt_irrefl _)
      · exact hs.returned pid c' a h ha'
  | run pid o k choice r w htask hexec =>
    have hold : ∀ {p c}, Event.start p c ∈ (s.hist.push (.did pid o r s.hist.world) w).trace →
        Event.start p c ∈ s.hist.trace := fun h => by simpa using h
    refine ⟨fun p c h => ?_, fun p c q h hq => ?_, fun p c a h ha => ?_⟩
    · by_cases hp : p = pid
      · subst hp
        rw [Hist.push_trace, log_did_self]
        exact ⟨(hs.running p c _ (hold h) htask).1, hs.lawful p c (hold h)⟩
      · rw [Hist.push_trace, log_cons_of_ne (fun h => hp h.symm)]
        exact hs.lawful p c (hold h)
    · by_cases hp : p = pid
      · subst hp
        rw [Hist.push_trace, log_did_self]
        obtain rfl : k r = q := by simpa using hq
        exact (hs.running p c _ (hold h) htask).2 r
      · rw [Hist.push_trace, log_cons_of_ne (fun h => hp h.symm)]
        exact hs.running p c q (hold h) (by simpa [hp] using hq)
    · have ha' : Event.returned p a ∈ s.hist.trace := by simpa using ha
      have hp : (Event.did pid o r s.hist.world : Event Ret World Call ρ).pid ≠ p := fun heq =>
        (hl.running pid _ htask).2 _ ha' rfl heq.symm
      rw [Hist.push_trace, log_cons_of_ne hp]
      exact hs.returned p c a (hold h) ha'
  | finish pid a htask =>
    have hold : ∀ {p c}, Event.start p c ∈ (s.hist.push (.returned pid a) s.hist.world).trace →
        Event.start p c ∈ s.hist.trace := fun h => by simpa using h
    refine ⟨fun p c h => hs.lawful p c (hold h), fun p c q h hq => ?_, fun p c a' h ha => ?_⟩
    · by_cases hp : p = pid
      · subst hp
        simp at hq
      · exact hs.running p c q (hold h) (by simpa [hp] using hq)
    · rcases List.mem_cons.mp ha with ha | ha
      · cases ha
        exact hs.running pid c _ (hold h) htask
      · exact hs.returned p c a' (hold h) ha
  | crash pid q htask =>
    have hold : ∀ {p c}, Event.start p c ∈ (s.hist.push (.crashed pid) s.hist.world).trace →
        Event.start p c ∈ s.hist.trace := fun h => by simpa using h
    refine ⟨fun p c h => hs.lawful p c (hold h), fun p c q h hq => ?_, fun p c a h ha => ?_⟩
    · by_cases hp : p = pid
      · subst hp
        simp at hq
      · exact hs.running p c q (hold h) (by simpa [hp] using hq)
    · exact hs.returned p c a (hold h) (by simpa using ha)

/-- **Every run is orderly** when every body follows its discipline. -/
theorem orderly_of_reachable (hbody : ∀ c, Follows (D c) (Q c) (S.body c) [])
    {ok : Hist Ret World Call ρ → Hist Ret World Call ρ → Prop} {w : World}
    {s : State Ret World Call ρ} (hr : S.ReachableWhen ok (.init w) s) : Orderly D Q s :=
  (System.ReachableWhen.rule (J := Orderly D Q)
    ⟨by simp [State.init], by simp [State.init], by simp [State.init]⟩
    (fun _ _ hl _ hs hk _ => hs.step hbody hl hk) hr).2

/-! ### Disciplines in histories -/

/-- Every event of the history belongs to one started call, whose log is lawful, and a call that
has returned satisfies its postcondition. -/
structure Disciplined (D : Call → Log Ret → Op → Prop) (Q : Call → ρ → Log Ret → Prop)
    (h : Hist Ret World Call ρ) : Prop where
  start_mem : ∀ e ∈ h.trace, ∃ c, Event.start e.pid c ∈ h.trace
  start_unique : ∀ pid c c', Event.start pid c ∈ h.trace → Event.start pid c' ∈ h.trace → c = c'
  lawful : ∀ pid c, Event.start pid c ∈ h.trace → Lawful (D c) (log pid h.trace)
  returned : ∀ pid c a, Event.start pid c ∈ h.trace → Event.returned pid a ∈ h.trace →
    Q c a (log pid h.trace)

/-- What a step adds to a history, for a call that has not ended: an event that performs nothing,
or an operation that the discipline of its call allows. -/
inductive HistStep (S : System Ret Choice World Call ρ) (D : Call → Log Ret → Op → Prop)
    (h : Hist Ret World Call ρ) : Hist Ret World Call ρ → Prop
  | idle (e : Event Ret World Call ρ) (he : ∀ pid es, log pid (e :: es) = log pid es)
      (hlive : ∀ e' ∈ h.trace, e'.isEnd = true → e'.pid ≠ e.pid) :
      HistStep S D h (h.push e h.world)
  | did (pid : ℕ) (c : Call) (o : Op) (choice : Choice) (r : Ret o) (w : World)
      (hstart : Event.start pid c ∈ h.trace) (hD : D c (log pid h.trace) o)
      (hexec : S.exec o pid choice h.world = some (r, w))
      (hlive : ∀ e' ∈ h.trace, e'.isEnd = true → e'.pid ≠ pid) :
      HistStep S D h (h.push (.did pid o r h.world) w)

/-- An event that leaves every log alone is no operation. -/
theorem not_did_of_log {e : Event Ret World Call ρ} (he : ∀ pid es, log pid (e :: es) = log pid es)
    (pid : ℕ) (o : Op) (r : Ret o) (w : World) : e ≠ .did pid o r w := by
  rintro rfl
  have hlog := he pid []
  rw [log_did_self] at hlog
  exact List.cons_ne_nil _ _ hlog

/-- The call that a process runs. -/
def callOf (pid : ℕ) (es : List (Event Ret World Call ρ)) : Option Call :=
  es.findSome? fun e =>
    match e with
    | .start p c => if p = pid then some c else none
    | _ => none

/-- The call of a process that has started only one. -/
theorem callOf_of_start {es : List (Event Ret World Call ρ)} {pid : ℕ} {c : Call}
    (hunique : ∀ c', Event.start pid c' ∈ es → c' = c) (hstart : Event.start pid c ∈ es) :
    callOf pid es = some c := by
  have hsome : (callOf pid es).isSome := by
    rw [callOf, List.findSome?_isSome_iff]
    exact ⟨_, hstart, by simp⟩
  obtain ⟨c', hc'⟩ := Option.isSome_iff_exists.mp hsome
  obtain ⟨e, he, hfound⟩ := List.exists_of_findSome?_eq_some hc'
  cases e with
  | start p c'' =>
    dsimp only at hfound
    split_ifs at hfound with hp
    subst hp
    obtain rfl := Option.some.inj hfound
    rw [hc', hunique _ he]
  | did p o r w | returned p a | crashed p => cases hfound

/-- What a step adds to the log of a call is an operation of the call, with its reply. -/
theorem HistStep.mem_log {h h' : Hist Ret World Call ρ} (hs : HistStep S D h h') {pid : ℕ}
    {e : Entry Ret} (he : e ∈ log pid h'.trace) :
    e ∈ log pid h.trace ∨ ∃ choice, S.exec e.1 pid choice h.world = some (e.2, h'.world) := by
  cases hs with
  | idle e' he' hlive => exact .inl ((he' pid h.trace) ▸ he)
  | did p c o choice r w hstart hD hexec hlive =>
    by_cases hp : p = pid
    · subst hp
      rw [Hist.push_trace, log_did_self] at he
      rcases List.mem_cons.mp he with rfl | he
      · exact .inr ⟨choice, hexec⟩
      · exact .inl he
    · rw [Hist.push_trace, log_cons_of_ne (e := .did p o r h.world) hp] at he
      exact .inl he

/-- No call ends twice. -/
def EndsOnce (h : Hist Ret World Call ρ) : Prop :=
  ∀ e e', e ∈ h.trace → e' ∈ h.trace → e.isEnd = true → e'.isEnd = true → e.pid = e'.pid → e = e'

theorem EndsOnce.step {h h' : Hist Ret World Call ρ} (hh : EndsOnce h) (hs : HistStep S D h h') :
    EndsOnce h' := by
  cases hs with
  | idle e₀ _ hlive =>
    intro e e' he he' hend hend' hpid
    rcases List.mem_cons.mp he with rfl | hold <;> rcases List.mem_cons.mp he' with rfl | hold'
    · rfl
    · exact absurd hpid.symm (hlive e' hold' hend')
    · exact absurd hpid (hlive e hold hend)
    · exact hh e e' hold hold' hend hend' hpid
  | did pid c o choice r w _ _ _ _ =>
    have hold : ∀ e ∈ (h.push (.did pid o r h.world) w).trace, e.isEnd = true → e ∈ h.trace := by
      intro e he hend
      refine (List.mem_cons.mp he).resolve_left ?_
      rintro rfl
      cases hend
    exact fun e e' he he' hend hend' hpid => hh e e' (hold e he hend) (hold e' he' hend') hend hend' hpid

theorem Orderly.disciplined {s : State Ret World Call ρ} (hl : System.Lifecycle s)
    (hs : Orderly D Q s) : Disciplined D Q s.hist :=
  ⟨fun e he => hl.start_mem e.pid (hl.lt_started e he), hl.start_unique, hs.lawful, hs.returned⟩

theorem Orderly.histStep {s s' : State Ret World Call ρ} (hl : System.Lifecycle s)
    (hs : Orderly D Q s) (h : System.StepKind S s s') : HistStep S D s.hist s'.hist := by
  cases h with
  | start c => exact .idle _ (fun _ _ => rfl) fun e he _ => Nat.ne_of_lt (hl.lt_started e he)
  | finish pid a htask => exact .idle _ (fun _ _ => rfl) (hl.running pid _ htask).2
  | crash pid p htask => exact .idle _ (fun _ _ => rfl) (hl.running pid _ htask).2
  | run pid o k choice r w htask hexec =>
    obtain ⟨c, hc⟩ := hl.start_mem pid (hl.running pid _ htask).1
    exact .did pid c o choice r w hc (hs.running pid c _ hc htask).1 hexec
      (hl.running pid _ htask).2

/-- **The rule for histories**: an invariant of the history alone. -/
theorem hist_invariant (hbody : ∀ c, Follows (D c) (Q c) (S.body c) [])
    {ok : Hist Ret World Call ρ → Hist Ret World Call ρ → Prop} {I : Hist Ret World Call ρ → Prop}
    {w : World} (h₀ : I ⟨w, []⟩)
    (hstep : ∀ h h', Disciplined D Q h → Disciplined D Q h' → I h → HistStep S D h h' →
      ok h h' → I h')
    {s : State Ret World Call ρ} (hr : S.ReachableWhen ok (.init w) s) : I s.hist :=
  (System.ReachableWhen.rule (J := fun s => Orderly D Q s ∧ I s.hist)
    ⟨⟨by simp [State.init], by simp [State.init], by simp [State.init]⟩, h₀⟩
    (fun _ _ hl hl' hs hk hok =>
      have ho := hs.1.step hbody hl hk
      ⟨ho, hstep _ _ (hs.1.disciplined hl) (ho.disciplined hl') hs.2 (hs.1.histStep hl hk) hok⟩)
    hr).2.2

theorem disciplined_of_reachable (hbody : ∀ c, Follows (D c) (Q c) (S.body c) [])
    {ok : Hist Ret World Call ρ → Hist Ret World Call ρ → Prop} {w : World}
    {s : State Ret World Call ρ} (hr : S.ReachableWhen ok (.init w) s) : Disciplined D Q s.hist :=
  hist_invariant hbody (I := Disciplined D Q) ⟨by simp, by simp, by simp, by simp⟩
    (fun _ _ _ hd' _ _ _ => hd') hr

end Orderly

end Async
