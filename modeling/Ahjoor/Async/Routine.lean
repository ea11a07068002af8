import Mathlib.Logic.Function.Basic
import Mathlib.Data.List.Basic

/-!
# Suspended asynchronous computations

An `async` function runs synchronously from one `await` to the next. `Prog Ret α` is the
tree of such a run: a leaf is a finished computation, a node is a pending operation `o`
together with the synchronous continuation that receives its reply in `Ret o`. Between two
nodes nothing else can happen, so a node is exactly the grain at which concurrent calls
interleave.

`Routine Ret σ ε α` adds what the body of such a function has besides its awaits: the
variables `σ` that closures capture and mutate, and thrown exceptions `ε`. The variables
survive a throw, as they do in the source language: a handler sees the assignments made
before the exception. Bodies are written in `do`-notation; `call` awaits an operation whose
reply may be an exception.

Nothing here depends on a particular set of operations.
-/

namespace Async

variable {Op : Type} {Ret : Op → Type} {σ τ ε α β γ : Type}

/-! ### Operation trees -/

/-- A suspended computation: finished, or waiting for the reply to an operation. -/
inductive Prog (Ret : Op → Type) (α : Type) : Type
  | ret (a : α)
  | op (o : Op) (k : Ret o → Prog Ret α)

namespace Prog

/-- Sequencing: graft `f` at every leaf. -/
def bind : Prog Ret α → (α → Prog Ret β) → Prog Ret β
  | ret a, f => f a
  | op o k, f => op o fun r => (k r).bind f

@[simp] theorem bind_ret (a : α) (f : α → Prog Ret β) : (ret a).bind f = f a := rfl

@[simp] theorem bind_op (o : Op) (k : Ret o → Prog Ret α) (f : α → Prog Ret β) :
    (op o k).bind f = op o fun r => (k r).bind f := rfl

theorem bind_assoc (p : Prog Ret α) (f : α → Prog Ret β) (g : β → Prog Ret γ) :
    (p.bind f).bind g = p.bind fun a => (f a).bind g := by
  induction p with
  | ret a => rfl
  | op o k ih => exact congrArg (op o) (funext ih)

/-- Whatever the replies, every operation the computation performs satisfies `P`, and so does
its result `R`. -/
def Uses (P : Op → Prop) (R : α → Prop) : Prog Ret α → Prop
  | ret a => R a
  | op o k => P o ∧ ∀ r, (k r).Uses P R

theorem Uses.bind {P : Op → Prop} {R : α → Prop} {R' : β → Prop} {p : Prog Ret α}
    {f : α → Prog Ret β} (hp : p.Uses P R) (hf : ∀ a, R a → (f a).Uses P R') :
    (p.bind f).Uses P R' := by
  induction p with
  | ret a => exact hf a hp
  | op o k ih => exact ⟨hp.1, fun r => ih r (hp.2 r)⟩

theorem Uses.mono {P P' : Op → Prop} {R : α → Prop} (h : ∀ o, P o → P' o) {p : Prog Ret α}
    (hp : p.Uses P R) : p.Uses P' R := by
  induction p with
  | ret a => exact hp
  | op o k ih => exact ⟨h o hp.1, fun r => ih r (hp.2 r)⟩

theorem Uses.weaken {P : Op → Prop} {R R' : α → Prop} {p : Prog Ret α} (hp : p.Uses P R)
    (h : ∀ a, R a → R' a) : p.Uses P R' := by
  induction p with
  | ret a => exact h a hp
  | op o k ih => exact ⟨hp.1, fun r => ih r (hp.2 r)⟩

end Prog

/-! ### Routines: captured variables and exceptions -/

/-- The body of an asynchronous function with captured variables `σ` and exceptions `ε`. -/
def Routine (Ret : Op → Type) (σ ε α : Type) : Type :=
  σ → Prog Ret (Except ε α × σ)

namespace Routine

/-- The continuation of a `bind`: an exception skips it, the variables pass through. -/
def next (f : α → Routine Ret σ ε β) : Except ε α × σ → Prog Ret (Except ε β × σ)
  | (.ok a, s) => f a s
  | (.error e, s) => .ret (.error e, s)

/-- The continuation of a handler: a normal result skips it. -/
def recover (f : ε → Routine Ret σ ε α) : Except ε α × σ → Prog Ret (Except ε α × σ)
  | (.ok a, s) => .ret (.ok a, s)
  | (.error e, s) => f e s

/-- Run a body on captured variables of its own, handing them back with the result. -/
def leave (s : σ) : Except ε α × τ → Prog Ret (Except ε (α × τ) × σ)
  | (.ok a, t) => .ret (.ok (a, t), s)
  | (.error e, _) => .ret (.error e, s)

instance : Monad (Routine Ret σ ε) where
  pure a := fun s => .ret (.ok a, s)
  bind m f := fun s => (m s).bind (next f)

instance : MonadExceptOf ε (Routine Ret σ ε) where
  throw e := fun s => .ret (.error e, s)
  tryCatch m f := fun s => (m s).bind (recover f)

instance : MonadStateOf σ (Routine Ret σ ε) where
  get := fun s => .ret (.ok s, s)
  set t := fun _ => .ret (.ok (), t)
  modifyGet f := fun s => .ret (.ok (f s).1, (f s).2)

theorem bind_assoc (m : Routine Ret σ ε α) (f : α → Routine Ret σ ε β)
    (g : β → Routine Ret σ ε γ) : (m >>= f) >>= g = m >>= fun a => f a >>= g := by
  funext s
  refine (Prog.bind_assoc _ _ _).trans (congrArg (m s).bind (funext fun x => ?_))
  obtain ⟨e | a, t⟩ := x <;> rfl

theorem pure_bind (a : α) (f : α → Routine Ret σ ε β) : pure a >>= f = f a := rfl

/-- Await an operation that cannot throw. -/
def perform (o : Op) : Routine Ret σ ε (Ret o) := fun s =>
  .op o fun r => .ret (.ok r, s)

/-- Await an operation whose reply is a result or an exception. -/
def call (o : Op) (out : Ret o → Except ε α) : Routine Ret σ ε α := fun s =>
  .op o fun r => .ret (out r, s)

/-- Run `m` with captured variables of its own, starting at `t`. -/
def scope (t : τ) (m : Routine Ret τ ε α) : Routine Ret σ ε (α × τ) := fun s =>
  (m t).bind (leave s)

/-- `for (const x of xs) await body(x)`. -/
def forEach : List α → (α → Routine Ret σ ε Unit) → Routine Ret σ ε Unit
  | [], _ => pure ()
  | x :: xs, body => do
      body x
      forEach xs body

/-- `if (condition) throw error;` -/
def throwWhen (condition : Bool) (error : ε) : Routine Ret σ ε Unit :=
  if condition then throw error else pure ()

/-- `if (!value) throw error;` on a nullable value. -/
def valueOr (value : Option α) (error : ε) : Routine Ret σ ε α :=
  match value with
  | some a => pure a
  | none => throw error

/-! ### The operations a routine uses -/

/-- Every operation the routine can perform satisfies `P`, and the routine leaves the captured
variables alone. -/
def Uses (P : Op → Prop) (m : Routine Ret σ ε α) : Prop :=
  ∀ s, (m s).Uses P fun x => x.2 = s

section Uses

variable {P : Op → Prop}

theorem Uses.mono {P' : Op → Prop} (h : ∀ o, P o → P' o) {m : Routine Ret σ ε α}
    (hm : Uses P m) : Uses P' m :=
  fun s => (hm s).mono h

theorem uses_pure (a : α) : Uses P (pure a : Routine Ret σ ε α) := fun _ => rfl

theorem uses_throw (e : ε) : Uses P (throw e : Routine Ret σ ε α) := fun _ => rfl

theorem uses_get : Uses P (get : Routine Ret σ ε σ) := fun _ => rfl

theorem uses_perform {o : Op} (h : P o) : Uses P (perform o : Routine Ret σ ε (Ret o)) :=
  fun _ => ⟨h, fun _ => rfl⟩

theorem uses_call {o : Op} {out : Ret o → Except ε α} (h : P o) :
    Uses P (call o out : Routine Ret σ ε α) :=
  fun _ => ⟨h, fun _ => rfl⟩

theorem uses_bind {m : Routine Ret σ ε α} {f : α → Routine Ret σ ε β}
    (hm : Uses P m) (hf : ∀ a, Uses P (f a)) : Uses P (m >>= f) := by
  intro s
  refine (hm s).bind fun x hx => ?_
  rcases x with ⟨e | a, t⟩
  · exact hx
  · obtain rfl : t = s := hx
    exact hf a t

theorem uses_tryCatch {m : Routine Ret σ ε α} {f : ε → Routine Ret σ ε α}
    (hm : Uses P m) (hf : ∀ e, Uses P (f e)) : Uses P (tryCatch m f) := by
  intro s
  refine (hm s).bind fun x hx => ?_
  rcases x with ⟨e | a, t⟩
  · obtain rfl : t = s := hx
    exact hf e t
  · exact hx

theorem uses_forEach {xs : List α} {body : α → Routine Ret σ ε Unit}
    (h : ∀ x ∈ xs, Uses P (body x)) : Uses P (forEach xs body) := by
  induction xs with
  | nil => exact uses_pure ()
  | cons x xs ih =>
    exact uses_bind (h x List.mem_cons_self) fun _ =>
      ih fun y hy => h y (List.mem_cons_of_mem x hy)

theorem uses_throwWhen (c : Bool) (e : ε) : Uses P (throwWhen c e : Routine Ret σ ε Unit) := by
  cases c with
  | true => exact uses_throw e
  | false => exact uses_pure ()

theorem uses_valueOr (v : Option α) (e : ε) : Uses P (valueOr v e : Routine Ret σ ε α) := by
  cases v with
  | some a => exact uses_pure a
  | none => exact uses_throw e

end Uses

/-- Every operation the routine can perform satisfies `P`, whatever becomes of the captured
variables. -/
def Performs (P : Op → Prop) (m : Routine Ret σ ε α) : Prop :=
  ∀ s, (m s).Uses P fun _ => True

section Performs

variable {P : Op → Prop}

theorem Uses.performs {m : Routine Ret σ ε α} (hm : Uses P m) : Performs P m :=
  fun s => (hm s).weaken fun _ _ => trivial

theorem performs_modify (f : σ → σ) : Performs P (modify f : Routine Ret σ ε PUnit) :=
  fun _ => trivial

theorem performs_bind {m : Routine Ret σ ε α} {f : α → Routine Ret σ ε β}
    (hm : Performs P m) (hf : ∀ a, Performs P (f a)) : Performs P (m >>= f) := by
  intro s
  refine (hm s).bind fun x _ => ?_
  rcases x with ⟨e | a, t⟩
  · trivial
  · exact hf a t

theorem performs_tryCatch {m : Routine Ret σ ε α} {f : ε → Routine Ret σ ε α}
    (hm : Performs P m) (hf : ∀ e, Performs P (f e)) : Performs P (tryCatch m f) := by
  intro s
  refine (hm s).bind fun x _ => ?_
  rcases x with ⟨e | a, t⟩
  · exact hf e t
  · trivial

theorem performs_ite {c : Prop} [Decidable c] {m m' : Routine Ret σ ε α} (hm : Performs P m)
    (hm' : Performs P m') : Performs P (if c then m else m') := by
  split
  · exact hm
  · exact hm'

theorem performs_scope {t : τ} {m : Routine Ret τ ε α} (hm : Performs P m) :
    Performs P (scope t m : Routine Ret σ ε (α × τ)) := by
  intro s
  refine (hm t).bind fun x _ => ?_
  rcases x with ⟨e | a, t⟩ <;> trivial

end Performs

end Routine

end Async
