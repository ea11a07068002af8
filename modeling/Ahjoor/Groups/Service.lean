import Ahjoor.Async.Discipline
import Ahjoor.Groups.Steps

/-!
# Service bodies

A method of a service is a `Service`: an asynchronous routine over the operations of the
world. This module gives the operations the form in which the bodies use them, each with the
rule by which it obeys a discipline. A call of a run is a service without captured variables,
of which only whether it throws is kept (`entry`).
-/

namespace Ahjoor

open Async

/-- The body of an asynchronous method with captured variables `σ`. -/
abbrev Service (σ α : Type) := Routine Op.Ret σ Exc α

variable {σ α : Type}

/-- A repository call. -/
def query (q : Query) : Service σ q.Ret := Routine.call (.db q) fun r => r

/-- A repository call on the transaction's manager. -/
def txQuery (q : Query) : Service σ q.Ret := Routine.call (.tx q) fun r => r

/-- An awaited effect. -/
def emit (e : Effect) : Service σ Unit := Routine.call (.emit e) fun r => r

/-- A question to the outside. -/
def ask (q : Question) : Service σ q.Ret := Routine.call (.ask q) fun r => r

/-- `Date.now()`. -/
def dateNow : Service σ ℕ := Routine.perform Op.now

/-- Record in the history that a step is about to start. -/
def note (n : Note) : Service σ Unit := Routine.perform (Op.note n)

/-- `if (condition) throw error;` -/
def throwIf (condition : Bool) (error : Exc) : Service σ Unit :=
  if condition then throw error else pure ()

/-- `if (condition) { … }` -/
def performIf (condition : Bool) (body : Service σ Unit) : Service σ Unit :=
  if condition then body else pure ()

/-- A synchronous expression that may throw. -/
def evaluate : Except Exc α → Service σ α
  | .ok a => pure a
  | .error e => throw e

/-- `if (!value) throw error;` on a nullable value. -/
def orThrow (value : Option α) (error : Exc) : Service σ α :=
  match value with
  | some a => pure a
  | none => throw error

/-- `redisService.get(key)` in a condition: a read that fails reads `null`. -/
def redisGet (key : String) : Service σ Bool :=
  tryCatch (ask (.redisGet key)) fun _ => pure false

/-- `redisService.set(key, …)`: a write that fails is only logged. -/
def redisSet (key : String) : Service σ Unit :=
  tryCatch (emit (.redisSet key)) fun _ => pure ()

/-- `try { … } finally { … }` -/
def withFinally (body : Service σ α) (finalizer : Service σ Unit) : Service σ α := do
  let result ← tryCatch
    (do
      let a ← body
      pure (Except.ok a))
    fun e => pure (Except.error e)
  finalizer
  evaluate result

/-- `dataSource.transaction(body)`: commit the body's writes, or roll back when it throws. -/
def transaction (body : Service σ α) : Service σ α := do
  Routine.call .begin fun r => r
  let result ← tryCatch body fun e => do
    Routine.perform Op.rollback
    throw e
  Routine.call .commit fun r => r
  pure result

/-- A service as a call of a run. -/
def entry (m : Service Unit α) : Prog Op.Ret (Except Exc Unit) :=
  (m ()).bind fun x => .ret (x.1.map fun _ => ())

/-! ### Rules -/

section Rules

variable {D : Log Op.Ret → Op → Prop} {X : Exc → σ → Log Op.Ret → Prop} {s : σ} {L : Log Op.Ret}

theorem obeys_query {q : Query} {Q : q.Ret → σ → Log Op.Ret → Prop} (hD : D L (.db q))
    (hok : ∀ a, Q a s (⟨.db q, .ok a⟩ :: L)) (herr : ∀ e, X e s (⟨.db q, .error e⟩ :: L)) :
    Obeys D (query q) Q X s L :=
  Obeys.call hD fun r => by
    cases r with
    | ok a => exact hok a
    | error e => exact herr e

theorem obeys_emit {e : Effect} {Q : Unit → σ → Log Op.Ret → Prop} (hD : D L (.emit e))
    (hok : Q () s (⟨.emit e, .ok ()⟩ :: L)) (herr : ∀ x, X x s (⟨.emit e, .error x⟩ :: L)) :
    Obeys D (emit e) Q X s L :=
  Obeys.call hD fun r => by
    cases r with
    | ok a => exact hok
    | error e => exact herr e

theorem obeys_note {n : Note} {Q : Unit → σ → Log Op.Ret → Prop} (hD : D L (.note n))
    (hok : Q () s (⟨.note n, ()⟩ :: L)) : Obeys D (note n) Q X s L :=
  Obeys.perform hD fun _ => hok

theorem obeys_throwIf {c : Bool} {e : Exc} {Q : Unit → σ → Log Op.Ret → Prop}
    (hthrow : c = true → X e s L) (hpass : c = false → Q () s L) :
    Obeys D (throwIf c e) Q X s L := by
  cases c with
  | true => exact Obeys.throw (hthrow rfl)
  | false => exact Obeys.pure (hpass rfl)

theorem obeys_performIf {c : Bool} {m : Service σ Unit} {Q : Unit → σ → Log Op.Ret → Prop}
    (hdo : c = true → Obeys D m Q X s L) (hskip : c = false → Q () s L) :
    Obeys D (performIf c m) Q X s L := by
  cases c with
  | true => exact hdo rfl
  | false => exact Obeys.pure (hskip rfl)

theorem obeys_orThrow {v : Option α} {e : Exc} {Q : α → σ → Log Op.Ret → Prop}
    (hsome : ∀ a, v = some a → Q a s L) (hnone : v = none → X e s L) :
    Obeys D (orThrow v e) Q X s L := by
  cases v with
  | some a => exact Obeys.pure (hsome a rfl)
  | none => exact Obeys.throw (hnone rfl)

theorem obeys_evaluate {v : Except Exc α} {Q : α → σ → Log Op.Ret → Prop}
    (hok : ∀ a, v = .ok a → Q a s L) (herr : ∀ e, v = .error e → X e s L) :
    Obeys D (evaluate v) Q X s L := by
  cases v with
  | ok a => exact Obeys.pure (hok a rfl)
  | error e => exact Obeys.throw (herr e rfl)

/-- A body that obeys its discipline as a routine follows it as a call. -/
theorem follows_entry {m : Service Unit α} {Q : Except Exc Unit → Log Op.Ret → Prop}
    (h : Obeys D m (fun _ _ => Q (.ok ())) (fun e _ => Q (.error e)) () L) :
    Follows D Q (entry m) L :=
  h.follows.bind fun x L hx => by rcases x with ⟨e | a, t⟩ <;> exact hx

end Rules

/-! ### The operations a body uses -/

section Uses

variable {P : Op → Prop}

theorem uses_query {q : Query} (h : P (.db q)) : Routine.Uses P (query q : Service σ q.Ret) :=
  Routine.uses_call h

theorem uses_emit {e : Effect} (h : P (.emit e)) : Routine.Uses P (emit e : Service σ Unit) :=
  Routine.uses_call h

theorem uses_ask {q : Question} (h : P (.ask q)) : Routine.Uses P (ask q : Service σ q.Ret) :=
  Routine.uses_call h

theorem uses_dateNow (h : P .now) : Routine.Uses P (dateNow : Service σ ℕ) :=
  Routine.uses_perform h

theorem uses_throwIf (c : Bool) (e : Exc) : Routine.Uses P (throwIf c e : Service σ Unit) := by
  cases c with
  | true => exact Routine.uses_throw e
  | false => exact Routine.uses_pure ()

theorem uses_performIf (c : Bool) {m : Service σ Unit} (hm : Routine.Uses P m) :
    Routine.Uses P (performIf c m) := by
  cases c with
  | true => exact hm
  | false => exact Routine.uses_pure ()

theorem uses_orThrow (v : Option α) (e : Exc) : Routine.Uses P (orThrow v e : Service σ α) := by
  cases v with
  | some a => exact Routine.uses_pure a
  | none => exact Routine.uses_throw e

theorem uses_evaluate (v : Except Exc α) : Routine.Uses P (evaluate v : Service σ α) := by
  cases v with
  | ok a => exact Routine.uses_pure a
  | error e => exact Routine.uses_throw e

theorem uses_redisGet {key : String} (h : P (.ask (.redisGet key))) :
    Routine.Uses P (redisGet key : Service σ Bool) :=
  Routine.uses_tryCatch (uses_ask h) fun _ => Routine.uses_pure false

theorem uses_redisSet {key : String} (h : P (.emit (.redisSet key))) :
    Routine.Uses P (redisSet key : Service σ Unit) :=
  Routine.uses_tryCatch (uses_emit h) fun _ => Routine.uses_pure ()

end Uses

end Ahjoor
