import Ahjoor.Async.Discipline
import Ahjoor.Redis.RedisService

/-!
# `DistributedLockService`

A lock is a key of Redis that is set without the condition that it is absent, and found to exist
right after. So acquiring a lock never fails for a lock that is held. Releasing it deletes the key,
whoever has set it.

Redis may fail at any command: `RedisService` logs that and answers as if nothing were there. The
function that runs under the lock is one operation, pending while it runs. Time passes in calls of
its own.
-/

namespace Ahjoor.DistributedLock

open Async Redis

/-! ### Operations -/

variable {τ ε : Type}

inductive Op
  | dateNow
  | set (key value : String) (ttlSeconds : ℤ)
  | existsKey (key : String)
  | del (key : String)
  /-- `fn()` -/
  | task
  /-- time passes -/
  | elapse (ms : ℕ)
  deriving DecidableEq

variable (τ ε) in
/-- Replies. -/
abbrev Op.Ret : Op → Type
  | dateNow => ℤ
  | set _ _ _ | elapse _ => Unit
  | existsKey _ => Bool
  | del _ => ℕ
  | task => Except ε τ

/-- The clock, and the keys. -/
structure World where
  clock : ℤ
  keyspace : Keyspace

/-- The freedom of the environment: a command is done, fails, or is done and its answer lost; and
the function ends in a result. -/
inductive Choice (τ ε : Type)
  | succeeds
  | fails
  | answerLost
  | ends (result : Except ε τ)

/-- What an operation does. -/
def exec : (o : Op) → ℕ → Choice τ ε → World → Option (o.Ret τ ε × World)
  | .dateNow, _, .succeeds, w => some (w.clock, w)
  | .set key value ttlSeconds, _, .succeeds, w | .set key value ttlSeconds, _, .answerLost, w =>
      some ((), { w with keyspace := RedisService.set w.clock key value ttlSeconds w.keyspace })
  | .set _ _ _, _, .fails, w => some ((), w)
  | .existsKey key, _, .succeeds, w => some (RedisService.existsKey w.clock key w.keyspace, w)
  | .existsKey _, _, .answerLost, w | .existsKey _, _, .fails, w => some (false, w)
  | .del key, _, .succeeds, w =>
      let (deleted, keyspace) := RedisService.del w.clock key w.keyspace
      some (deleted, { w with keyspace })
  | .del key, _, .answerLost, w =>
      some (0, { w with keyspace := (RedisService.del w.clock key w.keyspace).2 })
  | .del _, _, .fails, w => some (0, w)
  | .task, _, .ends result, w => some (result, w)
  | .elapse ms, _, .succeeds, w => some ((), { w with clock := w.clock + ms })
  | _, _, _, _ => none

/-! ### The service -/

/-- `` `${this.lockPrefix}${lockName}` ``. -/
def lockKey (lockName : String) : String := "scheduler:lock:" ++ lockName

/-- `defaultTTL`. -/
def defaultTTL : ℤ := 300

abbrev Service (τ ε α : Type) := Routine (Op.Ret τ ε) Unit ε α

/-- Await an operation. -/
def await (o : Op) : Service τ ε (o.Ret τ ε) := Routine.perform o

/-- `acquireLock(lockName, ttlSeconds)`. -/
def acquireLock (lockName : String) (ttlSeconds : ℤ) : Service τ ε Bool := do
  let lockValue : ℤ ← await .dateNow
  await (.set (lockKey lockName) (toString lockValue) ttlSeconds)
  await (.existsKey (lockKey lockName))

/-- `releaseLock(lockName)`. -/
def releaseLock (lockName : String) : Service τ ε Unit := do
  let _ ← await (.del (lockKey lockName))
  pure ()

/-- `withLock(lockName, fn, ttlSeconds)`. -/
def withLock (lockName : String) (ttlSeconds : ℤ) : Service τ ε (Option τ) := do
  let acquired ← acquireLock lockName ttlSeconds
  if acquired then
    let result : Except ε τ ← await .task
    releaseLock lockName
    match result with
    | .ok a => pure (some a)
    | .error e => throw e
  else
    pure none

/-! ### The system -/

/-- The calls; `elapse` is the clock. -/
inductive Call
  | withLock (lockName : String) (ttlSeconds : ℤ)
  | elapse (ms : ℕ)
  deriving DecidableEq

variable (τ ε) in
/-- Calls of any number of instances. -/
def system : System (Op.Ret τ ε) (Choice τ ε) World Call (Except ε (Option τ)) where
  exec := exec
  body
    | .withLock lockName ttlSeconds => (withLock lockName ttlSeconds ()).bind fun x => .ret x.1
    | .elapse ms => .op (.elapse ms) fun _ => .ret (.ok none)

variable (τ ε) in
/-- The history of a run. -/
abbrev History := Hist (Op.Ret τ ε) World Call (Except ε (Option τ))

variable (τ ε) in
/-- The events of a run, newest first. -/
abbrev Events := List (Event (Op.Ret τ ε) World Call (Except ε (Option τ)))

/-! ### What is claimed -/

/-- A lock that a call has set: its key, its TTL, and when. -/
structure Lock where
  key : String
  ttlSeconds : ℤ
  setAt : ℤ
  deriving DecidableEq

/-- The TTL has elapsed. -/
def Lock.elapsed (now : ℤ) (lock : Lock) : Bool :=
  lock.ttlSeconds ≠ 0 && lock.setAt + lock.ttlSeconds * 1000 < now

/-- The lock that an event sets for a call. -/
def lockSet (pid : ℕ) : Event (Op.Ret τ ε) World Call (Except ε (Option τ)) → Option Lock
  | .did p (.set key _ ttlSeconds) _ w => if p = pid then some ⟨key, ttlSeconds, w.clock⟩ else none
  | _ => none

/-- The lock that a call has set last, if it has set one. -/
def lockOf (pid : ℕ) (es : Events τ ε) : Option Lock := es.findSome? (lockSet pid)

/-- The event ends the call, or deletes its key. -/
def isOver (pid : ℕ) (e : Event (Op.Ret τ ε) World Call (Except ε (Option τ))) : Bool :=
  e.pid = pid && match e with
    | .returned _ _ | .crashed _ | .did _ (.del _) _ _ => true
    | _ => false

/-- The call has been told that the key exists. -/
def isTold (pid : ℕ) : Event (Op.Ret τ ε) World Call (Except ε (Option τ)) → Bool
  | .did p (.existsKey _) (true : Bool) _ => p = pid
  | _ => false

/-- The function has ended. -/
def isDone (pid : ℕ) : Event (Op.Ret τ ε) World Call (Except ε (Option τ)) → Bool
  | .did p .task _ _ => p = pid
  | _ => false

/-- The call is **between setting its lock and releasing it**, and its TTL has not elapsed. -/
def engaged (h : History τ ε) (key : String) (pid : ℕ) : Bool :=
  (lockOf pid h.trace).any (fun lock => lock.key = key && !lock.elapsed h.world.clock) &&
    !h.trace.any (isOver pid)

/-- The call **holds the lock**: it has acquired it, and has neither released it nor outlived its
TTL. -/
def holds (h : History τ ε) (key : String) (pid : ℕ) : Bool :=
  engaged h key pid && h.trace.any (isTold pid)

/-- The call **runs its function** under the lock. -/
def runs (h : History τ ε) (key : String) (pid : ℕ) : Bool :=
  holds h key pid && !h.trace.any (isDone pid)

/-- **The lock excludes**: two calls do not run their functions under it at once, and a call that
deletes the key did so while no other call held the lock. -/
structure Excludes (h : History τ ε) : Prop where
  alone : ∀ lockName p q, runs h (lockKey lockName) p → runs h (lockKey lockName) q → p = q
  released : ∀ later pid lockName deleted w earlier,
    h.trace = later ++ Event.did pid (.del (lockKey lockName)) deleted w :: earlier →
      ∀ q, holds ⟨w, earlier⟩ (lockKey lockName) q → q = pid

/-! ### When it holds -/

/-- Another call is between setting the lock and releasing it. -/
def contended (h : History τ ε) (key : String) (pid : ℕ) : Bool :=
  h.trace.any fun e => e.pid ≠ pid && engaged h key e.pid

/-- A step sets a lock, or deletes it after its TTL has elapsed, only if **no other call is between
setting it and releasing it**. -/
def uncontended (h h' : History τ ε) : Bool :=
  match h'.trace with
  | .did pid (.set key _ _) _ _ :: _ => !contended h key pid
  | .did pid (.del key) _ _ :: es =>
      !(lockOf pid es).any (·.elapsed h.world.clock) || !contended h key pid
  | _ => true

end Ahjoor.DistributedLock
