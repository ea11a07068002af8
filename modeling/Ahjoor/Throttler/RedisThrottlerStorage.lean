import Ahjoor.Async.Discipline
import Ahjoor.Async.Sequential
import Ahjoor.Groups.Entities
import Ahjoor.Redis.Keyspace

/-!
# `RedisThrottlerStorageService`

Every call looks at the block key, counts itself in the store, and sets the block key when it is
over the limit. A command may fail before or after it has taken effect; the call is then refused
with status 503.

A call and the commands that it sends take place at one instant.
-/

namespace Ahjoor.Throttler

open Async Redis Store

/-! ### The commands -/

/-- `SLIDING_LUA`. -/
def SLIDING_LUA (key : String) (now windowStart : ℤ) (member : String) (ttl : ℤ) :
    Script (ℤ × ℤ) := do
  zremrangebyscore now key windowStart
  zadd now key now member
  let hits ← zcard now key
  let _ ← pexpire now key ttl
  pure (hits, ttl)

/-- `FIXED_LUA`. -/
def FIXED_LUA (key : String) (now ttl : ℤ) : Script (ℤ × ℤ) := do
  let hits ← incr now key
  let pttl ← pttl now key
  if pttl < 0 then
    let _ ← pexpire now key ttl
    pure (hits, ttl)
  else pure (hits, pttl)

/-- `BLOCK_LUA`. -/
def BLOCK_LUA (key : String) (now blockMs : ℤ) : Script ℤ := do
  let ttl ← pttl now key
  if ttl < 0 then
    setPx now key "1" blockMs
    pure blockMs
  else pure ttl

/-- An awaited command, with the time at which Redis runs it. -/
inductive Op
  | pttl (now : ℤ) (key : String)
  | slidingLua (key : String) (now windowStart : ℤ) (member : String) (ttl : ℤ)
  | fixedLua (key : String) (now ttl : ℤ)
  | blockLua (key : String) (now blockMs : ℤ)

/-- What a command returns. -/
def Op.Value : Op → Type
  | pttl _ _ | blockLua _ _ _ => ℤ
  | slidingLua _ _ _ _ _ | fixedLua _ _ _ => ℤ × ℤ

/-- A result, or the message of an error. -/
abbrev Op.Ret (o : Op) : Type := Except String o.Value

/-- What Redis runs. -/
def Op.script : (o : Op) → Script o.Value
  | pttl now key => Redis.pttl now key
  | slidingLua key now windowStart member ttl => SLIDING_LUA key now windowStart member ttl
  | fixedLua key now ttl => FIXED_LUA key now ttl
  | blockLua key now blockMs => BLOCK_LUA key now blockMs

/-- What the environment decides about one command. -/
inductive Choice
  | done
  /-- the command does not reach Redis -/
  | refused (message : String)
  /-- the command is run and its reply is lost -/
  | lost (message : String)

/-- What a command does. -/
def exec (o : Op) (_ : ℕ) (choice : Choice) (s : Keyspace) : Option (o.Ret × Keyspace) :=
  match choice with
  | .done => some (o.script s)
  | .refused msg => some (.error msg, s)
  | .lost msg => some (.error msg, (o.script s).2)

/-! ### The methods -/

/-- The body of an asynchronous method. -/
abbrev Service (α : Type) := Routine Op.Ret Unit Exc α

/-- Send a command. -/
def send (o : Op) : Service o.Value := Routine.call o (Except.mapError .error)

/-- `THROTTLE_ALGORITHM`. -/
inductive Algorithm
  | sliding_window | fixed_window
  deriving DecidableEq

/-- `ThrottlerStorageRecord`. -/
structure ThrottlerStorageRecord where
  totalHits : ℤ
  timeToExpire : ℤ
  isBlocked : Bool
  timeToBlockExpire : ℤ
  deriving DecidableEq

/-- `Math.ceil(ms / 1000)`. -/
def ceilSeconds (ms : ℤ) : ℤ := (ms + 999) / 1000

/-- The key of the sliding window. -/
def slidingKey (key : String) : String := s!"throttle:sw:{key}"

/-- The key of the fixed window. -/
def fixedKey (key : String) : String := s!"throttle:fw:{key}"

/-- The key that blocks after the limit has been exceeded. -/
def blockKey (key : String) : String := s!"throttle:block:{key}"

/-- The member that a call adds to its sorted set; `random` is what `Math.random()` gives. -/
def memberOf (now : ℤ) (random : String) : String := s!"{now}-{random}"

/-- `slidingWindow(key, ttl)`: the hits, and the time to expire in milliseconds. -/
def slidingWindow (key : String) (ttl now : ℤ) (random : String) : Service (ℤ × ℤ) :=
  send (.slidingLua (slidingKey key) now (now - ttl) (memberOf now random) ttl)

/-- `fixedWindow(key, ttl)`. -/
def fixedWindow (key : String) (ttl now : ℤ) : Service (ℤ × ℤ) :=
  send (.fixedLua (fixedKey key) now ttl)

/-- The refusal when the store is down. -/
def unavailable : Exc :=
  .http 503 "Rate limiting temporarily unavailable. Request rejected (fail-closed)."

/-- What `increment` returns while the block key is there. -/
def blockedRecord (limit existingBlockTtl : ℤ) : ThrottlerStorageRecord where
  totalHits := limit + 1
  timeToExpire := ceilSeconds existingBlockTtl
  isBlocked := true
  timeToBlockExpire := ceilSeconds existingBlockTtl

/-- What `increment` returns once it has counted the call. -/
def countedRecord (limit totalHits timeToExpireMs timeToBlockExpire : ℤ) :
    ThrottlerStorageRecord where
  totalHits
  timeToExpire := ceilSeconds timeToExpireMs
  isBlocked := limit < totalHits
  timeToBlockExpire :=
    if limit < totalHits then
      if timeToBlockExpire = 0 then ceilSeconds timeToExpireMs else timeToBlockExpire
    else 0

/-- The part of `increment` after the block key has been looked at. -/
def count (algorithm : Algorithm) (key : String) (ttl limit blockDuration now : ℤ)
    (random : String) : Service ThrottlerStorageRecord := do
  let (totalHits, timeToExpireMs) ←
    match algorithm with
    | .sliding_window => slidingWindow key ttl now random
    | .fixed_window => fixedWindow key ttl now
  if limit < totalHits ∧ 0 < blockDuration then
    let blockMs : ℤ ← send (.blockLua (blockKey key) now blockDuration)
    pure (countedRecord limit totalHits timeToExpireMs (ceilSeconds blockMs))
  else pure (countedRecord limit totalHits timeToExpireMs 0)

/-- `increment(key, ttl, limit, blockDuration)` at the time `now`. -/
def increment (algorithm : Algorithm) (key : String) (ttl limit blockDuration now : ℤ)
    (random : String) : Service ThrottlerStorageRecord :=
  tryCatch
    (do
      let existingBlockTtl : ℤ ← send (.pttl now (blockKey key))
      if 0 < existingBlockTtl then pure (blockedRecord limit existingBlockTtl)
      else count algorithm key ttl limit blockDuration now random)
    fun _ => throw unavailable

/-! ### The system -/

/-- A call of `increment`. -/
structure Call where
  key : String
  ttl : ℤ
  limit : ℤ
  blockDuration : ℤ
  now : ℤ
  random : String
  deriving DecidableEq

/-- The member that the call adds. -/
def Call.member (c : Call) : String := memberOf c.now c.random

/-- What a call returns. -/
abbrev Result := Except Exc ThrottlerStorageRecord

/-- The calls to the storage. -/
def system (algorithm : Algorithm) : System Op.Ret Choice Keyspace Call Result where
  exec := exec
  body c := (increment algorithm c.key c.ttl c.limit c.blockDuration c.now c.random ()).bind
    fun x => .ret x.1

end Ahjoor.Throttler
