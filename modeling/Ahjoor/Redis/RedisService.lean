import Ahjoor.Json.Parse
import Ahjoor.Redis.Keyspace

/-!
# `RedisService`

What is stored is a text. `get` decodes it as JSON, and returns the text itself where it is none.
Redis answers; what the service does when it does not is left out.
-/

namespace Ahjoor.RedisService

open Redis

/-- `get(key)` at the time `now`; a key that is absent gives `null`. -/
def get (now : ℤ) (key : String) (s : Keyspace) : Json.Value :=
  match s.live now key with
  | some ⟨.str text, _⟩ => (Json.read text.toList).getD (.str text)
  | some ⟨.zset _, _⟩ | none => .null

/-- `setWithExpiry(key, value, ttlSeconds)` for a text. -/
def setWithExpiry (now : ℤ) (key text : String) (ttlSeconds : ℤ) (s : Keyspace) : Keyspace :=
  (setPx now key text (ttlSeconds * 1000) s).2

/-- `set(key, value, ttlSeconds)` for a text: a TTL of 0 is none. -/
def set (now : ℤ) (key text : String) (ttlSeconds : ℤ) (s : Keyspace) : Keyspace :=
  if ttlSeconds = 0 then Function.update s key (some ⟨.str text, none⟩)
  else (setPx now key text (ttlSeconds * 1000) s).2

/-- `exists(key)`. -/
def existsKey (now : ℤ) (key : String) (s : Keyspace) : Bool := (s.live now key).isSome

/-- `del(key)`. -/
def del (now : ℤ) (key : String) (s : Keyspace) : ℕ × Keyspace :=
  (if existsKey now key s then 1 else 0, Function.update s key none)

/-- The text that is stored is there until it expires. -/
theorem live_setWithExpiry {now later : ℤ} {key text : String} {ttlSeconds : ℤ} {s : Keyspace}
    (httl : 0 < ttlSeconds) (hlater : later ≤ now + ttlSeconds * 1000) :
    (setWithExpiry now key text ttlSeconds s).live later key =
      some ⟨.str text, some (now + ttlSeconds * 1000)⟩ := by
  have hms : ¬ ttlSeconds * 1000 ≤ 0 := by omega
  have hset : setWithExpiry now key text ttlSeconds s =
      Function.update s key (some ⟨.str text, some (now + ttlSeconds * 1000)⟩) := by
    rw [setWithExpiry, setPx, if_neg hms]
  rw [hset, Keyspace.live, Function.update_self]
  exact Option.filter_eq_some_iff.mpr ⟨rfl, decide_eq_true hlater⟩

end Ahjoor.RedisService
