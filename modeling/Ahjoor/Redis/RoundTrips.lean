import Ahjoor.Redis.RedisService

/-!
# What is stored and what is read

A text is stored as it is, and any other value as the text of its JSON; nothing says which of the
two was done. `get` takes every text that is a JSON text for the second. So a text that happens to
be one, like a number in digits, comes back as the value that it denotes.
-/

namespace Ahjoor.RedisService

open Redis

/-- `typeof value === 'string' ? value : JSON.stringify(value)`. -/
def serialized : Json.Value → String
  | .str text => text
  | value => Json.stringify value

/-- The text of the value is under the key at the time `later`: it was stored by `set` or by
`setWithExpiry`, was not overwritten since, and has not expired. -/
inductive Holds (key : String) (value : Json.Value) (later : ℤ) (s' : Keyspace) : Prop
  | set (now ttlSeconds : ℤ) (s : Keyspace) (httl : 0 < ttlSeconds)
      (hlater : later ≤ now + ttlSeconds * 1000)
      (hkept : s' key = set now key (serialized value) ttlSeconds s key)
  | setForever (now : ℤ) (s : Keyspace) (hkept : s' key = set now key (serialized value) 0 s key)
  | setWithExpiry (now ttlSeconds : ℤ) (s : Keyspace) (httl : 0 < ttlSeconds)
      (hlater : later ≤ now + ttlSeconds * 1000)
      (hkept : s' key = setWithExpiry now key (serialized value) ttlSeconds s key)

section RoundTrips

variable {key : String} {value : Json.Value} {later : ℤ} {s' : Keyspace}

/-- With a TTL, `set` does what `setWithExpiry` does. -/
theorem set_of_pos {now ttlSeconds : ℤ} {text : String} {s : Keyspace} (httl : 0 < ttlSeconds) :
    set now key text ttlSeconds s = setWithExpiry now key text ttlSeconds s :=
  if_neg (by omega)

/-- The text is there. -/
theorem Holds.live (h : Holds key value later s') :
    ∃ expiresAt, s'.live later key = some ⟨.str (serialized value), expiresAt⟩ := by
  have hsame : ∀ {s : Keyspace}, s' key = s key → s'.live later key = s.live later key := fun heq => by
    rw [Keyspace.live, Keyspace.live, heq]
  cases h with
  | set now ttlSeconds s httl hlater hkept =>
    rw [set_of_pos httl] at hkept
    exact ⟨_, (hsame hkept).trans (live_setWithExpiry httl hlater)⟩
  | setForever now s hkept =>
    refine ⟨none, (hsame hkept).trans ?_⟩
    rw [RedisService.set, if_pos rfl, Keyspace.live, Function.update_self]
    rfl
  | setWithExpiry now ttlSeconds s httl hlater hkept =>
    exact ⟨_, (hsame hkept).trans (live_setWithExpiry httl hlater)⟩

/-- What `get` makes of it. -/
theorem Holds.get_eq (h : Holds key value later s') : get later key s' =
    (Json.read (serialized value).toList).getD (.str (serialized value)) := by
  obtain ⟨expiresAt, hlive⟩ := h.live
  rw [get, hlive]

/-- **A value that is not a text** comes back as it is. -/
theorem get_of_not_str (h : Holds key value later s') (hvalue : ∀ text, value ≠ .str text) :
    get later key s' = value := by
  have htext : serialized value = Json.stringify value := by
    cases value with
    | str text => exact absurd rfl (hvalue text)
    | _ => rfl
  rw [h.get_eq, htext, Json.stringify, String.toList_ofList, Json.read_print, Option.getD_some]

end RoundTrips

end Ahjoor.RedisService
