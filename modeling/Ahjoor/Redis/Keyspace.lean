import Mathlib.Algebra.Group.Int.Defs
import Mathlib.Data.Int.Basic
import Mathlib.Data.List.Basic
import Mathlib.Logic.Function.Basic

/-!
# A Redis keyspace

Keys hold strings and sorted sets, each with an optional expiry in milliseconds. A key whose expiry
has passed is as good as absent: a command finds only what is live at its time, and creates the key
anew when it writes to it. Nothing removes the key before that.

A `Script` is what Redis runs at one instant: commands one after another on the keyspace. A command
that fails ends the script and undoes nothing.
-/

namespace Redis

/-- What a key holds. -/
inductive Value
  | str (s : String)
  /-- members with their scores, each member once -/
  | zset (entries : List (String × ℤ))
  deriving DecidableEq

/-- A key's value and the time after which it is gone. -/
structure Entry where
  value : Value
  expiresAt : Option ℤ := none
  deriving DecidableEq

/-- The keys. -/
abbrev Keyspace := String → Option Entry

/-- Commands on the keyspace: a result or the message of a failure, and the keyspace left. -/
def Script (α : Type) : Type := Keyspace → Except String α × Keyspace

/-- What is run after a command: nothing once it has failed. -/
def Script.next {α β : Type} (f : α → Script β) : Except String α × Keyspace →
    Except String β × Keyspace
  | (.ok a, s) => f a s
  | (.error e, s) => (.error e, s)

instance : Monad Script where
  pure a := fun s => (.ok a, s)
  bind m f := fun s => Script.next f (m s)

/-- The entry is still there at the time `now`. -/
def Entry.isLive (now : ℤ) (e : Entry) : Bool := e.expiresAt.all (now ≤ ·)

/-- What a command finds under a key. -/
def Keyspace.live (s : Keyspace) (now : ℤ) (key : String) : Option Entry :=
  (s key).filter (Entry.isLive now)

/-- The script fails on a key that holds another kind of value. -/
def wrongType : String :=
  "WRONGTYPE Operation against a key holding the wrong kind of value"

/-! ### Commands on keys -/

/-- What `PTTL` says of a key. -/
def ttlOf (now : ℤ) : Option Entry → ℤ
  | none => -2
  | some ⟨_, none⟩ => -1
  | some ⟨_, some expiresAt⟩ => expiresAt - now

/-- `PTTL key`. -/
def pttl (now : ℤ) (key : String) : Script ℤ := fun s => (.ok (ttlOf now (s.live now key)), s)

/-- `PEXPIRE key ms`. -/
def pexpire (now : ℤ) (key : String) (ms : ℤ) : Script Bool := fun s =>
  match s.live now key with
  | none => (.ok false, s)
  | some e => (.ok true, Function.update s key
      (if ms ≤ 0 then none else some { e with expiresAt := some (now + ms) }))

/-- `DEL key`. -/
def del (key : String) : Script Unit := fun s => (.ok (), Function.update s key none)

/-- `EXPIRE key seconds`. -/
def expire (now : ℤ) (key : String) (seconds : ℤ) : Script Bool := pexpire now key (seconds * 1000)

/-! ### Commands on strings -/

/-- `GET key`. -/
def get (now : ℤ) (key : String) : Script (Option String) := fun s =>
  match s.live now key with
  | none => (.ok none, s)
  | some ⟨.str value, _⟩ => (.ok (some value), s)
  | some ⟨.zset _, _⟩ => (.error wrongType, s)

/-- `SETEX key seconds value`. -/
def setex (now : ℤ) (key : String) (seconds : ℤ) (value : String) : Script Unit := fun s =>
  if seconds ≤ 0 then (.error "ERR invalid expire time in 'setex' command", s)
  else (.ok (), Function.update s key (some ⟨.str value, some (now + seconds * 1000)⟩))

/-- `SET key value PX ms`. -/
def setPx (now : ℤ) (key value : String) (ms : ℤ) : Script Unit := fun s =>
  if ms ≤ 0 then (.error "ERR invalid expire time in 'set' command", s)
  else (.ok (), Function.update s key (some ⟨.str value, some (now + ms)⟩))

/-- The 64-bit integer that a string stands for. -/
def integer? (value : String) : Except String ℤ :=
  match value.toInt? with
  | none => .error "ERR value is not an integer or out of range"
  | some n =>
      if toString n = value ∧ -2 ^ 63 ≤ n ∧ n < 2 ^ 63 then .ok n
      else .error "ERR value is not an integer or out of range"

/-- `INCR key`. -/
def incr (now : ℤ) (key : String) : Script ℤ := fun s =>
  match s.live now key with
  | none => (.ok 1, Function.update s key (some ⟨.str "1", none⟩))
  | some ⟨.zset _, _⟩ => (.error wrongType, s)
  | some ⟨.str value, expiresAt⟩ =>
      match integer? value with
      | .error e => (.error e, s)
      | .ok n =>
          if n = 2 ^ 63 - 1 then (.error "ERR increment or decrement would overflow", s)
          else (.ok (n + 1), Function.update s key (some ⟨.str (toString (n + 1)), expiresAt⟩))

/-! ### Commands on sorted sets -/

/-- The sorted set that is found, empty where there is none, and its expiry. -/
def zsetOf : Option Entry → Except String (List (String × ℤ) × Option ℤ)
  | none => .ok ([], none)
  | some ⟨.zset entries, expiresAt⟩ => .ok (entries, expiresAt)
  | some ⟨.str _, _⟩ => .error wrongType

/-- The sorted set under a key. -/
def zset (now : ℤ) (key : String) : Script (List (String × ℤ) × Option ℤ) := fun s =>
  (zsetOf (s.live now key), s)

/-- Store a sorted set; an empty one is not kept. -/
def putZset (key : String) (entries : List (String × ℤ)) (expiresAt : Option ℤ) : Script Unit :=
  fun s => (.ok (), Function.update s key
    (if entries = [] then none else some ⟨.zset entries, expiresAt⟩))

/-- `ZREMRANGEBYSCORE key -inf max`. -/
def zremrangebyscore (now : ℤ) (key : String) (max : ℤ) : Script Unit := do
  let (entries, expiresAt) ← zset now key
  putZset key (entries.filter fun e => max < e.2) expiresAt

/-- `ZADD key score member`. -/
def zadd (now : ℤ) (key : String) (score : ℤ) (member : String) : Script Unit := do
  let (entries, expiresAt) ← zset now key
  putZset key ((member, score) :: entries.filter fun e => e.1 ≠ member) expiresAt

/-- `ZCARD key`. -/
def zcard (now : ℤ) (key : String) : Script ℤ := do
  let (entries, _) ← zset now key
  pure entries.length

/-! ### What the commands find and leave -/

section Lemmas

variable {α β : Type} {s s' : Keyspace} {now : ℤ} {key : String} {e : Entry}
  {entries : List (String × ℤ)} {expiresAt : Option ℤ}

theorem Script.bind_of_ok {m : Script α} {f : α → Script β} {a : α} (h : m s = (.ok a, s')) :
    (m >>= f) s = f a s' := by
  change Script.next f (m s) = f a s'
  rw [h]
  rfl

theorem Script.bind_of_error {m : Script α} {f : α → Script β} {msg : String}
    (h : m s = (.error msg, s')) : (m >>= f) s = (.error msg, s') := by
  change Script.next f (m s) = (.error msg, s')
  rw [h]
  rfl

theorem live_update_self (s : Keyspace) (now : ℤ) (key : String) (e : Option Entry) :
    Keyspace.live (Function.update s key e) now key = e.filter (Entry.isLive now) := by
  rw [Keyspace.live, Function.update_self]

/-- What is live is what the key holds. -/
theorem of_live (h : s.live now key = some e) : s key = some e ∧ e.isLive now = true :=
  Option.filter_eq_some_iff.mp h

/-- A key holds a sorted set at the time `now`, perhaps an empty one. -/
structure IsZset (s : Keyspace) (now : ℤ) (key : String) (entries : List (String × ℤ))
    (expiresAt : Option ℤ) : Prop where
  live : expiresAt.all (now ≤ ·) = true
  found : zsetOf (s.live now key) = .ok (entries, expiresAt)

theorem IsZset.run (h : IsZset s now key entries expiresAt) :
    zset now key s = (.ok (entries, expiresAt), s) := by
  rw [zset, h.found]

theorem isZset_of_live_none (h : s.live now key = none) : IsZset s now key [] none :=
  ⟨rfl, by rw [h]; rfl⟩

theorem isZset_of_live (h : s.live now key = some ⟨.zset entries, expiresAt⟩) :
    IsZset s now key entries expiresAt :=
  ⟨(of_live h).2, by rw [h]; rfl⟩

theorem isZset_of_found (h : zsetOf (s.live now key) = .ok (entries, expiresAt)) :
    IsZset s now key entries expiresAt := by
  refine ⟨?_, h⟩
  cases hlive : s.live now key with
  | none =>
    rw [hlive] at h
    cases h
    rfl
  | some e =>
    obtain ⟨value, x⟩ := e
    rw [hlive] at h
    cases value with
    | str v => cases h
    | zset es =>
      cases h
      exact (of_live hlive).2

/-- Storing a sorted set under a key that is live leaves it there. -/
theorem isZset_update (hlive : expiresAt.all (now ≤ ·) = true) (entries : List (String × ℤ)) :
    ∃ expiresAt', IsZset (Function.update s key
      (if entries = [] then none else some ⟨.zset entries, expiresAt⟩)) now key entries
        expiresAt' := by
  by_cases hempty : entries = []
  · rw [if_pos hempty, hempty]
    exact ⟨none, isZset_of_live_none (by rw [live_update_self]; rfl)⟩
  · rw [if_neg hempty]
    refine ⟨expiresAt, isZset_of_live ?_⟩
    rw [live_update_self]
    exact Option.filter_eq_some_iff.mpr ⟨rfl, hlive⟩

theorem zremrangebyscore_apply (h : IsZset s now key entries expiresAt) (max : ℤ) :
    zremrangebyscore now key max s = (.ok (), Function.update s key
      (if (entries.filter fun e => max < e.2) = [] then none
        else some ⟨.zset (entries.filter fun e => max < e.2), expiresAt⟩)) := by
  rw [zremrangebyscore, Script.bind_of_ok h.run]
  rfl

theorem zadd_apply (h : IsZset s now key entries expiresAt) (score : ℤ) (member : String) :
    zadd now key score member s = (.ok (), Function.update s key
      (some ⟨.zset ((member, score) :: entries.filter fun e => e.1 ≠ member), expiresAt⟩)) := by
  rw [zadd, Script.bind_of_ok h.run]
  rfl

theorem zcard_apply (h : IsZset s now key entries expiresAt) :
    zcard now key s = (.ok (entries.length : ℤ), s) := by
  rw [zcard, Script.bind_of_ok h.run]
  rfl

theorem pexpire_apply {ms : ℤ} (h : s.live now key = some e) (hms : 0 < ms) :
    pexpire now key ms s = (.ok true,
      Function.update s key (some { e with expiresAt := some (now + ms) })) := by
  rw [pexpire, h]
  simp only [if_neg (Int.not_le.mpr hms)]

/-! ### What a script leaves alone -/

/-- The script changes no other key. -/
def OnlyOn (key : String) (m : Script α) : Prop := ∀ s k, k ≠ key → (m s).2 k = s k

theorem OnlyOn.pure (a : α) : OnlyOn key (pure a : Script α) := fun _ _ _ => rfl

theorem OnlyOn.bind {m : Script α} {f : α → Script β} (hm : OnlyOn key m)
    (hf : ∀ a, OnlyOn key (f a)) : OnlyOn key (m >>= f) := by
  intro s k hk
  cases hms : m s with
  | mk r s' =>
    have hsame : s' k = s k := by
      have h := hm s k hk
      rwa [hms] at h
    cases r with
    | ok a => rw [Script.bind_of_ok hms, hf a s' k hk, hsame]
    | error msg =>
      rw [Script.bind_of_error hms]
      exact hsame

theorem onlyOn_pttl (now : ℤ) (key : String) : OnlyOn key (pttl now key) := fun _ _ _ => rfl

theorem onlyOn_pexpire (now : ℤ) (key : String) (ms : ℤ) : OnlyOn key (pexpire now key ms) := by
  intro s k hk
  unfold pexpire
  split
  · rfl
  · exact Function.update_of_ne hk ..

theorem onlyOn_del (key : String) : OnlyOn key (del key) :=
  fun _ _ hk => Function.update_of_ne hk ..

theorem onlyOn_get (now : ℤ) (key : String) : OnlyOn key (get now key) := by
  intro s k hk
  unfold get
  split <;> rfl

theorem onlyOn_setex (now : ℤ) (key : String) (seconds : ℤ) (value : String) :
    OnlyOn key (setex now key seconds value) := by
  intro s k hk
  unfold setex
  split
  · rfl
  · exact Function.update_of_ne hk ..

theorem onlyOn_setPx (now : ℤ) (key value : String) (ms : ℤ) :
    OnlyOn key (setPx now key value ms) := by
  intro s k hk
  unfold setPx
  split
  · rfl
  · exact Function.update_of_ne hk ..

theorem onlyOn_incr (now : ℤ) (key : String) : OnlyOn key (incr now key) := by
  intro s k hk
  unfold incr
  split
  · exact Function.update_of_ne hk ..
  · rfl
  · split
    · rfl
    · split
      · rfl
      · exact Function.update_of_ne hk ..

theorem onlyOn_zset (now : ℤ) (key : String) : OnlyOn key (zset now key) := fun _ _ _ => rfl

theorem onlyOn_putZset (key : String) (entries : List (String × ℤ)) (expiresAt : Option ℤ) :
    OnlyOn key (putZset key entries expiresAt) :=
  fun _ _ hk => Function.update_of_ne hk ..

theorem onlyOn_zremrangebyscore (now : ℤ) (key : String) (max : ℤ) :
    OnlyOn key (zremrangebyscore now key max) :=
  (onlyOn_zset now key).bind fun _ => onlyOn_putZset key _ _

theorem onlyOn_zadd (now : ℤ) (key : String) (score : ℤ) (member : String) :
    OnlyOn key (zadd now key score member) :=
  (onlyOn_zset now key).bind fun _ => onlyOn_putZset key _ _

theorem onlyOn_zcard (now : ℤ) (key : String) : OnlyOn key (zcard now key) :=
  (onlyOn_zset now key).bind fun _ => .pure _

end Lemmas

end Redis
