import Ahjoor.Throttler.RedisThrottlerStorage
import Mathlib.Algebra.Order.Group.Int
import Mathlib.Data.List.Basic

/-!
# The sliding window

However the calls fall, the sorted set of a key lies between the calls that were allowed in the
last `ttl` milliseconds and all calls. The last call that is allowed in a window has therefore
counted the others, and a call is only blocked after a window has held too many.
-/

namespace Ahjoor.Throttler

open Async Redis Store

/-! ### What is claimed -/

/-- The calls for `key` (the last one first, as in a sequential run). -/
def callsFor (key : String) (calls : List (Call × Result)) : List (Call × Result) :=
  calls.filter fun x => x.1.key = key

/-- The call is let through. -/
def allowed : Result → Bool
  | .ok r => !r.isBlocked
  | .error _ => false

/-- The call is over the limit. -/
def blocked : Result → Bool
  | .ok r => r.isBlocked
  | .error _ => false

/-- The call falls into the window `(t - ttl, t]`. -/
def inWindow (ttl t : ℤ) (c : Call) : Bool := t - ttl < c.now ∧ c.now ≤ t

/-- At most `limit` calls are allowed in each window, and a caller that makes no more calls than
that is never blocked. -/
structure Limits (ttl limit : ℤ) (calls : List (Call × Result)) : Prop where
  atMost : ∀ t, (calls.countP fun x => allowed x.2 && inWindow ttl t x.1 : ℤ) ≤ limit
  neverBlocked : (∀ t, (calls.countP fun x => inWindow ttl t x.1 : ℤ) ≤ limit) →
    ∀ x ∈ calls, blocked x.2 = false

/-- The calls for one key have the same settings, come one after another, and add a member each. -/
structure Regular (ttl limit blockDuration : ℤ) (calls : List (Call × Result)) : Prop where
  same : ∀ x ∈ calls, x.1.ttl = ttl ∧ x.1.limit = limit ∧ x.1.blockDuration = blockDuration
  ascending : calls.Pairwise fun x y => y.1.now ≤ x.1.now
  members : (calls.map fun x => x.1.member).Nodup

/-! ### The script -/

section Script

variable {s : Keyspace} {key member : String} {now windowStart ttl : ℤ}
  {entries : List (String × ℤ)} {expiresAt : Option ℤ}

/-- The entries that stay when `member` is added and the window begins after `windowStart`. -/
def kept (windowStart : ℤ) (member : String) (entries : List (String × ℤ)) :
    List (String × ℤ) :=
  (entries.filter fun e => windowStart < e.2).filter fun e => e.1 ≠ member

/-- **The script** trims the set, adds the member, and counts. -/
theorem slidingLua_apply (h : IsZset s now key entries expiresAt) (httl : 0 < ttl) :
    SLIDING_LUA key now windowStart member ttl s =
      (.ok ((kept windowStart member entries).length + 1, ttl), Function.update s key
        (some ⟨.zset ((member, now) :: kept windowStart member entries), some (now + ttl)⟩)) := by
  obtain ⟨expiresAt', htrimmed⟩ : ∃ expiresAt', IsZset (Function.update s key
      (if (entries.filter fun e => windowStart < e.2) = [] then none
        else some ⟨.zset (entries.filter fun e => windowStart < e.2), expiresAt⟩)) now key
        (entries.filter fun e => windowStart < e.2) expiresAt' := isZset_update h.live _
  have hadded : ∀ s' : Keyspace, Keyspace.live (Function.update s' key
      (some ⟨.zset ((member, now) :: kept windowStart member entries), expiresAt'⟩)) now key =
        some ⟨.zset ((member, now) :: kept windowStart member entries), expiresAt'⟩ := by
    intro s'
    rw [live_update_self]
    exact Option.filter_eq_some_iff.mpr ⟨rfl, htrimmed.live⟩
  have hkept : (entries.filter fun e => windowStart < e.2).filter (fun e => e.1 ≠ member) =
      kept windowStart member entries := rfl
  rw [SLIDING_LUA, Script.bind_of_ok (zremrangebyscore_apply h windowStart),
    Script.bind_of_ok (zadd_apply htrimmed now member), Function.update_idem, hkept,
    Script.bind_of_ok (zcard_apply (isZset_of_live (hadded s))),
    Script.bind_of_ok (pexpire_apply (hadded s) httl), Function.update_idem]
  rfl

/-- The script fails on a key that holds no sorted set. -/
theorem slidingLua_error {msg : String} (h : zsetOf (s.live now key) = .error msg) :
    SLIDING_LUA key now windowStart member ttl s = (.error msg, s) := by
  have hzset : zset now key s = (.error msg, s) := by rw [zset, h]
  exact Script.bind_of_error (Script.bind_of_error hzset)

end Script

/-! ### Keys -/

theorem toList_slidingKey (key : String) :
    (slidingKey key).toList = "throttle:sw:".toList ++ key.toList :=
  String.toList_append

theorem toList_blockKey (key : String) :
    (blockKey key).toList = "throttle:block:".toList ++ key.toList :=
  String.toList_append

/-- Window keys and block keys differ. -/
theorem slidingKey_ne_blockKey (key key' : String) : slidingKey key ≠ blockKey key' := by
  intro h
  have hlist := congrArg (fun k : String => k.toList[9]?) h
  simp only [toList_slidingKey, toList_blockKey] at hlist
  rw [List.getElem?_append_left (by decide), List.getElem?_append_left (by decide)] at hlist
  exact absurd hlist (by decide)

theorem slidingKey_injective : Function.Injective slidingKey := by
  intro key key' h
  have hlist := congrArg String.toList h
  rw [toList_slidingKey, toList_slidingKey, List.append_cancel_left_eq] at hlist
  exact String.toList_injective hlist

theorem blockKey_injective : Function.Injective blockKey := by
  intro key key' h
  have hlist := congrArg String.toList h
  rw [toList_blockKey, toList_blockKey, List.append_cancel_left_eq] at hlist
  exact String.toList_injective hlist

/-! ### One call -/

section Call

variable {c : Call} {s s' : Keyspace} {pid : ℕ} {a : Result}

/-- The key that a command works on. -/
def Op.key : Op → String
  | pttl _ key | slidingLua key _ _ _ _ | fixedLua key _ _ | blockLua key _ _ => key

theorem onlyOn_script (o : Op) : OnlyOn o.key o.script := by
  cases o with
  | pttl now key => exact onlyOn_pttl now key
  | slidingLua key now windowStart member ttl =>
    exact (onlyOn_zremrangebyscore now key windowStart).bind fun _ =>
      (onlyOn_zadd now key now member).bind fun _ => (onlyOn_zcard now key).bind fun _ =>
        (onlyOn_pexpire now key ttl).bind fun _ => .pure _
  | fixedLua key now ttl =>
    refine (onlyOn_incr now key).bind fun hits => (onlyOn_pttl now key).bind fun pttl => ?_
    split
    · exact (onlyOn_pexpire now key ttl).bind fun _ => .pure _
    · exact .pure _
  | blockLua key now blockMs =>
    refine (onlyOn_pttl now key).bind fun ttl => ?_
    split
    · exact (onlyOn_setPx now key "1" blockMs).bind fun _ => .pure _
    · exact .pure _

/-- The key that an algorithm counts under. -/
def countKey : Algorithm → String → String
  | .sliding_window => slidingKey
  | .fixed_window => fixedKey

/-- A call works on its own two keys. -/
theorem uses_increment (algorithm : Algorithm) (c : Call) : ((system algorithm).body c).Uses
    (fun o => o.key = countKey algorithm c.key ∨ o.key = blockKey c.key) fun _ => True := by
  have hincrement : Routine.Uses
      (fun o : Op => o.key = countKey algorithm c.key ∨ o.key = blockKey c.key)
      (increment algorithm c.key c.ttl c.limit c.blockDuration c.now c.random) := by
    refine Routine.uses_tryCatch ?_ fun _ => Routine.uses_throw _
    refine Routine.uses_bind (Routine.uses_call (.inr rfl)) fun existingBlockTtl => ?_
    split
    · exact Routine.uses_pure _
    cases algorithm
    all_goals
      refine Routine.uses_bind (Routine.uses_call (.inl rfl)) fun hits => ?_
      obtain ⟨totalHits, timeToExpireMs⟩ := hits
      simp only
      split
      · exact Routine.uses_bind (Routine.uses_call (.inr rfl)) fun _ => Routine.uses_pure _
      · exact Routine.uses_pure _
  exact (hincrement ()).bind fun _ _ => trivial

/-- A command that does not fail is run. -/
theorem exec_cases {o : Op} {choice : Choice} {r : o.Ret} (h : exec o pid choice s = some (r, s')) :
    (r, s') = o.script s ∨ ((∃ msg, r = .error msg) ∧ (s' = s ∨ s' = (o.script s).2)) := by
  cases choice with
  | done => exact .inl (Option.some.inj h).symm
  | refused msg =>
    cases h
    exact .inr ⟨⟨msg, rfl⟩, .inl rfl⟩
  | lost msg =>
    cases h
    exact .inr ⟨⟨msg, rfl⟩, .inr rfl⟩

/-- A script that fails has changed nothing. -/
theorem failed_of_script {o : Op} {choice : Choice} {r : o.Ret} {msg : String}
    (h : exec o pid choice s = some (r, s')) (hscript : o.script s = (.error msg, s)) :
    s' = s ∧ ∃ msg, r = .error msg := by
  rcases exec_cases h with hrun | ⟨herror, rfl | rfl⟩
  · obtain ⟨rfl, rfl⟩ := Prod.mk.inj (hrun.trans hscript)
    exact ⟨rfl, msg, rfl⟩
  · exact ⟨rfl, herror⟩
  · exact ⟨congrArg Prod.snd hscript, herror⟩

/-- A call leaves the keys of the others alone. -/
theorem frame_of_alone {algorithm : Algorithm} (h : Alone exec pid ((system algorithm).body c) s a s')
    {k : String} (hcount : k ≠ countKey algorithm c.key) (hblock : k ≠ blockKey c.key) :
    s' k = s k := by
  refine h.keeps (J := fun w => w k = s k) ?_ (uses_increment algorithm c) rfl
  intro o choice r w w' ho hexec hw
  have hk : k ≠ o.key := by
    rcases ho with ho | ho <;> rw [ho]
    · exact hcount
    · exact hblock
  rcases exec_cases hexec with hrun | ⟨-, rfl | rfl⟩
  · have hw' : w' = (o.script w).2 := congrArg Prod.snd hrun
    rw [hw', onlyOn_script o w k hk, hw]
  · exact hw
  · rw [onlyOn_script o w k hk, hw]

/-- The entries that stay when the call is counted. -/
def Call.kept (c : Call) (entries : List (String × ℤ)) : List (String × ℤ) :=
  Throttler.kept (c.now - c.ttl) c.member entries

/-- What a call comes to. -/
inductive Comes (c : Call) (s : Keyspace) : Result → Keyspace → Prop
  | failed (e : Exc) : Comes c s (.error e) s
  | refused (ttl : ℤ) (h : s (blockKey c.key) ≠ none) :
      Comes c s (.ok (blockedRecord c.limit ttl)) s
  | counted {entries : List (String × ℤ)} {expiresAt : Option ℤ} {a : Result} {s' : Keyspace}
      (hzset : IsZset s c.now (slidingKey c.key) entries expiresAt)
      (hsliding : s' (slidingKey c.key) =
        some ⟨.zset ((c.member, c.now) :: c.kept entries), some (c.now + c.ttl)⟩)
      (hblock : s' (blockKey c.key) = s (blockKey c.key) ∨ c.limit < (c.kept entries).length + 1)
      (ha : ∀ r, a = .ok r → r.isBlocked = decide (c.limit < ((c.kept entries).length : ℤ) + 1)) :
      Comes c s a s'

/-- A key that has time to live is there. -/
theorem ne_none_of_ttlOf {now : ℤ} {key : String} (h : 0 < ttlOf now (s.live now key)) :
    s key ≠ none := by
  intro hnone
  rw [Keyspace.live, hnone] at h
  replace h : (0 : ℤ) < -2 := h
  omega

/-- What is left of a call inside its `try` comes to this. -/
def Finishes (pid : ℕ) (m : Service ThrottlerStorageRecord) (s : Keyspace) (a : Result)
    (s' : Keyspace) : Prop :=
  Alone exec pid ((tryCatch m (fun _ => throw unavailable) : Service ThrottlerStorageRecord) ()
    |>.bind fun x => .ret x.1) s a s'

/-- The call has been counted. -/
theorem comes_of_counted {s₁ : Keyspace} {entries : List (String × ℤ)} {expiresAt : Option ℤ}
    (hzset : IsZset s c.now (slidingKey c.key) entries expiresAt)
    (hsliding : s₁ (slidingKey c.key) =
      some ⟨.zset ((c.member, c.now) :: c.kept entries), some (c.now + c.ttl)⟩)
    (hblock : s₁ (blockKey c.key) = s (blockKey c.key))
    (h : Finishes pid (if c.limit < (c.kept entries).length + 1 ∧ 0 < c.blockDuration then do
        let blockMs : ℤ ← send (.blockLua (blockKey c.key) c.now c.blockDuration)
        pure (countedRecord c.limit ((c.kept entries).length + 1) c.ttl (ceilSeconds blockMs))
      else pure (countedRecord c.limit ((c.kept entries).length + 1) c.ttl 0)) s₁ a s') :
    Comes c s a s' := by
  by_cases hover : c.limit < ((c.kept entries).length : ℤ) + 1 ∧ 0 < c.blockDuration
  · rw [if_pos hover] at h
    obtain ⟨choice, r, s₂, hexec, hrest⟩ := alone_op.mp h
    have hother : s₂ (slidingKey c.key) = s₁ (slidingKey c.key) := by
      have hscript := onlyOn_script (.blockLua (blockKey c.key) c.now c.blockDuration) s₁ _
        (slidingKey_ne_blockKey c.key c.key)
      rcases exec_cases hexec with hrun | ⟨-, rfl | rfl⟩
      · rw [← hscript]
        exact congrFun (congrArg Prod.snd hrun) _
      · rfl
      · exact hscript
    have hends : s' = s₂ ∧ ∀ rec, a = .ok rec →
        rec.isBlocked = decide (c.limit < ((c.kept entries).length : ℤ) + 1) := by
      cases r with
      | error msg =>
        obtain ⟨rfl, rfl⟩ := alone_ret.mp hrest
        exact ⟨rfl, nofun⟩
      | ok blockMs =>
        obtain ⟨rfl, rfl⟩ := alone_ret.mp hrest
        exact ⟨rfl, fun rec hrec => by cases hrec; rfl⟩
    obtain ⟨rfl, hrec⟩ := hends
    exact .counted hzset (hother.trans hsliding) (.inr hover.1) hrec
  · rw [if_neg hover] at h
    obtain ⟨rfl, rfl⟩ := alone_ret.mp h
    exact .counted hzset hsliding (.inl hblock) fun rec hrec => by cases hrec; rfl

/-- Counting the call. -/
theorem comes_of_count (httl : 0 < c.ttl) (h : Finishes pid
    (count .sliding_window c.key c.ttl c.limit c.blockDuration c.now c.random) s a s') :
    Comes c s a s' := by
  obtain ⟨choice, r, s₁, hexec, hrest⟩ := alone_op.mp h
  have hrefused : ∀ msg : String, r = .error msg → a = .error unavailable ∧ s' = s₁ := by
    rintro msg rfl
    exact alone_ret.mp hrest
  cases hfound : zsetOf (s.live c.now (slidingKey c.key)) with
  | error msg =>
    have hscript : (Op.slidingLua (slidingKey c.key) c.now (c.now - c.ttl) c.member c.ttl).script s =
        (.error msg, s) := slidingLua_error hfound
    obtain ⟨rfl, msg', hr⟩ := failed_of_script hexec hscript
    obtain ⟨rfl, rfl⟩ := hrefused msg' hr
    exact .failed _
  | ok found =>
    obtain ⟨entries, expiresAt⟩ := found
    have hzset := isZset_of_found hfound
    have hscript : (Op.slidingLua (slidingKey c.key) c.now (c.now - c.ttl) c.member c.ttl).script s =
        (.ok ((c.kept entries).length + 1, c.ttl), Function.update s (slidingKey c.key)
          (some ⟨.zset ((c.member, c.now) :: c.kept entries), some (c.now + c.ttl)⟩)) :=
      slidingLua_apply hzset httl
    have hblockKey : Function.update s (slidingKey c.key)
        (some ⟨.zset ((c.member, c.now) :: c.kept entries), some (c.now + c.ttl)⟩)
          (blockKey c.key) = s (blockKey c.key) :=
      Function.update_of_ne (slidingKey_ne_blockKey c.key c.key).symm ..
    rcases exec_cases hexec with hrun | ⟨⟨msg, hmsg⟩, hs₁ | hs₁⟩
    · obtain ⟨rfl, rfl⟩ := Prod.mk.inj (hrun.trans hscript)
      exact comes_of_counted hzset (Function.update_self ..) hblockKey hrest
    · obtain ⟨rfl, rfl⟩ := hrefused msg hmsg
      rw [hs₁]
      exact .failed _
    · obtain ⟨rfl, rfl⟩ := hrefused msg hmsg
      have hafter := hs₁.trans (congrArg Prod.snd hscript)
      exact .counted hzset ((congrFun hafter _).trans (Function.update_self ..))
        (.inl ((congrFun hafter _).trans hblockKey)) nofun

/-- **How a call begins**: it fails, it is blocked, or it is counted. -/
theorem begins_of_alone {algorithm : Algorithm} (h : Alone exec pid ((system algorithm).body c) s a s') :
    (∃ e, a = .error e ∧ s' = s) ∨
      (∃ ttl, s (blockKey c.key) ≠ none ∧ a = .ok (blockedRecord c.limit ttl) ∧ s' = s) ∨
      Finishes pid (count algorithm c.key c.ttl c.limit c.blockDuration c.now c.random) s a s' := by
  obtain ⟨choice, r, s₁, hexec, hrest⟩ := alone_op.mp h
  have hsame : s₁ = s ∧ ((∃ msg, r = .error msg) ∨
      r = .ok (ttlOf c.now (s.live c.now (blockKey c.key)))) := by
    rcases exec_cases hexec with hrun | ⟨herror, rfl | rfl⟩
    · obtain ⟨rfl, rfl⟩ := Prod.mk.inj hrun
      exact ⟨rfl, .inr rfl⟩
    · exact ⟨rfl, .inl herror⟩
    · exact ⟨rfl, .inl herror⟩
  obtain ⟨rfl, ⟨msg, rfl⟩ | rfl⟩ := hsame
  · obtain ⟨rfl, rfl⟩ := alone_ret.mp hrest
    exact .inl ⟨_, rfl, rfl⟩
  · replace hrest : Finishes pid (if 0 < ttlOf c.now (s₁.live c.now (blockKey c.key)) then
        pure (blockedRecord c.limit (ttlOf c.now (s₁.live c.now (blockKey c.key))))
      else count algorithm c.key c.ttl c.limit c.blockDuration c.now c.random) s₁ a s' := hrest
    by_cases hblocked : 0 < ttlOf c.now (s₁.live c.now (blockKey c.key))
    · rw [if_pos hblocked] at hrest
      obtain ⟨rfl, rfl⟩ := alone_ret.mp hrest
      exact .inr (.inl ⟨_, ne_none_of_ttlOf hblocked, rfl, rfl⟩)
    · rw [if_neg hblocked] at hrest
      exact .inr (.inr hrest)

/-- **What a call that runs alone comes to.** -/
theorem comes_of_alone (httl : 0 < c.ttl)
    (h : Alone exec pid ((system .sliding_window).body c) s a s') : Comes c s a s' := by
  rcases begins_of_alone h with ⟨e, rfl, rfl⟩ | ⟨ttl, hblocked, rfl, rfl⟩ | hcount
  · exact .failed e
  · exact .refused ttl hblocked
  · exact comes_of_count httl hcount

end Call

/-! ### The invariant -/

section Counts

variable {key : String} {ttl limit blockDuration : ℤ} {calls : List (Call × Result)}
  {s s' : Keyspace} {c : Call} {a : Result}

/-- What a call adds to its sorted set. -/
def entryOf (x : Call × Result) : String × ℤ := (x.1.member, x.1.now)

/-- The calls that were allowed after `t`. -/
def allowedAfter (t : ℤ) (calls : List (Call × Result)) : List (Call × Result) :=
  calls.filter fun x => allowed x.2 && t < x.1.now

/-- Some window has held more than `limit` calls. -/
def Over (ttl limit : ℤ) (calls : List (Call × Result)) : Prop :=
  ∃ t, limit < (calls.countP fun x => inWindow ttl t x.1 : ℤ)

/-- The store after the calls for `key` that are listed. -/
structure Counts (key : String) (ttl limit : ℤ) (calls : List (Call × Result)) (s : Keyspace) :
    Prop where
  between : ∀ now, (∀ x ∈ calls, x.1.now ≤ now) → ∃ entries expiresAt,
    IsZset s now (slidingKey key) entries expiresAt ∧ entries.Sublist (calls.map entryOf) ∧
      ((allowedAfter (now - ttl) calls).map entryOf).Sublist entries
  exceeded : (s (blockKey key) ≠ none ∨ ∃ x ∈ calls, blocked x.2 = true) → Over ttl limit calls
  atMost : ∀ t, (calls.countP fun x => allowed x.2 && inWindow ttl t x.1 : ℤ) ≤ limit

theorem Over.cons (h : Over ttl limit calls) (x : Call × Result) : Over ttl limit (x :: calls) := by
  obtain ⟨t, ht⟩ := h
  have hle : (calls.countP fun x => inWindow ttl t x.1) ≤
      (x :: calls).countP fun x => inWindow ttl t x.1 := (List.sublist_cons_self x calls).countP_le
  exact ⟨t, by omega⟩

theorem allowedAfter_cons_of_not (t : ℤ) (h : allowed a = false) :
    allowedAfter t ((c, a) :: calls) = allowedAfter t calls := by
  simp [allowedAfter, h]

/-- A call that is not allowed and leaves the store alone. -/
theorem Counts.refused (h : Counts key ttl limit calls s) (ha : allowed a = false)
    (hover : blocked a = true → Over ttl limit calls) :
    Counts key ttl limit ((c, a) :: calls) s := by
  refine ⟨fun now hnow => ?_, fun hblocked => ?_, fun t => ?_⟩
  · obtain ⟨entries, expiresAt, hzset, hupper, hlower⟩ :=
      h.between now fun x hx => hnow x (List.mem_cons_of_mem _ hx)
    exact ⟨entries, expiresAt, hzset, hupper.cons _, by rwa [allowedAfter_cons_of_not _ ha]⟩
  · have hold : Over ttl limit calls := by
      rcases hblocked with hkey | ⟨x, hx, hblocked⟩
      · exact h.exceeded (.inl hkey)
      · rcases List.mem_cons.mp hx with rfl | hx
        · exact hover hblocked
        · exact h.exceeded (.inr ⟨x, hx, hblocked⟩)
    exact hold.cons _
  · rw [List.countP_cons_of_neg (by simp [ha])]
    exact h.atMost t

/-- The entries that stay when a call is counted lie between the same bounds. -/
theorem kept_between {entries : List (String × ℤ)} (httl : c.ttl = ttl)
    (hmember : ∀ x ∈ calls, x.1.member ≠ c.member) (hupper : entries.Sublist (calls.map entryOf))
    (hlower : ((allowedAfter (c.now - ttl) calls).map entryOf).Sublist entries) :
    (c.kept entries).Sublist (calls.map entryOf) ∧
      ((allowedAfter (c.now - ttl) calls).map entryOf).Sublist (c.kept entries) := by
  refine ⟨(List.filter_sublist.trans List.filter_sublist).trans hupper, ?_⟩
  have htrimmed := (hlower.filter fun e => c.now - c.ttl < e.2).filter fun e => e.1 ≠ c.member
  rw [List.filter_filter, List.filter_eq_self.mpr] at htrimmed
  · exact htrimmed
  · intro e he
    obtain ⟨x, hx, rfl⟩ := List.mem_map.mp he
    obtain ⟨hmem, hafter⟩ := List.mem_filter.mp hx
    have hlate : c.now - ttl < x.1.now := of_decide_eq_true (Bool.and_eq_true_iff.mp hafter).2
    rw [Bool.and_eq_true_iff, decide_eq_true_eq, decide_eq_true_eq, httl]
    exact ⟨hmember x hmem, hlate⟩

/-- Fewer calls were allowed after a later time. -/
theorem allowedAfter_sublist {t t' : ℤ} (h : t ≤ t') (calls : List (Call × Result)) :
    (allowedAfter t' calls).Sublist (allowedAfter t calls) := by
  refine List.monotone_filter_right _ fun x hx => ?_
  obtain ⟨hallowed, hafter⟩ := Bool.and_eq_true_iff.mp hx
  exact Bool.and_eq_true_iff.mpr
    ⟨hallowed, decide_eq_true (lt_of_le_of_lt h (of_decide_eq_true hafter))⟩

/-- The set of a call that is counted holds no more than the calls in its window. -/
theorem length_kept_le {entries : List (String × ℤ)} (httl : c.ttl = ttl)
    (hlast : ∀ x ∈ calls, x.1.now ≤ c.now) (h : (c.kept entries).Sublist (calls.map entryOf)) :
    (c.kept entries).length ≤ calls.countP fun x => inWindow ttl c.now x.1 := by
  have hall : (c.kept entries).countP (fun e => c.now - ttl < e.2) = (c.kept entries).length := by
    rw [List.countP_eq_length]
    intro e he
    have htrimmed := (List.mem_filter.mp (List.mem_filter.mp he).1).2
    rwa [httl] at htrimmed
  have hle := h.countP_le (p := fun e => decide (c.now - ttl < e.2))
  rw [hall, List.countP_map] at hle
  refine hle.trans (le_of_eq (List.countP_congr fun x hx => ?_))
  have hbefore := hlast x hx
  rw [Function.comp_apply, decide_eq_true_iff, inWindow, decide_eq_true_iff]
  exact (and_iff_left hbefore).symm

/-- A call that is counted. -/
theorem Counts.counted {entries : List (String × ℤ)} {expiresAt : Option ℤ}
    (h : Counts key ttl limit calls s) (hkey : c.key = key) (httl : c.ttl = ttl)
    (hpos : 0 < ttl) (hlimit : c.limit = limit) (hlast : ∀ x ∈ calls, x.1.now ≤ c.now)
    (hmember : ∀ x ∈ calls, x.1.member ≠ c.member)
    (hzset : IsZset s c.now (slidingKey c.key) entries expiresAt)
    (hsliding : s' (slidingKey c.key) =
      some ⟨.zset ((c.member, c.now) :: c.kept entries), some (c.now + c.ttl)⟩)
    (hblock : s' (blockKey c.key) = s (blockKey c.key) ∨ c.limit < (c.kept entries).length + 1)
    (ha : ∀ r, a = .ok r → r.isBlocked = decide (c.limit < ((c.kept entries).length : ℤ) + 1)) :
    Counts key ttl limit ((c, a) :: calls) s' := by
  obtain ⟨entries', expiresAt', hzset', hupper, hlower⟩ := h.between c.now hlast
  rw [← hkey] at hzset'
  obtain ⟨rfl, -⟩ := Prod.mk.inj (Except.ok.inj (hzset'.found.symm.trans hzset.found))
  obtain ⟨hkeptUpper, hkeptLower⟩ := kept_between httl hmember hupper hlower
  have hlength := length_kept_le httl hlast hkeptUpper
  have hover : c.limit < ((c.kept entries').length : ℤ) + 1 → Over ttl limit ((c, a) :: calls) := by
    intro hmany
    refine ⟨c.now, ?_⟩
    rw [List.countP_cons_of_pos (by simp [inWindow]; omega)]
    omega
  refine ⟨fun now hnow => ?_, fun hblocked => ?_, fun t => ?_⟩
  · -- between: the set has just been stored, or it has expired and with it every call in it
    have hnow' : c.now ≤ now := hnow (c, a) List.mem_cons_self
    by_cases hlive : now ≤ c.now + c.ttl
    · refine ⟨_, _, isZset_of_live (Option.filter_eq_some_iff.mpr ⟨hkey ▸ hsliding, ?_⟩),
        hkeptUpper.cons_cons _, ?_⟩
      · exact decide_eq_true hlive
      · have hlater : c.now - ttl ≤ now - ttl := by omega
        have hrest := ((allowedAfter_sublist hlater calls).map entryOf).trans hkeptLower
        rw [allowedAfter, List.filter_cons]
        split
        · exact hrest.cons_cons _
        · exact hrest.cons _
    · refine ⟨_, _, isZset_of_live_none ?_, List.nil_sublist _, ?_⟩
      · rw [Keyspace.live, ← hkey, hsliding]
        exact Option.filter_eq_none_iff.mpr fun e he => by cases he; simpa [Entry.isLive] using hlive
      · rw [allowedAfter, List.filter_eq_nil_iff.mpr]
        · exact List.nil_sublist _
        · intro x hx hafter
          have hbefore : x.1.now ≤ c.now := by
            rcases List.mem_cons.mp hx with rfl | hx
            · exact le_refl _
            · exact hlast x hx
          have hlate : now - ttl < x.1.now := of_decide_eq_true (Bool.and_eq_true_iff.mp hafter).2
          omega
  · rcases hblocked with hset | ⟨x, hx, hblocked⟩
    · rcases hblock with hsame | hmany
      · rw [← hkey, hsame, hkey] at hset
        exact (h.exceeded (.inl hset)).cons _
      · exact hover hmany
    · rcases List.mem_cons.mp hx with rfl | hx
      · cases a with
        | error e => cases hblocked
        | ok r =>
          rw [blocked, ha r rfl] at hblocked
          exact hover (of_decide_eq_true hblocked)
      · exact (h.exceeded (.inr ⟨x, hx, hblocked⟩)).cons _
  · by_cases hcounts : (allowed a && inWindow ttl t c) = true
    · rw [List.countP_cons, if_pos hcounts]
      obtain ⟨hallowed, hin⟩ := Bool.and_eq_true_iff.mp hcounts
      obtain ⟨hfrom, hto⟩ := of_decide_eq_true hin
      have hfits : ((c.kept entries').length : ℤ) + 1 ≤ limit := by
        cases a with
        | error e => cases hallowed
        | ok r =>
          rw [allowed, ha r rfl] at hallowed
          simpa [hlimit] using hallowed
      -- those that were allowed in the window are among those that the call has counted
      have hothers : (calls.countP fun x => allowed x.2 && inWindow ttl t x.1) ≤
          (c.kept entries').length := by
        rw [List.countP_eq_length_filter]
        have hsub : (calls.filter fun x => allowed x.2 && inWindow ttl t x.1).Sublist
            (allowedAfter (c.now - ttl) calls) := by
          refine List.monotone_filter_right _ fun x hx => ?_
          obtain ⟨hallowed, hin⟩ := Bool.and_eq_true_iff.mp hx
          have hafter := (of_decide_eq_true hin).1
          exact Bool.and_eq_true_iff.mpr ⟨hallowed, decide_eq_true (by omega)⟩
        simpa using (hsub.map entryOf).length_le.trans hkeptLower.length_le
      omega
    · rw [List.countP_cons, if_neg hcounts]
      exact h.atMost t

/-- Only the two keys matter. -/
theorem Counts.congr (h : Counts key ttl limit calls s)
    (hsliding : s' (slidingKey key) = s (slidingKey key))
    (hblock : s' (blockKey key) = s (blockKey key)) : Counts key ttl limit calls s' := by
  refine ⟨fun now hnow => ?_, fun hblocked => ?_, h.atMost⟩
  · obtain ⟨entries, expiresAt, hzset, hbounds⟩ := h.between now hnow
    refine ⟨entries, expiresAt, ⟨hzset.live, ?_⟩, hbounds⟩
    rw [Keyspace.live, hsliding]
    exact hzset.found
  · rw [hblock] at hblocked
    exact h.exceeded hblocked

/-- **One call** for the key keeps the store between its bounds. -/
theorem Counts.call (h : Counts key ttl limit calls s) (hpos : 0 < ttl) (hkey : c.key = key)
    (hregular : Regular ttl limit blockDuration ((c, a) :: calls)) (hcomes : Comes c s a s') :
    Counts key ttl limit ((c, a) :: calls) s' := by
  obtain ⟨httl, hlimit, -⟩ := hregular.same (c, a) List.mem_cons_self
  cases hcomes with
  | failed e => exact h.refused rfl nofun
  | refused blockTtl hset => exact h.refused rfl fun _ => h.exceeded (.inl (hkey ▸ hset))
  | counted hzset hsliding hblock ha =>
    have hlast := (List.pairwise_cons.mp hregular.ascending).1
    have hfresh := (List.nodup_cons.mp hregular.members).1
    refine h.counted hkey httl hpos hlimit hlast (fun x hx heq => hfresh ?_) hzset hsliding hblock ha
    exact List.mem_map.mpr ⟨x, hx, heq⟩

theorem Regular.tail {x : Call × Result} (h : Regular ttl limit blockDuration (x :: calls)) :
    Regular ttl limit blockDuration calls where
  same y hy := h.same y (List.mem_cons_of_mem x hy)
  ascending := (List.pairwise_cons.mp h.ascending).2
  members := (List.nodup_cons.mp h.members).2

/-- **Every run** keeps the store between its bounds. -/
theorem counts_of_runs {w₀ w : Keyspace} (hlimit : 0 ≤ limit) (httl : 0 < ttl)
    (hsliding : w₀ (slidingKey key) = none) (hblock : w₀ (blockKey key) = none)
    (hruns : Runs (system .sliding_window) w₀ calls w)
    (hregular : Regular ttl limit blockDuration (callsFor key calls)) :
    Counts key ttl limit (callsFor key calls) w := by
  refine hruns.rule (I := fun calls w => Regular ttl limit blockDuration (callsFor key calls) →
    Counts key ttl limit (callsFor key calls) w) (fun _ => ?_) ?_ hregular
  · refine ⟨fun now _ => ⟨[], none, isZset_of_live_none ?_, List.Sublist.refl _,
      List.Sublist.refl _⟩, fun hblocked => ?_, fun t => hlimit⟩
    · rw [Keyspace.live, hsliding]
      rfl
    · rcases hblocked with hset | ⟨x, hx, -⟩
      · exact absurd hblock hset
      · exact absurd hx List.not_mem_nil
  · intro calls w₁ pid c a w₂ _ ih halone hregular
    by_cases hkey : c.key = key
    · rw [callsFor, List.filter_cons, if_pos (decide_eq_true hkey)] at hregular ⊢
      have hcall := (hregular.same (c, a) List.mem_cons_self).1
      exact (ih hregular.tail).call httl hkey hregular
        (comes_of_alone (by rwa [hcall]) halone)
    · rw [callsFor, List.filter_cons, if_neg (by simpa using hkey)] at hregular ⊢
      have hne : ∀ {f : String → String}, Function.Injective f → f key ≠ f c.key :=
        fun hf heq => hkey (hf heq).symm
      exact (ih hregular).congr
        (frame_of_alone halone (hne slidingKey_injective) (slidingKey_ne_blockKey key c.key))
        (frame_of_alone halone (slidingKey_ne_blockKey c.key key).symm (hne blockKey_injective))

end Counts

/-- **The sliding window limits every key**, whatever is asked for other keys and whichever
commands fail. -/
theorem slidingWindow_limits {key : String} {ttl limit blockDuration : ℤ} {w₀ w : Keyspace}
    {calls : List (Call × Result)} (hlimit : 1 ≤ limit) (httl : 0 < ttl)
    (hsliding : w₀ (slidingKey key) = none) (hblock : w₀ (blockKey key) = none)
    (hruns : Runs (system .sliding_window) w₀ calls w)
    (hregular : Regular ttl limit blockDuration (callsFor key calls)) :
    Limits ttl limit (callsFor key calls) := by
  have hcounts := counts_of_runs (by omega) httl hsliding hblock hruns hregular
  refine ⟨hcounts.atMost, fun hfew x hx => ?_⟩
  by_contra hblocked
  obtain ⟨t, hmany⟩ := hcounts.exceeded (.inr ⟨x, hx, by simpa using hblocked⟩)
  exact absurd hmany (not_lt.mpr (hfew t))

instance (ttl limit blockDuration : ℤ) (calls : List (Call × Result)) :
    Decidable (Regular ttl limit blockDuration calls) :=
  decidable_of_iff ((∀ x ∈ calls, x.1.ttl = ttl ∧ x.1.limit = limit ∧
      x.1.blockDuration = blockDuration) ∧ (calls.Pairwise fun x y => y.1.now ≤ x.1.now) ∧
        (calls.map fun x => x.1.member).Nodup)
    ⟨fun ⟨hsame, hascending, hmembers⟩ => ⟨hsame, hascending, hmembers⟩,
      fun h => ⟨h.same, h.ascending, h.members⟩⟩

namespace Sample

/-- A call for `k` that may be made once in ten milliseconds. -/
def call (now : ℤ) : Call where
  key := "k"
  ttl := 10
  limit := 1
  blockDuration := 5
  now
  random := "0.5"

/-- Three calls: the second one is over the limit, the third one comes after its window. -/
def calls : List (Call × List Choice) :=
  [(call 20, [.done, .done]), (call 3, [.done, .done, .done]), (call 0, [.done, .done])]

end Sample

/-- A call that is blocked between two that are allowed. -/
theorem slidingWindow_limits_sample : ∃ calls w,
    Runs (system .sliding_window) (fun _ => none) calls w ∧
      calls.map (fun x => blocked x.2) = [false, true, false] ∧
        Limits 10 1 (callsFor "k" calls) := by
  obtain ⟨calls, w, hruns, hp⟩ := exists_runs_of_replayCalls (system .sliding_window)
    (fun _ => none) Sample.calls (fun x => x.1.map (fun x => blocked x.2) = [false, true, false] ∧
      Regular 10 1 5 (callsFor "k" x.1)) (by decide +kernel)
  obtain ⟨hblocked, hregular⟩ := of_decide_eq_true hp
  exact ⟨calls, w, hruns, hblocked,
    slidingWindow_limits (by decide) (by decide) rfl rfl hruns hregular⟩

end Ahjoor.Throttler
