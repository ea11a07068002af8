import Ahjoor.Redis.FixedWindow
import Ahjoor.Throttler.SlidingWindow

/-!
# The fixed window

In this mode a call is counted in the window that the first call has opened. A window ends on its
own, so a burst at the end of one and another at the start of the next are both let through: in an
interval of `ttl` milliseconds up to `2 * limit - 1` calls are allowed, and a caller that stays
within the limit in each such interval is never blocked.
-/

namespace Ahjoor.Throttler

open Async Redis Redis.FixedWindow Store

/-! ### What the mode promises -/

/-- The call falls into the interval `[t - ttl, t]`. -/
def inInterval (ttl t : ℤ) (c : Call) : Bool := t - ttl ≤ c.now ∧ c.now ≤ t

/-- Less than twice the limit is allowed in each interval, and a caller that keeps to the limit is
never blocked. -/
structure FixedLimits (ttl limit : ℤ) (calls : List (Call × Result)) : Prop where
  atMost : ∀ t, (calls.countP fun x => allowed x.2 && inInterval ttl t x.1 : ℤ) + 1 ≤ 2 * limit
  neverBlocked : (∀ t, (calls.countP fun x => inInterval ttl t x.1 : ℤ) ≤ limit) →
    ∀ x ∈ calls, blocked x.2 = false

/-- The calls for one key have the same settings and come one after another. -/
structure Steady (ttl limit : ℤ) (calls : List (Call × Result)) : Prop where
  same : ∀ x ∈ calls, x.1.ttl = ttl ∧ x.1.limit = limit
  ascending : calls.Pairwise fun x y => y.1.now ≤ x.1.now

/-! ### Keys -/

theorem toList_fixedKey (key : String) :
    (fixedKey key).toList = "throttle:fw:".toList ++ key.toList :=
  String.toList_append

/-- Counters and block keys differ. -/
theorem fixedKey_ne_blockKey (key key' : String) : fixedKey key ≠ blockKey key' := by
  intro h
  have hlist := congrArg (fun k : String => k.toList[9]?) h
  simp only [toList_fixedKey, toList_blockKey] at hlist
  rw [List.getElem?_append_left (by decide), List.getElem?_append_left (by decide)] at hlist
  exact absurd hlist (by decide)

theorem fixedKey_injective : Function.Injective fixedKey := by
  intro key key' h
  have hlist := congrArg String.toList h
  rw [toList_fixedKey, toList_fixedKey, List.append_cancel_left_eq] at hlist
  exact String.toList_injective hlist

/-! ### The script -/

section Script

variable {s : Keyspace} {key : String} {now ttl : ℤ} {o : Option Window}

/-- **The script** counts a hit, or fails on an overfull counter and changes nothing. -/
theorem fixedLua_apply (h : Holds s key o) (httl : 0 < ttl) :
    (∃ w msg, o = some w ∧ 2 ^ 63 - 1 ≤ (w.hits : ℤ) ∧
        FIXED_LUA key now ttl s = (.error msg, s)) ∨
      ∃ pttl, FIXED_LUA key now ttl s = (.ok (((hit ttl now o).hits : ℤ), pttl),
        Function.update s key (some (hit ttl now o).entry)) := by
  rcases @incr_of_holds s key now o h with ⟨w, msg, ho, hfull, hincr⟩ | ⟨w, rfl, hopen, hincr⟩ |
    ⟨hpast, hincr⟩
  · exact .inl ⟨w, msg, ho, hfull, Script.bind_of_error hincr⟩
  · refine .inr ⟨w.last - now, ?_⟩
    have hhit : hit ttl now (some w) = ⟨w.hits + 1, w.last⟩ := if_pos hopen
    have hlive : Keyspace.live (Function.update s key (some (Window.entry ⟨w.hits + 1, w.last⟩)))
        now key = some (Window.entry ⟨w.hits + 1, w.last⟩) := by
      rw [live_update_self]
      exact Option.filter_eq_some_iff.mpr ⟨rfl, decide_eq_true hopen⟩
    have hpttl : pttl now key (Function.update s key (some (Window.entry ⟨w.hits + 1, w.last⟩))) =
        (.ok (w.last - now), Function.update s key (some (Window.entry ⟨w.hits + 1, w.last⟩))) := by
      rw [pttl, hlive]
      rfl
    rw [FIXED_LUA, Script.bind_of_ok hincr, Script.bind_of_ok hpttl, if_neg (by omega), hhit,
      Nat.cast_succ]
    rfl
  · refine .inr ⟨ttl, ?_⟩
    have hhit : hit ttl now o = ⟨1, now + ttl⟩ := by
      rcases hit_cases ttl now o with ⟨w, ho, hopen, -⟩ | ⟨-, hhit⟩
      · exact absurd (hpast w ho) (not_lt.mpr hopen)
      · exact hhit
    have hpttl : pttl now key (Function.update s key (some ⟨.str "1", none⟩)) =
        (.ok (-1), Function.update s key (some ⟨.str "1", none⟩)) := by
      rw [pttl, live_update_self]
      rfl
    rw [FIXED_LUA, Script.bind_of_ok hincr, Script.bind_of_ok hpttl, if_pos (by decide),
      Script.bind_of_ok (pexpire_new httl), hhit]
    rfl

end Script

/-! ### One call -/

section Call

variable {c : Call} {s s' : Keyspace} {pid : ℕ} {a : Result} {o : Option Window}

/-- What a call comes to, where its key holds the window `o`. -/
inductive FixedComes (c : Call) (o : Option Window) (s : Keyspace) : Result → Keyspace → Prop
  | failed (e : Exc) : FixedComes c o s (.error e) s
  | refused (ttl : ℤ) (h : s (blockKey c.key) ≠ none) :
      FixedComes c o s (.ok (blockedRecord c.limit ttl)) s
  | counted {a : Result} {s' : Keyspace}
      (hfixed : s' (fixedKey c.key) = some (hit c.ttl c.now o).entry)
      (hblock : s' (blockKey c.key) = s (blockKey c.key) ∨
        c.limit < ((hit c.ttl c.now o).hits : ℤ))
      (ha : ∀ r, a = .ok r →
        r.isBlocked = decide (c.limit < ((hit c.ttl c.now o).hits : ℤ))) :
      FixedComes c o s a s'

/-- The call has been counted. -/
theorem fixedComes_of_counted {s₁ : Keyspace} {pttl : ℤ}
    (hfixed : s₁ (fixedKey c.key) = some (hit c.ttl c.now o).entry)
    (hblock : s₁ (blockKey c.key) = s (blockKey c.key))
    (h : Finishes pid (if c.limit < ((hit c.ttl c.now o).hits : ℤ) ∧ 0 < c.blockDuration then do
        let blockMs : ℤ ← send (.blockLua (blockKey c.key) c.now c.blockDuration)
        pure (countedRecord c.limit (hit c.ttl c.now o).hits pttl (ceilSeconds blockMs))
      else pure (countedRecord c.limit (hit c.ttl c.now o).hits pttl 0)) s₁ a s') :
    FixedComes c o s a s' := by
  by_cases hover : c.limit < ((hit c.ttl c.now o).hits : ℤ) ∧ 0 < c.blockDuration
  · rw [if_pos hover] at h
    obtain ⟨choice, r, s₂, hexec, hrest⟩ := alone_op.mp h
    have hother : s₂ (fixedKey c.key) = s₁ (fixedKey c.key) := by
      have hscript := onlyOn_script (.blockLua (blockKey c.key) c.now c.blockDuration) s₁ _
        (fixedKey_ne_blockKey c.key c.key)
      rcases exec_cases hexec with hrun | ⟨-, rfl | rfl⟩
      · rw [← hscript]
        exact congrFun (congrArg Prod.snd hrun) _
      · rfl
      · exact hscript
    have hends : s' = s₂ ∧ ∀ rec, a = .ok rec →
        rec.isBlocked = decide (c.limit < ((hit c.ttl c.now o).hits : ℤ)) := by
      cases r with
      | error msg =>
        obtain ⟨rfl, rfl⟩ := alone_ret.mp hrest
        exact ⟨rfl, nofun⟩
      | ok blockMs =>
        obtain ⟨rfl, rfl⟩ := alone_ret.mp hrest
        refine ⟨rfl, fun rec hrec => ?_⟩
        cases hrec
        rfl
    obtain ⟨rfl, hrec⟩ := hends
    exact .counted (hother.trans hfixed) (.inr hover.1) hrec
  · rw [if_neg hover] at h
    obtain ⟨rfl, rfl⟩ := alone_ret.mp h
    refine .counted hfixed (.inl hblock) fun rec hrec => ?_
    cases hrec
    rfl

/-- Counting the call. -/
theorem fixedComes_of_count (httl : 0 < c.ttl) (ho : Holds s (fixedKey c.key) o) (h : Finishes pid
    (count .fixed_window c.key c.ttl c.limit c.blockDuration c.now c.random) s a s') :
    FixedComes c o s a s' := by
  obtain ⟨choice, r, s₁, hexec, hrest⟩ := alone_op.mp h
  have hrefused : ∀ msg : String, r = .error msg → a = .error unavailable ∧ s' = s₁ := by
    rintro msg rfl
    exact alone_ret.mp hrest
  rcases @fixedLua_apply s _ c.now _ o ho httl with ⟨-, msg, -, -, hfails⟩ | ⟨pttl, hcounts⟩
  · have hscript : (Op.fixedLua (fixedKey c.key) c.now c.ttl).script s = (.error msg, s) := hfails
    obtain ⟨rfl, msg', hr⟩ := failed_of_script hexec hscript
    obtain ⟨rfl, rfl⟩ := hrefused msg' hr
    exact .failed _
  · have hscript : (Op.fixedLua (fixedKey c.key) c.now c.ttl).script s =
        (.ok (((hit c.ttl c.now o).hits : ℤ), pttl),
          Function.update s (fixedKey c.key) (some (hit c.ttl c.now o).entry)) := hcounts
    have hblockKey : Function.update s (fixedKey c.key) (some (hit c.ttl c.now o).entry)
        (blockKey c.key) = s (blockKey c.key) :=
      Function.update_of_ne (fixedKey_ne_blockKey c.key c.key).symm ..
    rcases exec_cases hexec with hrun | ⟨⟨msg, hmsg⟩, hs₁ | hs₁⟩
    · obtain ⟨rfl, rfl⟩ := Prod.mk.inj (hrun.trans hscript)
      exact fixedComes_of_counted (Function.update_self ..) hblockKey hrest
    · obtain ⟨rfl, rfl⟩ := hrefused msg hmsg
      rw [hs₁]
      exact .failed _
    · obtain ⟨rfl, rfl⟩ := hrefused msg hmsg
      have hafter := hs₁.trans (congrArg Prod.snd hscript)
      exact .counted ((congrFun hafter _).trans (Function.update_self ..))
        (.inl ((congrFun hafter _).trans hblockKey)) nofun

/-- **What a call that runs alone comes to.** -/
theorem fixedComes_of_alone (httl : 0 < c.ttl) (ho : Holds s (fixedKey c.key) o)
    (h : Alone exec pid ((system .fixed_window).body c) s a s') : FixedComes c o s a s' := by
  rcases begins_of_alone h with ⟨e, rfl, rfl⟩ | ⟨ttl, hblocked, rfl, rfl⟩ | hcount
  · exact .failed e
  · exact .refused ttl hblocked
  · exact fixedComes_of_count httl ho hcount

/-- **A call within the limit is allowed** when Redis answers. -/
theorem exists_alone_allowed (httl : 0 < c.ttl) (ho : Holds s (fixedKey c.key) o)
    (hfits : ((hit c.ttl c.now o).hits : ℤ) ≤ c.limit)
    (hsmall : ∀ w, o = some w → (w.hits : ℤ) < 2 ^ 63 - 1) (hblock : s (blockKey c.key) = none) :
    ∃ r, r.isBlocked = false ∧ Alone exec 0 ((system .fixed_window).body c) s (.ok r)
      (Function.update s (fixedKey c.key) (some (hit c.ttl c.now o).entry)) := by
  rcases @fixedLua_apply s _ c.now _ o ho httl with ⟨w, -, hw, hfull, -⟩ | ⟨pttl, hcounts⟩
  · exact absurd (hsmall w hw) (not_lt.mpr hfull)
  refine ⟨countedRecord c.limit (hit c.ttl c.now o).hits pttl 0,
    decide_eq_false (not_lt.mpr hfits), alone_op.mpr ⟨.done, _, _, rfl, ?_⟩⟩
  have hnone : ttlOf c.now (s.live c.now (blockKey c.key)) = -2 := by
    rw [Keyspace.live, hblock]
    rfl
  change Finishes 0 (if 0 < ttlOf c.now (s.live c.now (blockKey c.key)) then _ else
    count .fixed_window c.key c.ttl c.limit c.blockDuration c.now c.random) s _ _
  rw [hnone, if_neg (by decide)]
  refine alone_op.mpr ⟨.done, _, _, congrArg some hcounts, ?_⟩
  change Finishes 0 (if _ ∧ _ then _ else
    pure (countedRecord c.limit (hit c.ttl c.now o).hits pttl 0)) _ _ _
  rw [if_neg fun hover => absurd hover.1 (not_lt.mpr hfits)]
  exact alone_ret.mpr ⟨rfl, rfl⟩

end Call

/-! ### The invariant -/

section Counts

variable {key : String} {ttl limit : ℤ} {calls : List (Call × Result)} {s s' : Keyspace} {c : Call}
  {a : Result}

/-- When the calls were made. -/
def timesOf (calls : List (Call × Result)) : List ℤ := calls.map fun x => x.1.now

/-- When those were made that were allowed. -/
def allowedTimes (calls : List (Call × Result)) : List ℤ := timesOf (calls.filter fun x => allowed x.2)

/-- When the hits fell that are numbered up to the limit. -/
def earlyTimes (ttl limit : ℤ) (times : List ℤ) : List ℤ :=
  ((numbered ttl times).filter fun x => (x.2 : ℤ) ≤ limit).map Prod.fst

/-- **The store after the calls for `key`**: the calls that have hit the counter are among them, and
those that were allowed are among the early hits. -/
structure FixedCounts (key : String) (ttl limit : ℤ) (calls : List (Call × Result)) (times : List ℤ)
    (s : Keyspace) : Prop where
  holds : Holds s (fixedKey key) (after ttl times)
  hits : times.Sublist (timesOf calls)
  early : (allowedTimes calls).Sublist (earlyTimes ttl limit times)
  exceeded : (s (blockKey key) ≠ none ∨ ∃ x ∈ calls, blocked x.2 = true) →
    ∃ x ∈ numbered ttl times, limit < (x.2 : ℤ)

theorem allowedTimes_cons (c : Call) (a : Result) (calls : List (Call × Result)) :
    allowedTimes ((c, a) :: calls) =
      if allowed a then c.now :: allowedTimes calls else allowedTimes calls := by
  rw [allowedTimes, List.filter_cons]
  split <;> rfl

theorem earlyTimes_cons (ttl limit now : ℤ) (times : List ℤ) :
    earlyTimes ttl limit (now :: times) =
      if ((hit ttl now (after ttl times)).hits : ℤ) ≤ limit then now :: earlyTimes ttl limit times
        else earlyTimes ttl limit times := by
  rw [earlyTimes, numbered, List.filter_cons]
  simp only [decide_eq_true_eq]
  split <;> rfl

variable {times : List ℤ}

/-- A call that is not allowed and leaves the store alone. -/
theorem FixedCounts.refused (h : FixedCounts key ttl limit calls times s) (ha : allowed a = false)
    (hover : blocked a = true → ∃ x ∈ numbered ttl times, limit < (x.2 : ℤ)) :
    FixedCounts key ttl limit ((c, a) :: calls) times s := by
  refine ⟨h.holds, h.hits.cons _, ?_, fun hblocked => ?_⟩
  · rw [allowedTimes_cons, ha]
    exact h.early
  · rcases hblocked with hkey | ⟨x, hx, hblocked⟩
    · exact h.exceeded (.inl hkey)
    · rcases List.mem_cons.mp hx with rfl | hx
      · exact hover hblocked
      · exact h.exceeded (.inr ⟨x, hx, hblocked⟩)

/-- A call that is counted. -/
theorem FixedCounts.counted (h : FixedCounts key ttl limit calls times s)
    (hfixed : s' (fixedKey key) = some (hit ttl c.now (after ttl times)).entry)
    (hblock : s' (blockKey key) = s (blockKey key) ∨
      limit < ((hit ttl c.now (after ttl times)).hits : ℤ))
    (ha : ∀ r, a = .ok r →
      r.isBlocked = decide (limit < ((hit ttl c.now (after ttl times)).hits : ℤ))) :
    FixedCounts key ttl limit ((c, a) :: calls) (c.now :: times) s' := by
  have hover : limit < ((hit ttl c.now (after ttl times)).hits : ℤ) →
      ∃ x ∈ numbered ttl (c.now :: times), limit < (x.2 : ℤ) :=
    fun hmany => ⟨_, List.mem_cons_self, hmany⟩
  have hold : (∃ x ∈ numbered ttl times, limit < (x.2 : ℤ)) →
      ∃ x ∈ numbered ttl (c.now :: times), limit < (x.2 : ℤ) := by
    rintro ⟨x, hx, hmany⟩
    exact ⟨x, List.mem_cons_of_mem _ hx, hmany⟩
  refine ⟨hfixed, h.hits.cons_cons _, ?_, fun hblocked => ?_⟩
  · rw [allowedTimes_cons, earlyTimes_cons]
    cases a with
    | error e =>
      refine h.early.trans ?_
      split
      · exact List.sublist_cons_self _ _
      · exact List.Sublist.refl _
    | ok r =>
      rw [allowed, ha r rfl]
      by_cases hmany : limit < ((hit ttl c.now (after ttl times)).hits : ℤ)
      · rw [if_neg (by simpa using hmany), if_neg (not_le.mpr hmany)]
        exact h.early
      · rw [if_pos (by simpa using hmany), if_pos (not_lt.mp hmany)]
        exact h.early.cons_cons _
  · rcases hblocked with hset | ⟨x, hx, hblocked⟩
    · rcases hblock with hsame | hmany
      · rw [hsame] at hset
        exact hold (h.exceeded (.inl hset))
      · exact hover hmany
    · rcases List.mem_cons.mp hx with rfl | hx
      · cases a with
        | error e => cases hblocked
        | ok r =>
          rw [blocked, ha r rfl] at hblocked
          exact hover (of_decide_eq_true hblocked)
      · exact hold (h.exceeded (.inr ⟨x, hx, hblocked⟩))

/-- **One call** for the key. -/
theorem FixedCounts.call (h : FixedCounts key ttl limit calls times s) (hkey : c.key = key)
    (httl : c.ttl = ttl) (hlimit : c.limit = limit)
    (hcomes : FixedComes c (after ttl times) s a s') :
    ∃ times', FixedCounts key ttl limit ((c, a) :: calls) times' s' := by
  subst hkey httl hlimit
  cases hcomes with
  | failed e => exact ⟨times, h.refused rfl nofun⟩
  | refused blockTtl hset => exact ⟨times, h.refused rfl fun _ => h.exceeded (.inl hset)⟩
  | counted hfixed hblock ha => exact ⟨_, h.counted hfixed hblock ha⟩

/-- **Every run** keeps the store so. -/
theorem fixedCounts_of_runs {w₀ w : Keyspace} (httl : 0 < ttl)
    (hfixed : w₀ (fixedKey key) = none) (hblock : w₀ (blockKey key) = none)
    (hruns : Runs (system .fixed_window) w₀ calls w)
    (hsteady : Steady ttl limit (callsFor key calls)) :
    ∃ times, FixedCounts key ttl limit (callsFor key calls) times w := by
  refine hruns.rule (I := fun calls w => Steady ttl limit (callsFor key calls) →
    ∃ times, FixedCounts key ttl limit (callsFor key calls) times w) (fun _ => ?_) ?_ hsteady
  · refine ⟨[], hfixed, List.Sublist.refl _, List.Sublist.refl _, fun hblocked => ?_⟩
    rcases hblocked with hset | ⟨x, hx, -⟩
    · exact absurd hblock hset
    · exact absurd hx List.not_mem_nil
  · intro calls w₁ pid c a w₂ _ ih halone hsteady
    by_cases hkey : c.key = key
    · rw [callsFor, List.filter_cons, if_pos (decide_eq_true hkey)] at hsteady ⊢
      obtain ⟨hcttl, hclimit⟩ := hsteady.same (c, a) List.mem_cons_self
      obtain ⟨times, hcounts⟩ := ih ⟨fun x hx => hsteady.same x (List.mem_cons_of_mem _ hx),
        (List.pairwise_cons.mp hsteady.ascending).2⟩
      refine hcounts.call hkey hcttl hclimit (fixedComes_of_alone (by rwa [hcttl]) ?_ halone)
      rw [hkey]
      exact hcounts.holds
    · rw [callsFor, List.filter_cons, if_neg (by simpa using hkey)] at hsteady ⊢
      have hne : ∀ {f : String → String}, Function.Injective f → f key ≠ f c.key :=
        fun hf heq => hkey (hf heq).symm
      have hsameFixed := frame_of_alone halone (hne fixedKey_injective)
        (fixedKey_ne_blockKey key c.key)
      have hsameBlock := frame_of_alone halone (fixedKey_ne_blockKey c.key key).symm
        (hne blockKey_injective)
      obtain ⟨times, hcounts⟩ := ih hsteady
      refine ⟨times, hsameFixed.trans hcounts.holds, hcounts.hits, hcounts.early, ?_⟩
      rw [hsameBlock]
      exact hcounts.exceeded

/-- The early hits of an interval. -/
theorem countP_earlyTimes (s t : ℤ) (times : List ℤ) (hlimit : 0 ≤ limit) :
    (earlyTimes ttl limit times).countP (fun x => s ≤ x ∧ x ≤ t) =
      early limit.toNat s t (numbered ttl times) := by
  rw [earlyTimes, List.countP_map, List.countP_filter, early]
  refine List.countP_congr fun x _ => ?_
  simp only [Function.comp_apply, Bool.and_eq_true, decide_eq_true_eq]
  omega

/-- **At most `2 * limit - 1` calls** are allowed in an interval. -/
theorem FixedCounts.atMost (h : FixedCounts key ttl limit calls times s) (hlimit : 1 ≤ limit)
    (httl : 0 < ttl) (hasc : times.Pairwise fun x y => y ≤ x) (t : ℤ) :
    (calls.countP fun x => allowed x.2 && inInterval ttl t x.1 : ℤ) + 1 ≤ 2 * limit := by
  have hcount : (calls.countP fun x => allowed x.2 && inInterval ttl t x.1) =
      (allowedTimes calls).countP fun x => t - ttl ≤ x ∧ x ≤ t := by
    rw [allowedTimes, timesOf, List.countP_map, List.countP_filter]
    exact List.countP_congr fun x _ => by
      rw [Function.comp_apply, Bool.and_comm]
      rfl
  have hle := h.early.countP_le (p := fun x => decide (t - ttl ≤ x ∧ x ≤ t))
  rw [countP_earlyTimes _ _ _ (by omega)] at hle
  have hearly := @early_numbered_le ttl limit.toNat times (by omega) httl.le hasc t
  omega

/-- A call is only blocked once an interval has held more than `limit` calls. -/
theorem FixedCounts.over (h : FixedCounts key ttl limit calls times s) (httl : 0 < ttl)
    (hasc : times.Pairwise fun x y => y ≤ x) (hblocked : ∃ x ∈ calls, blocked x.2 = true) :
    ∃ t, limit < (calls.countP fun x => inInterval ttl t x.1 : ℤ) := by
  obtain ⟨⟨t, n⟩, hx, hmany⟩ := h.exceeded (.inr hblocked)
  obtain ⟨u, -, -, hn⟩ := exists_of_mem_numbered httl.le hasc hx
  have hle : between (u - ttl) u times ≤ (calls.countP fun x => inInterval ttl u x.1) := by
    refine h.hits.countP_le.trans (le_of_eq ?_)
    rw [timesOf, List.countP_map]
    rfl
  refine ⟨u, ?_⟩
  dsimp only at hmany
  omega

end Counts

/-- **The fixed window limits every key** to less than twice its limit, whatever is asked for other
keys and whichever commands fail. -/
theorem fixedWindow_limits {key : String} {ttl limit : ℤ} {w₀ w : Keyspace}
    {calls : List (Call × Result)} (hlimit : 1 ≤ limit) (httl : 0 < ttl)
    (hfixed : w₀ (fixedKey key) = none) (hblock : w₀ (blockKey key) = none)
    (hruns : Runs (system .fixed_window) w₀ calls w)
    (hsteady : Steady ttl limit (callsFor key calls)) :
    FixedLimits ttl limit (callsFor key calls) := by
  obtain ⟨times, hcounts⟩ := fixedCounts_of_runs httl hfixed hblock hruns hsteady
  have hasc : times.Pairwise fun x y => y ≤ x :=
    (List.pairwise_map.mpr hsteady.ascending).sublist hcounts.hits
  refine ⟨hcounts.atMost hlimit httl hasc, fun hfew x hx => ?_⟩
  by_contra hblocked
  obtain ⟨t, hmany⟩ := hcounts.over httl hasc ⟨x, hx, by simpa using hblocked⟩
  exact absurd hmany (not_lt.mpr (hfew t))

namespace Sample

/-- A call for `k` that may be made twice in ten milliseconds. -/
def twice (now : ℤ) : Call where
  key := "k"
  ttl := 10
  limit := 2
  blockDuration := 0
  now
  random := "0.5"

/-- Calls that are numbered up to the limit are all allowed. -/
theorem exists_runs_twice (times : List ℤ) (h : ∀ x ∈ numbered 10 times, x.2 ≤ 2) :
    ∃ calls w, Runs (system .fixed_window) (fun _ => none) calls w ∧
      calls.map (fun x => (x.1, allowed x.2)) = times.map (fun now => (twice now, true)) ∧
        Holds w (fixedKey "k") (after 10 times) ∧ w (blockKey "k") = none := by
  induction times with
  | nil => exact ⟨[], _, .nil, rfl, rfl, rfl⟩
  | cons now times ih =>
    obtain ⟨hnow, hrest⟩ := List.forall_mem_cons.mp h
    obtain ⟨calls, w, hruns, hcalls, hholds, hblock⟩ := ih hrest
    have hsmall : ∀ w, after 10 times = some w → (w.hits : ℤ) < 2 ^ 63 - 1 := by
      intro w hw
      cases times with
      | nil => cases hw
      | cons now' times =>
        obtain rfl := Option.some.inj hw
        have hle := hrest _ List.mem_cons_self
        dsimp only at hle
        omega
    have hpos : (0 : ℤ) < (twice now).ttl := (by decide : (0 : ℤ) < 10)
    have hfits : ((hit 10 now (after 10 times)).hits : ℤ) ≤ 2 := Int.ofNat_le.mpr hnow
    obtain ⟨r, hr, halone⟩ := @exists_alone_allowed (twice now) w _ hpos hholds hfits hsmall hblock
    refine ⟨_, _, .call 0 hruns halone, ?_, holds_update .., ?_⟩
    · rw [List.map_cons, List.map_cons, hcalls, allowed, hr]
      rfl
    · rw [Function.update_of_ne (fixedKey_ne_blockKey _ _).symm]
      exact hblock

end Sample

/-- Two calls at the end of a window and two at the start of the next one: three of the four fall
into ten milliseconds, and the bound is reached. -/
theorem fixedWindow_limits_burst : ∃ calls w,
    Runs (system .fixed_window) (fun _ => none) calls w ∧
      calls.map (fun x => (x.1, allowed x.2)) =
        [12, 11, 10, 0].map (fun now => (Sample.twice now, true)) ∧
        FixedLimits 10 2 (callsFor "k" calls) := by
  obtain ⟨calls, w, hruns, hcalls, -, -⟩ := Sample.exists_runs_twice [12, 11, 10, 0] (by decide)
  have hmade : calls.map Prod.fst = [12, 11, 10, 0].map Sample.twice := by
    have hfst := congrArg (List.map Prod.fst) hcalls
    rwa [List.map_map, List.map_map] at hfst
  have hsteady : Steady 10 2 (callsFor "k" calls) := by
    have hall : Steady 10 2 calls := by
      refine ⟨fun x hx => ?_, ?_⟩
      · have hmem : x.1 ∈ [12, 11, 10, 0].map Sample.twice := hmade ▸ List.mem_map_of_mem hx
        obtain ⟨now, -, heq⟩ := List.mem_map.mp hmem
        rw [← heq]
        exact ⟨rfl, rfl⟩
      · have hpairs : (calls.map Prod.fst).Pairwise fun c d => d.now ≤ c.now := by
          rw [hmade]
          decide
        exact List.pairwise_map.mp hpairs
    exact ⟨fun x hx => hall.same x (List.mem_filter.mp hx).1,
      hall.ascending.sublist List.filter_sublist⟩
  exact ⟨calls, w, hruns, hcalls,
    fixedWindow_limits (by decide) (by decide) rfl rfl hruns hsteady⟩

end Ahjoor.Throttler
