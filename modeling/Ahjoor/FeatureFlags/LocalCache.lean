import Ahjoor.Async.Embedding
import Ahjoor.Async.Executions
import Ahjoor.Async.Moments
import Ahjoor.FeatureFlags.FeatureFlagService
import Ahjoor.Store.Expiring

/-!
# Reading flags through the cache of an instance

Every instance keeps the flags that it has read for half a minute. Whoever changes a flag writes it
to Redis and drops the entry of its own instance; the other instances learn of the change when their
entries expire. A read that was under way during the change may still store the old flag after it.

So an answer is a flag that Redis has held not long ago (`recent_of_answered`), and a change reaches
every instance half a minute after the last read that was under way when it was made
(`current_of_answered`).
-/

namespace Ahjoor.FeatureFlags.Instances

open Async Store Users

/-! ### What a read finds -/

/-- What `flags[name]` can find that is not falsy: a stored flag, or a property that every object
inherits. -/
inductive Value
  | flag (flag : FeatureFlagConfig)
  | inherited
  deriving DecidableEq

/-- `flags[name] || null` -/
def find (name : String) (flags : Flags) : Option Value :=
  match flags.lookup name with
  | some flag => some (.flag flag)
  | none => if name ∈ FeatureFlags.inherited then some .inherited else none

theorem lookup_of_find {name : String} {flags : Flags} {flag : FeatureFlagConfig}
    (h : find name flags = some (.flag flag)) : flags.lookup name = some flag := by
  rw [find] at h
  split at h
  · next hlookup =>
    cases h
    exact hlookup
  · split at h <;> cases h

/-! ### Operations -/

/-- `CACHE_TTL_SECONDS * 1000` -/
def cacheTtl : ℤ := 30 * 1000

inductive Op
  | redis (o : FeatureFlags.Op)
  /-- `localCache.get(name)`, and the comparison with `Date.now()` -/
  | lookup (inst : ℕ) (name : String)
  /-- `cacheFlag(name, flag)` -/
  | cacheFlag (inst : ℕ) (name : String) (flag : Value)
  /-- `localCache.delete(name)` -/
  | forget (inst : ℕ) (name : String)
  /-- `localCache.clear()` -/
  | clear (inst : ℕ)
  deriving DecidableEq

/-- Replies. The cache operations that read the clock also reply with its time. -/
abbrev Op.Ret : Op → Type
  | redis o => o.Ret
  | lookup _ _ => Option Value × ℤ
  | cacheFlag _ _ _ => ℤ
  | forget _ _ | clear _ => Unit

/-- Redis, the caches of the instances, and the clock. -/
structure World where
  redis : FeatureFlags.World
  caches : ℕ → Cache String Value := fun _ _ => none
  clock : ℤ := 0

/-- The clock after a step: it does not go back. -/
def Choice.clock (now : ℤ) : Choice → Option ℤ
  | .now ms => if now ≤ ms then some ms else none
  | _ => some now

/-- What an operation does. -/
def exec : (o : Op) → ℕ → Choice → World → Option (o.Ret × World)
  | .redis o, pid, choice, w => do
      let clock ← Choice.clock w.clock choice
      let (r, redis) ← FeatureFlags.exec o pid choice w.redis
      some (r, { w with redis := redis, clock := clock })
  | .lookup inst name, _, .now ms, w =>
      if w.clock ≤ ms then some (((w.caches inst).serve name ms, ms), { w with clock := ms }) else none
  | .cacheFlag inst name flag, _, .now ms, w =>
      if w.clock ≤ ms then
        some (ms, { w with
          caches := Function.update w.caches inst ((w.caches inst).store name flag (ms + cacheTtl))
          clock := ms })
      else none
  | .forget inst name, _, .succeeds, w =>
      some ((), { w with caches := Function.update w.caches inst ((w.caches inst).forget name) })
  | .clear inst, _, .succeeds, w =>
      some ((), { w with caches := Function.update w.caches inst fun _ => none })
  | _, _, _, _ => none

/-! ### The service -/

abbrev Service (α : Type) := Routine Op.Ret Unit Exc α

/-- Await an operation. -/
def await (o : Op) : Service o.Ret := Routine.perform o

/-- A part that does not look at the cache. -/
def redis {α : Type} (m : FeatureFlags.Service α) : Service α := m.via Op.redis fun _ r => r

/-- `cacheFlag(name, flag)`, and the flag. -/
def cached (inst : ℕ) (name : String) (flag : Value) : Service (Option Value) := do
  let _ ← await (.cacheFlag inst name flag)
  pure (some flag)

/-- `getFlag(name)`. The environment variable `FEATURE_FLAGS` overrides Redis; `env` says what it
has under a name, if it is set and can be parsed. -/
def getFlag (env : String → Option Value) (inst : ℕ) (name : String) : Service (Option Value) := do
  let (hit, _) ← (await (.lookup inst name) : Service (Option Value × ℤ))
  match hit with
  | some flag => pure (some flag)
  | none =>
      match env name with
      | some flag => cached inst name flag
      | none => do
          let allFlags ← redis getAllFlags
          match find name allFlags with
          | some flag => cached inst name flag
          | none => pure none

/-- `setFlag(name, config)`. -/
def setFlag (inst : ℕ) (name : String) (config : PartialConfig) : Service FeatureFlagConfig := do
  let flag ← redis (FeatureFlags.setFlag name config)
  await (.forget inst name)
  pure flag

/-- `deleteFlag(name)`. -/
def deleteFlag (inst : ℕ) (name : String) : Service Unit := do
  redis (FeatureFlags.deleteFlag name)
  await (.forget inst name)

/-- `clearCache()`. -/
def clearCache (inst : ℕ) : Service Unit := await (.clear inst)

/-! ### The system -/

/-- The calls, each on an instance. -/
inductive Call
  | getFlag (inst : ℕ) (name : String)
  | setFlag (inst : ℕ) (name : String) (config : PartialConfig)
  | deleteFlag (inst : ℕ) (name : String)
  | clearCache (inst : ℕ)
  deriving DecidableEq

/-- What a call returns. -/
inductive Reply
  | found (flag : Option Value)
  | stored (flag : FeatureFlagConfig)
  | done
  deriving DecidableEq

/-- The body of a call. -/
def request (env : String → Option Value) : Call → Service Reply
  | .getFlag inst name => do
      let flag ← getFlag env inst name
      pure (.found flag)
  | .setFlag inst name config => do
      let flag ← setFlag inst name config
      pure (.stored flag)
  | .deleteFlag inst name => do
      deleteFlag inst name
      pure .done
  | .clearCache inst => do
      clearCache inst
      pure .done

/-- Calls on any number of instances. -/
def system (env : String → Option Value) : System Op.Ret Choice World Call (Except Exc Reply) where
  exec := exec
  body c := (request env c ()).bind fun x => .ret x.1

/-- The history of a run. -/
abbrev History := Hist Op.Ret World Call (Except Exc Reply)

/-- The state of a run. -/
abbrev RunState := State Op.Ret World Call (Except Exc Reply)

/-! ### What holds of an answer -/

/-- What a read of Redis finds under a name. -/
def World.found (w : World) (name : String) : Option Value := find name (w.redis.flags.getD ∅)

/-- The flag that Redis holds under a name. -/
def World.flag (w : World) (name : String) : Option FeatureFlagConfig :=
  (w.redis.flags.getD ∅).lookup name

/-- During the call there was a moment at which Redis held the flag. -/
def Held (h : History) (pid : ℕ) (name : String) (flag : FeatureFlagConfig) : Prop :=
  ∃ w, Moment h pid w ∧ w.flag name = some flag

/-- **The flag is recent**: it is set by the environment variable, Redis has held it during the
call, or during another call of the same instance that had stored it in the cache when this call
looked there, less than half a minute later. -/
def Recent (env : String → Option Value) (h : History) (pid inst : ℕ) (name : String)
    (flag : FeatureFlagConfig) : Prop :=
  env name = some (.flag flag) ∨ Held h pid name flag ∨
    ∃ p looked stored,
      ⟨.lookup inst name, (some (.flag flag), looked)⟩ ∈ log pid h.trace ∧
      ⟨.cacheFlag inst name (.flag flag), stored⟩ ∈ log p h.trace ∧ stored ≤ looked ∧
      looked < stored + cacheTtl ∧ Held h p name flag

/-! ### What a call reads and stores -/

section Disciplines

variable {env : String → Option Value}

/-- Where a flag comes from that is not found in the cache. -/
def Source (env : String → Option Value) (name : String) (flag : Value) (L : Log Op.Ret) : Prop :=
  env name = some flag ∨
    ∃ r : Option Flags, ⟨.redis .get, r⟩ ∈ L ∧ find name (r.getD ∅) = some flag

/-- A call caches what it has a source for. -/
def Sourced (env : String → Option Value) (L : Log Op.Ret) : Op → Prop
  | .cacheFlag _ name flag => Source env name flag L
  | _ => True

/-- What `getFlag` answers: what it has found in the cache; if there was nothing, what the
environment or Redis has. -/
def Answers (env : String → Option Value) (inst : ℕ) (name : String) (answer : Option Value)
    (L : Log Op.Ret) : Prop :=
  (∃ flag looked, ⟨.lookup inst name, (some flag, looked)⟩ ∈ L ∧ answer = some flag) ∨
    (∃ flag, env name = some flag ∧ answer = some flag) ∨
    ∃ r : Option Flags, ⟨.redis .get, r⟩ ∈ L ∧ answer = find name (r.getD ∅)

/-- What holds when a call returns. -/
def Returned (env : String → Option Value) : Call → Except Exc Reply → Log Op.Ret → Prop
  | .getFlag inst name, a, L => ∃ answer, a = .ok (.found answer) ∧ Answers env inst name answer L
  | _, _, _ => True

theorem obeys_cached {inst : ℕ} {name : String} {flag : Value} {L : Log Op.Ret}
    (h : Source env name flag L) {Q : Option Value → Unit → Log Op.Ret → Prop}
    {X : Exc → Unit → Log Op.Ret → Prop}
    (hQ : ∀ r : ℤ, Q (some flag) () (⟨.cacheFlag inst name flag, r⟩ :: L)) :
    Obeys (Sourced env) (cached inst name flag) Q X () L :=
  .bind (.perform h fun r => .pure (hQ r))

theorem obeys_getAllFlags {L : Log Op.Ret} {Q : Flags → Unit → Log Op.Ret → Prop}
    {X : Exc → Unit → Log Op.Ret → Prop}
    (hQ : ∀ r : Option Flags, Q (r.getD ∅) () (⟨.redis .get, r⟩ :: L)) :
    Obeys (Sourced env) (redis getAllFlags) Q X () L :=
  ⟨⟨trivial, hQ⟩⟩

/-- A part that does not look at the cache stores nothing there. -/
theorem follows_via {α : Type} (p : Prog FeatureFlags.Op.Ret α) (L : Log Op.Ret) :
    Follows (Sourced env) (fun _ _ => True) (p.via Op.redis fun _ r => r) L := by
  induction p generalizing L with
  | ret a => trivial
  | op o k ih => exact ⟨trivial, fun r => ih r _⟩

theorem obeys_redis {α : Type} (m : FeatureFlags.Service α) (L : Log Op.Ret) :
    Obeys (Sourced env) (redis m) (fun _ _ _ => True) (fun _ _ _ => True) () L := by
  refine ⟨(follows_via (m ()) L).mono fun x _ _ => ?_⟩
  obtain ⟨e | a, t⟩ := x <;> trivial

theorem obeys_getFlag (inst : ℕ) (name : String) :
    Obeys (Sourced env) (getFlag env inst name) (fun answer _ => Answers env inst name answer)
      (fun _ _ _ => False) () [] := by
  refine .bind (.perform trivial fun r => ?_)
  obtain ⟨hit, looked⟩ := r
  cases hit with
  | some flag => exact .pure (.inl ⟨flag, looked, List.mem_cons_self, rfl⟩)
  | none =>
    dsimp only
    split
    · next flag henv => exact obeys_cached (.inl henv) fun _ => .inr (.inl ⟨flag, henv, rfl⟩)
    · refine .bind (obeys_getAllFlags fun r => ?_)
      split
      · next flag hfind =>
        refine obeys_cached (.inr ⟨r, List.mem_cons_self, hfind⟩) fun _ => ?_
        exact .inr (.inr ⟨r, List.mem_cons_of_mem _ List.mem_cons_self, hfind.symm⟩)
      · next hnone => exact .pure (.inr (.inr ⟨r, List.mem_cons_self, hnone.symm⟩))

theorem follows_body (c : Call) :
    Follows (Sourced env) (Returned env c) ((system env).body c) [] := by
  cases c with
  | getFlag inst name =>
    have h := Obeys.bind (f := fun flag => (pure (.found flag) : Service Reply))
      (Q := fun reply _ L => ∃ answer, reply = .found answer ∧ Answers env inst name answer L)
      ((@obeys_getFlag env inst name).mono
        (fun answer _ _ h => Obeys.pure ⟨answer, rfl, h⟩) fun _ _ _ h => h)
    refine h.follows.bind fun x L hx => ?_
    obtain ⟨e | reply, t⟩ := x
    · exact hx.elim
    · obtain ⟨answer, rfl, hanswer⟩ := hx
      exact ⟨answer, rfl, hanswer⟩
  | setFlag inst name config =>
    suffices h : Obeys (Sourced env) (request env (.setFlag inst name config)) Anyhow Anyhow () [] from
      h.follows.bind fun _ _ _ => trivial
    refine .bind (.bind ((obeys_redis _ _).mono (fun _ _ _ _ => ?_) fun _ _ _ _ => trivial))
    exact .bind (.perform trivial fun _ => .pure (.pure trivial))
  | deleteFlag inst name =>
    suffices h : Obeys (Sourced env) (request env (.deleteFlag inst name)) Anyhow Anyhow () [] from
      h.follows.bind fun _ _ _ => trivial
    refine .bind (.bind ((obeys_redis _ _).mono (fun _ _ _ _ => ?_) fun _ _ _ _ => trivial))
    exact .perform trivial fun _ => .pure trivial
  | clearCache inst =>
    suffices h : Obeys (Sourced env) (request env (.clearCache inst)) Anyhow Anyhow () [] from
      h.follows.bind fun _ _ _ => trivial
    exact .bind (.perform trivial fun _ => .pure trivial)

end Disciplines

/-! ### What a run keeps -/

/-- The flag was stored in the cache of the instance, to be served until this moment. -/
def StoredBy (h : History) (inst : ℕ) (name : String) (flag : Value) (expiresAt : ℤ) : Prop :=
  ∃ p stored, ⟨.cacheFlag inst name flag, stored⟩ ∈ log p h.trace ∧ stored ≤ h.world.clock ∧
    expiresAt = stored + cacheTtl

/-- Every entry of every cache was stored by a call. -/
def Filled (h : History) : Prop := ∀ inst, (h.world.caches inst).Backed (StoredBy h inst)

/-- Every flag found in a cache was stored there before, by less than half a minute. -/
def Fresh (h : History) : Prop :=
  ∀ pid inst name flag looked, ⟨.lookup inst name, (some flag, looked)⟩ ∈ log pid h.trace →
    ∃ p stored, ⟨.cacheFlag inst name flag, stored⟩ ∈ log p h.trace ∧ stored ≤ looked ∧
      looked < stored + cacheTtl

section Steps

variable {env : String → Option Value} {h h' : History}

theorem exec_redis {o : FeatureFlags.Op} {pid : ℕ} {choice : Choice} {w w' : World} {r : o.Ret}
    (hexec : exec (.redis o) pid choice w = some (r, w')) :
    FeatureFlags.exec o pid choice w.redis = some (r, w'.redis) ∧ w'.caches = w.caches := by
  obtain ⟨clock, -, hrest⟩ := Option.bind_eq_some_iff.mp hexec
  obtain ⟨⟨r', redis⟩, hredis, heq⟩ := Option.bind_eq_some_iff.mp hrest
  cases heq
  exact ⟨hredis, rfl⟩

theorem exec_lookup {inst : ℕ} {name : String} {pid : ℕ} {choice : Choice} {w w' : World}
    {hit : Option Value} {looked : ℤ}
    (hexec : exec (.lookup inst name) pid choice w = some ((hit, looked), w')) :
    (w.caches inst).serve name looked = hit ∧ w.clock ≤ looked := by
  cases choice with
  | now ms =>
    simp only [exec] at hexec
    split at hexec
    next hle =>
      obtain ⟨⟨rfl, rfl⟩, -⟩ : (_ ∧ _) ∧ _ := by simpa using hexec
      exact ⟨rfl, hle⟩
    next => cases hexec
  | _ => cases hexec

theorem exec_cacheFlag {inst : ℕ} {name : String} {flag : Value} {pid : ℕ} {choice : Choice}
    {w w' : World} {stored : ℤ}
    (hexec : exec (.cacheFlag inst name flag) pid choice w = some (stored, w')) :
    w'.clock = stored := by
  cases choice <;> simp only [exec, reduceCtorEq] at hexec
  split at hexec <;> cases hexec
  rfl

/-- The clock does not go back. -/
theorem clock_le_of_exec {o : Op} {pid : ℕ} {choice : Choice} {w w' : World} {r : o.Ret}
    (hexec : exec o pid choice w = some (r, w')) : w.clock ≤ w'.clock := by
  cases o with
  | redis o =>
    obtain ⟨clock, hclock, hrest⟩ := Option.bind_eq_some_iff.mp hexec
    obtain ⟨⟨r', redis⟩, -, heq⟩ := Option.bind_eq_some_iff.mp hrest
    cases heq
    cases choice <;> simp only [Choice.clock, Option.ite_none_right_eq_some, Option.some.injEq] at hclock
    case now ms => exact hclock.2 ▸ hclock.1
    all_goals exact hclock.le
  | lookup inst name =>
    cases choice <;> simp only [exec, reduceCtorEq] at hexec
    split at hexec
    next hle => cases hexec; exact hle
    next => cases hexec
  | cacheFlag inst name flag =>
    cases choice <;> simp only [exec, reduceCtorEq] at hexec
    split at hexec
    next hle => cases hexec; exact hle
    next => cases hexec
  | forget inst name => cases choice <;> cases hexec; exact le_rfl
  | clear inst => cases choice <;> cases hexec; exact le_rfl

/-- What backs the entries is kept by every operation, if it backs what the operation stores. -/
theorem backed_exec {P : ℕ → String → Value → ℤ → Prop} {o : Op} {pid : ℕ} {choice : Choice}
    {w w' : World} {r : o.Ret} (hexec : exec o pid choice w = some (r, w'))
    (hw : ∀ inst, (w.caches inst).Backed (P inst))
    (hP : ∀ inst name flag (ms : ℤ), (⟨o, r⟩ : Entry Op.Ret) = ⟨.cacheFlag inst name flag, ms⟩ →
      P inst name flag (ms + cacheTtl)) :
    ∀ inst, (w'.caches inst).Backed (P inst) := by
  have updated : ∀ {inst} {c : Cache String Value}, c.Backed (P inst) →
      ∀ i, (Function.update w.caches inst c i).Backed (P i) := by
    intro inst c hc i
    rcases eq_or_ne i inst with rfl | hne
    · rwa [Function.update_self]
    · rw [Function.update_of_ne hne]
      exact hw i
  cases o with
  | redis o =>
    rw [(exec_redis hexec).2]
    exact hw
  | lookup inst name =>
    cases choice <;> simp only [exec, reduceCtorEq] at hexec
    split at hexec <;> cases hexec
    exact hw
  | cacheFlag inst name flag =>
    cases choice <;> simp only [exec, reduceCtorEq] at hexec
    split at hexec <;> cases hexec
    exact updated ((hw inst).store (hP inst name flag _ rfl))
  | forget inst name =>
    cases choice <;> cases hexec
    exact updated (hw inst).forget
  | clear inst =>
    cases choice <;> cases hexec
    exact updated Cache.backed_empty

theorem StoredBy.step (hs : HistStep (system env) (fun _ => Sourced env) h h') {inst : ℕ}
    {name : String} {flag : Value} {expiresAt : ℤ} (hb : StoredBy h inst name flag expiresAt) :
    StoredBy h' inst name flag expiresAt := by
  obtain ⟨p, stored, hmem, hle, heq⟩ := hb
  refine ⟨p, stored, (hs.log_suffix p).subset hmem, ?_, heq⟩
  cases hs with
  | idle e he hlive => exact hle
  | did pid c o choice r w hstart hD hexec hlive => exact hle.trans (clock_le_of_exec hexec)

theorem Filled.step (hf : Filled h) (hs : HistStep (system env) (fun _ => Sourced env) h h') :
    Filled h' := by
  have hold : ∀ inst, (h.world.caches inst).Backed (StoredBy h' inst) := fun inst =>
    (hf inst).mono fun _ _ _ => StoredBy.step hs
  cases hs with
  | idle e he hlive => exact hold
  | did pid c o choice r w hstart hD hexec hlive =>
    refine backed_exec hexec hold fun inst name flag ms heq => ?_
    cases heq
    refine ⟨pid, ms, ?_, (exec_cacheFlag hexec).ge, rfl⟩
    rw [Hist.push_trace, log_did_self]
    exact List.mem_cons_self

theorem Fresh.step (hfresh : Fresh h) (hf : Filled h)
    (hs : HistStep (system env) (fun _ => Sourced env) h h') : Fresh h' := by
  intro pid inst name flag looked hmem
  rcases hs.mem_log hmem with hold | ⟨choice, hexec⟩
  · obtain ⟨p, stored, hp, hlt⟩ := hfresh pid inst name flag looked hold
    exact ⟨p, stored, (hs.log_suffix p).subset hp, hlt⟩
  · obtain ⟨hserve, hclock⟩ := exec_lookup hexec
    obtain ⟨expiresAt, hlt, p, stored, hp, hle, rfl⟩ := (hf inst).serve hserve
    exact ⟨p, stored, (hs.log_suffix p).subset hp, hle.trans hclock, hlt⟩

/-- What Redis answers to a read: what it holds, or nothing. -/
theorem exec_get {pid : ℕ} {choice : Choice} {w w' : World} {r : Option Flags}
    (hexec : exec (.redis .get) pid choice w = some (r, w')) : r = w.redis.flags ∨ r = none := by
  have hredis := (exec_redis hexec).1
  cases choice <;> simp only [FeatureFlags.exec, Option.some.injEq, Prod.mk.injEq, reduceCtorEq] at hredis
  case succeeds => exact .inl hredis.1.symm
  case fails | answerLost => exact .inr hredis.1.symm

/-- A flag that a call has read is one that Redis held during the call. -/
theorem held_of_get (hp : Performed (system env) h) {pid : ℕ} {name : String}
    {flag : FeatureFlagConfig} {r : Option Flags} (hmem : ⟨.redis .get, r⟩ ∈ log pid h.trace)
    (hfind : find name (r.getD ∅) = some (.flag flag)) : Held h pid name flag := by
  obtain ⟨before, hdid⟩ := mem_log.mp hmem
  obtain ⟨choice, after, hexec⟩ := hp.exec hdid
  have hlookup := lookup_of_find hfind
  refine ⟨before, hp.moment hdid, ?_⟩
  rcases exec_get hexec with rfl | rfl
  · exact hlookup
  · cases hlookup

end Steps

variable {env : String → Option Value}

/-- What every run keeps. -/
theorem kept_of_reachable {w : World} (hw : ∀ inst name, w.caches inst name = none) {s : RunState}
    (hr : (system env).Reachable (.init w) s) :
    Disciplined (fun _ => Sourced env) (Returned env) s.hist ∧ Fresh s.hist := by
  have hfilled : Filled ⟨w, []⟩ := fun inst name e he => by rw [hw] at he; cases he
  refine ⟨disciplined_of_reachable follows_body hr, ?_⟩
  exact (hist_invariant follows_body (I := fun h => Filled h ∧ Fresh h)
    ⟨hfilled, fun _ _ _ _ _ hmem => absurd hmem List.not_mem_nil⟩
    (fun _ _ _ _ hI hs _ => ⟨hI.1.step hs, hI.2.step hI.1 hs⟩) hr).2

/-- What a call caches has a source in its log. -/
theorem source_of_cached {h : History}
    (hd : Disciplined (fun _ => Sourced env) (Returned env) h) {p inst : ℕ} {name : String}
    {flag : Value} {stored : ℤ} (hmem : ⟨.cacheFlag inst name flag, stored⟩ ∈ log p h.trace) :
    Source env name flag (log p h.trace) := by
  obtain ⟨L, hL, hsource⟩ := (hd.lawful_log p).allowed hmem
  rcases hsource with henv | ⟨r, hr, hfind⟩
  · exact .inl henv
  · exact .inr ⟨r, hL.subset (List.mem_cons_of_mem _ hr), hfind⟩

/-! ### Answers are recent -/

/-- **An answer is recent**, in every run: what `getFlag` answers is a flag that Redis has held
during the call, or during a call of the same instance that stored it less than half a minute
before, unless the environment variable sets it. -/
theorem recent_of_answered (env : String → Option Value) {w : World}
    (hw : ∀ inst name, w.caches inst name = none) {s : RunState}
    (hr : (system env).Reachable (.init w) s) {pid inst : ℕ} {name : String}
    (hstart : Event.start pid (.getFlag inst name) ∈ s.hist.trace) {flag : FeatureFlagConfig}
    (hret : Event.returned pid (.ok (.found (some (.flag flag)))) ∈ s.hist.trace) :
    Recent env s.hist pid inst name flag := by
  obtain ⟨hd, hfresh⟩ := kept_of_reachable hw hr
  have hperformed := performed_of_reachable hr
  obtain ⟨answer, heq, hanswers⟩ := hd.returned pid _ _ hstart hret
  cases heq
  rcases hanswers with ⟨flag', looked, hlookup, heq⟩ | ⟨flag', henv, heq⟩ | ⟨r, hget, hfind⟩
  · cases heq
    obtain ⟨p, stored, hstored, hle, hlt⟩ := hfresh pid inst name _ looked hlookup
    rcases source_of_cached hd hstored with henv | ⟨r, hget, hfind⟩
    · exact .inl henv
    · exact .inr (.inr ⟨p, looked, stored, hlookup, hstored, hle, hlt,
        held_of_get hperformed hget hfind⟩)
  · cases heq
    exact .inl henv
  · exact .inr (.inl (held_of_get hperformed hget hfind.symm))

/-! ### Changes arrive -/

/-- From a state on in which Redis holds a flag, and as long as it does, later calls read nothing
else: that flag, or nothing. -/
theorem reads_current {name : String} {s₁ s : RunState} (hl : System.Lifecycle s₁)
    (hr : (system env).ReachableWhen (fun h h' => h'.world.found name = h.world.found name) s₁ s) :
    s.hist.world.found name = s₁.hist.world.found name ∧
      ∀ p, s₁.started ≤ p → ∀ r : Option Flags, ⟨.redis .get, r⟩ ∈ log p s.hist.trace →
        find name (r.getD ∅) = s₁.hist.world.found name ∨ r = none := by
  induction hr with
  | refl =>
    refine ⟨rfl, fun p hp r hmem => ?_⟩
    rw [log_eq_nil fun e he => Nat.ne_of_lt ((hl.lt_started e he).trans_le hp)] at hmem
    cases hmem
  | @tail s s' hrun hstep ih =>
    obtain ⟨⟨m, hm⟩, hok⟩ := hstep
    refine ⟨hok.trans ih.1, fun p hp r hmem => ?_⟩
    cases System.stepKind_of_move hm with
    | run pid o k choice r' w htask hexec =>
      rcases mem_log_did hmem with hold | ⟨rfl, heq⟩
      · exact ih.2 p hp r hold
      · cases heq
        rcases exec_get hexec with rfl | rfl
        · exact .inl ih.1
        · exact .inr rfl
    | _ => exact ih.2 p hp r hmem

/-- **A change arrives within half a minute.** Let Redis hold a flag, or none, from some state on.
Then every later `getFlag` that looks into the cache of its instance half a minute or more after the
last store of a call that was under way answers with it, or as if Redis were empty. -/
theorem current_of_answered (env : String → Option Value) {name : String} (henv : env name = none)
    {w : World} (hw : ∀ inst name, w.caches inst name = none) {s₁ s : RunState}
    (hr₁ : (system env).Reachable (.init w) s₁)
    (hr : (system env).ReachableWhen (fun h h' => h'.world.found name = h.world.found name) s₁ s)
    {last : ℤ} (hlast : ∀ p inst flag stored, ⟨.cacheFlag inst name flag, stored⟩ ∈
      log p s.hist.trace → p < s₁.started → stored ≤ last)
    {pid inst : ℕ} (hlater : s₁.started ≤ pid)
    (hstart : Event.start pid (.getFlag inst name) ∈ s.hist.trace)
    (hlooked : ∀ hit looked, ⟨.lookup inst name, (hit, looked)⟩ ∈ log pid s.hist.trace →
      last + cacheTtl ≤ looked)
    {answer : Option Value} (hret : Event.returned pid (.ok (.found answer)) ∈ s.hist.trace) :
    answer = s₁.hist.world.found name ∨ answer = find name ∅ := by
  have hr' : (system env).Reachable (.init w) s := hr₁.trans (hr.mono fun _ _ _ => trivial)
  obtain ⟨hd, hfresh⟩ := kept_of_reachable hw hr'
  have hl : System.Lifecycle s₁ := (hr₁.rule (J := fun _ => True) trivial fun _ _ _ _ _ _ _ => trivial).1
  have hreads := (reads_current hl hr).2
  have hread : ∀ p, s₁.started ≤ p → ∀ r : Option Flags, ⟨.redis .get, r⟩ ∈ log p s.hist.trace →
      find name (r.getD ∅) = s₁.hist.world.found name ∨ find name (r.getD ∅) = find name ∅ := by
    intro p hp r hmem
    rcases hreads p hp r hmem with hcurrent | rfl
    · exact .inl hcurrent
    · exact .inr rfl
  obtain ⟨answer', heq, hanswers⟩ := hd.returned pid _ _ hstart hret
  cases heq
  rcases hanswers with ⟨flag, looked, hlookup, rfl⟩ | ⟨flag, henv', -⟩ | ⟨r, hget, rfl⟩
  · obtain ⟨p, stored, hstored, -, hlt⟩ := hfresh pid inst name _ looked hlookup
    have hp : s₁.started ≤ p := by
      by_contra hp
      have := hlast p inst flag stored hstored (not_le.mp hp)
      have := hlooked _ looked hlookup
      omega
    rcases source_of_cached hd hstored with henv' | ⟨r, hget, hfind⟩
    · rw [henv] at henv'
      cases henv'
    · rw [← hfind]
      exact hread p hp r hget
  · rw [henv] at henv'
    cases henv'
  · exact hread pid hlater r hget

/-! ### A flag is switched off -/

namespace Sample

/-- Nothing is set by the environment. -/
def noEnv : String → Option Value := fun _ => none

/-- A flag that is on for everyone. -/
def on : FeatureFlagConfig := flagOf "a" { strategy := some .ENABLED_FOR_ALL } none 0

/-- Redis holds the flag, and nothing is cached. -/
def world : World where
  redis := ⟨some (put "a" on ∅)⟩

/-- The second instance reads the flag, and the first deletes it five seconds later. -/
def deleted : List (Move Choice Call) :=
  [.start (.getFlag 1 "a"), .run 0 (.now 0), .run 0 .succeeds, .run 0 (.now 0), .finish 0,
    .start (.deleteFlag 0 "a"), .run 1 .succeeds, .run 1 .succeeds, .run 1 .succeeds, .finish 1]

/-- The second instance reads the flag again, at some moment. -/
def readAt (ms : ℤ) : List (Move Choice Call) :=
  [.start (.getFlag 1 "a"), .run 2 (.now ms), .run 2 .succeeds, .finish 2]

/-- The event is no store of an earlier call after the first second, and no look into the cache by
call 2 in the first half a minute. -/
def inTime : Event Op.Ret World Call (Except Exc Reply) → Bool
  | .did pid (.cacheFlag _ _ _) stored _ => 2 ≤ pid || decide (stored ≤ 0)
  | .did pid (.lookup _ _) (_, looked) _ => pid != 2 || decide (cacheTtl ≤ looked)
  | _ => true

end Sample

/-- Ten seconds after it was read, a deleted flag is still answered. -/
theorem recent_of_answered_stale : ∃ s : RunState,
    (system Sample.noEnv).Reachable (.init Sample.world) s ∧ s.hist.world.flag "a" = none ∧
    Recent Sample.noEnv s.hist 2 1 "a" Sample.on := by
  obtain ⟨s, hr, hs⟩ := System.exists_of_replay (system Sample.noEnv) (fun _ _ => True)
    (.init Sample.world)
    (Sample.deleted ++ [.start (.getFlag 1 "a"), .run 2 (.now 10000), .finish 2])
    (fun s => s.hist.trace.any (Event.isStart 2 (.getFlag 1 "a")) &&
      s.hist.trace.any (Event.isReturned 2 (.ok (.found (some (.flag Sample.on))))) &&
      decide (s.hist.world.flag "a" = none)) (by decide +kernel)
  simp only [Bool.and_eq_true, decide_eq_true_eq] at hs
  obtain ⟨⟨hasks, hanswers⟩, hnone⟩ := hs
  exact ⟨s, hr, hnone, recent_of_answered Sample.noEnv (fun _ _ => rfl) hr
    (mem_of_isStart hasks) (mem_of_isReturned hanswers)⟩

/-- Half a minute after it was read, it is gone. -/
theorem current_of_answered_deleted : ∃ (s₁ s : RunState) (answer : Option Value),
    (system Sample.noEnv).Reachable (.init Sample.world) s ∧ s₁.hist.world.found "a" = none ∧
    Event.returned 2 (.ok (.found answer)) ∈ s.hist.trace ∧
    (answer = s₁.hist.world.found "a" ∨ answer = find "a" ∅) := by
  obtain ⟨s₁, hs₁, hrest⟩ := System.exists_of_any (x := (system Sample.noEnv).replay
    (fun _ _ => True) (.init Sample.world) Sample.deleted) (p := fun s₁ => s₁.started == 2 &&
      decide (s₁.hist.world.found "a" = none) &&
      ((system Sample.noEnv).replay (fun h h' => h'.world.found "a" = h.world.found "a") s₁
        (Sample.readAt 30000)).any fun s => s.hist.trace.any (Event.isStart 2 (.getFlag 1 "a")) &&
          s.hist.trace.any (Event.isReturned 2 (.ok (.found none))) &&
          s.hist.trace.all Sample.inTime)
    (by decide +kernel)
  simp only [Bool.and_eq_true, beq_iff_eq, decide_eq_true_eq] at hrest
  obtain ⟨⟨hstarted, hgone⟩, hrest⟩ := hrest
  obtain ⟨s, hs, htests⟩ := System.exists_of_any hrest
  simp only [Bool.and_eq_true] at htests
  obtain ⟨⟨hasks, hanswers⟩, htime⟩ := htests
  have hr₁ := System.reachableWhen_of_replay hs₁
  have hr := System.reachableWhen_of_replay hs
  have hin : ∀ {p o r w}, .did p o r w ∈ s.hist.trace → Sample.inTime (.did p o r w) = true :=
    fun hdid => List.all_eq_true.mp htime _ hdid
  have hmem := mem_of_isReturned hanswers
  refine ⟨s₁, s, none, hr₁.trans (hr.mono fun _ _ _ => trivial), hgone, hmem, ?_⟩
  refine @current_of_answered Sample.noEnv "a" rfl Sample.world (fun _ _ => rfl) s₁ s hr₁ hr 0 ?_
    2 1 hstarted.le (mem_of_isStart hasks) ?_ none hmem
  · intro p inst flag stored hstored hp
    obtain ⟨w, hdid⟩ := mem_log.mp hstored
    have := hin hdid
    rw [hstarted] at hp
    simpa [Sample.inTime, Nat.not_le.mpr hp] using this
  · intro hit looked hlookup
    obtain ⟨w, hdid⟩ := mem_log.mp hlookup
    simpa [Sample.inTime] using hin hdid

end Ahjoor.FeatureFlags.Instances
