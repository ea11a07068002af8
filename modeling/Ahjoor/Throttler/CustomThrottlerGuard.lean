import Ahjoor.Async.Solo
import Ahjoor.Throttler.FixedWindow

/-!
# `CustomThrottlerGuard.handleRequest`

A request is counted in the bucket of its tracker (the user or the address) and, where it carries an
API key, in a bucket of that key too; it is let through when neither is over its limit. So every
bucket is limited, whatever the requests do to the other ones: no API key gets a second allowance
from a second address, and no address from a second key.

The storage counts as in `RedisThrottlerStorageService`; a request takes place at one instant.
-/

namespace Ahjoor.Throttler

open Async Redis Store

/-! ### The guard -/

/-- The headers that have been set on the response, in this order. -/
abbrev Headers := List (String × String)

/-- A user agent to ignore, as its `test` method. -/
abbrev Pattern := String → Bool

/-- `ThrottlerOptions`, as far as `handleRequest` reads them. -/
structure ThrottlerOptions where
  name : String
  ignoreUserAgents : Option (List Pattern) := none
  setHeaders : Option Bool := none

/-- What `handleRequest` gets: its `requestProps`, with the tracker that `getTracker` gives, and what
it reads of the request. The handler stands for the execution context. -/
structure RequestProps where
  handler : String
  limit : ℤ
  ttl : ℤ
  throttler : ThrottlerOptions
  blockDuration : ℤ
  tracker : String
  userAgent : Option String := none
  /-- the header `x-api-key` -/
  apiKeyHeader : Option String := none
  now : ℤ
  /-- what `Math.random()` gives for the tracker's bucket and for the key's bucket -/
  randoms : String × String

/-- `getApiKeyThrottleLimits()` -/
structure ApiKeyThrottleLimits where
  limit : ℤ
  ttl : ℤ

/-- The guard: its storage's algorithm and the options, with the functions of the libraries that it
calls. -/
structure Guard where
  algorithm : Algorithm
  /-- `commonOptions.ignoreUserAgents` -/
  ignoreUserAgents : List Pattern
  apiKeyThrottleLimits : ApiKeyThrottleLimits
  errorMessage : String
  /-- `generateKey(context, tracker, name)` -/
  generateKey : String → String → String → String
  /-- `createHash('sha256').update(text).digest('hex')` -/
  sha256Hex : String → String

/-- The body of a method of the guard. -/
abbrev Guarded (α : Type) := Routine Op.Ret Headers Exc α

/-- `res.header(name, value)` -/
def header (name value : String) : Guarded Unit := modify fun headers => headers ++ [(name, value)]

/-- `getThrottlerSuffix(name)` -/
def getThrottlerSuffix (name : String) : String := if name = "default" then "" else s!"-{name}"

/-- Whether the user agent is ignored; without the header the patterns see `undefined`. -/
def Guard.ignores (g : Guard) (p : RequestProps) : Bool :=
  (p.throttler.ignoreUserAgents.getD g.ignoreUserAgents).any fun pattern =>
    pattern (p.userAgent.getD "undefined")

/-- The increment of the tracker's bucket. -/
def Guard.primary (g : Guard) (p : RequestProps) : Call where
  key := g.generateKey p.handler p.tracker p.throttler.name
  ttl := p.ttl
  limit := p.limit
  blockDuration := p.blockDuration
  now := p.now
  random := p.randoms.1

/-- The tracker of an API key. -/
def Guard.apiTracker (g : Guard) (apiKeyHeader : String) : String :=
  s!"apikey:{String.ofList ((g.sha256Hex apiKeyHeader).toList.take 32)}"

/-- The increment of the key's bucket. -/
def Guard.apiKey (g : Guard) (p : RequestProps) (apiKeyHeader : String) : Call where
  key := g.generateKey p.handler (g.apiTracker apiKeyHeader) s!"{p.throttler.name}:apikey"
  ttl := g.apiKeyThrottleLimits.ttl
  limit := g.apiKeyThrottleLimits.limit
  blockDuration := p.blockDuration
  now := p.now
  random := p.randoms.2

/-- `storageService.increment` -/
def Guard.increment (g : Guard) (c : Call) : Guarded ThrottlerStorageRecord := do
  let (record, _) ← Routine.scope ()
    (Throttler.increment g.algorithm c.key c.ttl c.limit c.blockDuration c.now c.random)
  pure record

/-- The API key that is counted: the header, where it is not empty, for the default throttler. -/
def RequestProps.countedKey (p : RequestProps) : Option String :=
  p.apiKeyHeader.filter fun header => header ≠ "" ∧ p.throttler.name = "default"

/-- `a || b` on numbers -/
def orElse (a b : ℤ) : ℤ := if a = 0 then b else a

/-- `throwThrottlingException(context, detail)` -/
def Guard.throwThrottlingException {α : Type} (g : Guard) (timeToExpire timeToBlockExpire : ℤ) :
    Guarded α := do
  header "Retry-After" (toString (orElse (orElse timeToExpire timeToBlockExpire) 1))
  throw (.http 429 g.errorMessage)

/-- The part of `handleRequest` after the buckets have been counted. -/
def Guard.respond (g : Guard) (p : RequestProps) (primary : ThrottlerStorageRecord)
    (apiKeyRecord : Option ThrottlerStorageRecord) : Guarded Bool := do
  let apiKeyBlocked := apiKeyRecord.any fun record => record.isBlocked
  let setHeaders := p.throttler.setHeaders.getD true
  let suffix := getThrottlerSuffix p.throttler.name
  if primary.isBlocked || apiKeyBlocked then
    let retryAfter := if apiKeyBlocked && !primary.isBlocked
      then (apiKeyRecord.map fun record => record.timeToBlockExpire).getD primary.timeToBlockExpire
      else primary.timeToBlockExpire
    if setHeaders then header s!"Retry-After{suffix}" (toString retryAfter)
    g.throwThrottlingException primary.timeToExpire retryAfter
  if setHeaders then
    let primaryRemaining := max 0 (p.limit - primary.totalHits)
    let apiRemaining := match apiKeyRecord with
      | some record => max 0 (g.apiKeyThrottleLimits.limit - record.totalHits)
      | none => primaryRemaining
    header s!"X-RateLimit-Limit{suffix}" (toString p.limit)
    header s!"X-RateLimit-Remaining{suffix}" (toString (min primaryRemaining apiRemaining))
    header s!"X-RateLimit-Reset{suffix}" (toString primary.timeToExpire)
  return true

/-- `handleRequest(requestProps)` -/
def Guard.handleRequest (g : Guard) (p : RequestProps) : Guarded Bool := do
  if g.ignores p then return true
  let primary ← g.increment (g.primary p)
  match p.countedKey with
  | some apiKeyHeader => do
      let record ← g.increment (g.apiKey p apiKeyHeader)
      g.respond p primary (some record)
  | none => g.respond p primary none

/-- What becomes of a request, and the headers of its response. -/
abbrev Answer := Except Exc Bool × Headers

/-- The requests that pass the guard. -/
def Guard.system (g : Guard) : System Op.Ret Choice Keyspace RequestProps Answer where
  exec := exec
  body p := g.handleRequest p []

/-! ### What a request counts -/

/-- The request is let through. -/
def passed : Answer → Bool
  | (.ok allowed, _) => allowed
  | (.error _, _) => false

/-- The increments that a request asks for, in this order. -/
def Guard.increments (g : Guard) (p : RequestProps) : List Call :=
  if g.ignores p then []
  else g.primary p :: (p.countedKey.map fun apiKeyHeader => g.apiKey p apiKeyHeader).toList

/-- The increments that requests (the last one first) ask for (the last one first). -/
def Guard.attempts (g : Guard) (requests : List (RequestProps × Answer)) : List Call :=
  requests.flatMap fun x => (g.increments x.1).reverse

/-- The request counts in this bucket. -/
def Guard.countsIn (g : Guard) (key : String) (p : RequestProps) : Bool :=
  (g.increments p).any fun c => c.key = key

/-- What one request has the storage do: a part of the increments that it asks for, and all of them,
each within its limit, when it is let through. -/
structure Guard.Storage (g : Guard) (p : RequestProps) (a : Answer) (w w' : Keyspace)
    (part : List (Call × Result)) : Prop where
  runs : Runs (Throttler.system g.algorithm) w part w'
  asked : (part.map Prod.fst).Sublist (g.increments p).reverse
  allowed : passed a = true →
    part.map Prod.fst = (g.increments p).reverse ∧ ∀ x ∈ part, allowed x.2 = true

section Request

variable {g : Guard} {p : RequestProps} {w w' : Keyspace} {pid : ℕ} {headers : Headers}

/-- **The answer** awaits nothing more, and lets the request through within both limits. -/
theorem respond_eq (g : Guard) (p : RequestProps) (primary : ThrottlerStorageRecord)
    (apiKeyRecord : Option ThrottlerStorageRecord) (headers : Headers) :
    ∃ a : Answer, g.respond p primary apiKeyRecord headers = .ret a ∧
      (passed a = true → primary.isBlocked = false ∧
        apiKeyRecord.any (fun record => record.isBlocked) = false) := by
  unfold Guard.respond
  dsimp only
  split
  · split
    · exact ⟨_, rfl, nofun⟩
    · exact ⟨_, rfl, nofun⟩
  · next hblocked =>
    rw [Bool.or_eq_true, not_or, Bool.not_eq_true, Bool.not_eq_true] at hblocked
    split
    · exact ⟨_, rfl, fun _ => hblocked⟩
    · exact ⟨_, rfl, fun _ => hblocked⟩

/-- **One increment** of a request is a call of the storage. -/
theorem increment_alone {c : Call} {f : ThrottlerStorageRecord → Guarded Bool} {a : Answer}
    (h : Alone exec pid ((g.increment c >>= f) headers) w a w') :
    ∃ (r : Result) (w₁ : Keyspace), Alone exec pid ((Throttler.system g.algorithm).body c) w r w₁ ∧
      ((∃ e, r = .error e ∧ a = (.error e, headers) ∧ w' = w₁) ∨
        ∃ record, r = .ok record ∧ Alone exec pid (f record headers) w₁ a w') := by
  obtain ⟨x, w₁, hscope, hrest⟩ := h.of_bind
  obtain ⟨y, w₂, hleave, hpure⟩ := hscope.of_bind
  obtain ⟨⟨r, u⟩, w₃, hincrement, hend⟩ := hleave.of_bind
  refine ⟨r, w₃, hincrement.bind (.ret r w₃), ?_⟩
  cases r with
  | error e =>
    obtain ⟨rfl, rfl⟩ := alone_ret.mp hend
    obtain ⟨rfl, rfl⟩ := alone_ret.mp hpure
    obtain ⟨rfl, rfl⟩ := alone_ret.mp hrest
    exact .inl ⟨e, rfl, rfl, rfl⟩
  | ok record =>
    obtain ⟨rfl, rfl⟩ := alone_ret.mp hend
    obtain ⟨rfl, rfl⟩ := alone_ret.mp hpure
    exact .inr ⟨record, rfl, hrest⟩

/-- The part of a request after the tracker's bucket has been counted. -/
theorem respond_alone {primary : ThrottlerStorageRecord}
    {apiKeyRecord : Option ThrottlerStorageRecord} {a : Answer}
    (h : Alone exec pid (g.respond p primary apiKeyRecord headers) w a w') :
    w' = w ∧ (passed a = true → primary.isBlocked = false ∧
      apiKeyRecord.any (fun record => record.isBlocked) = false) := by
  obtain ⟨b, heq, hpassed⟩ := respond_eq g p primary apiKeyRecord headers
  rw [heq] at h
  obtain ⟨rfl, rfl⟩ := alone_ret.mp h
  exact ⟨rfl, hpassed⟩

theorem allowed_of_isBlocked {record : ThrottlerStorageRecord} (h : record.isBlocked = false) :
    allowed (.ok record) = true := by
  rw [allowed, h]
  rfl

/-- **A request is a series of calls of the storage.** -/
theorem storage_of_alone {a : Answer} (h : Alone exec pid (g.system.body p) w a w') :
    ∃ part, g.Storage p a w w' part := by
  change Alone exec pid (g.handleRequest p []) w a w' at h
  rw [Guard.handleRequest] at h
  by_cases hignored : g.ignores p = true
  · rw [if_pos hignored] at h
    obtain ⟨rfl, rfl⟩ := alone_ret.mp h
    have hnone : g.increments p = [] := if_pos hignored
    refine ⟨[], .nil, ?_, fun _ => ?_⟩ <;> rw [hnone]
    · exact List.Sublist.refl _
    · exact ⟨rfl, fun x hx => absurd hx List.not_mem_nil⟩
  · rw [if_neg hignored] at h
    have hsome : g.increments p =
        g.primary p :: (p.countedKey.map fun apiKeyHeader => g.apiKey p apiKeyHeader).toList :=
      if_neg hignored
    obtain ⟨r, w₁, hprimary, hrest⟩ := increment_alone h
    have hone : Runs (Throttler.system g.algorithm) w [(g.primary p, r)] w₁ := .call pid .nil hprimary
    rcases hrest with ⟨e, rfl, rfl, rfl⟩ | ⟨primary, rfl, hrest⟩
    · -- the storage is down: the request is refused
      refine ⟨_, hone, ?_, nofun⟩
      rw [hsome, List.reverse_cons]
      exact List.sublist_append_right _ _
    cases hkey : p.countedKey with
    | none =>
      rw [hkey] at hrest hsome
      obtain ⟨rfl, hpassed⟩ := respond_alone hrest
      refine ⟨_, hone, ?_, fun hp => ?_⟩ <;> rw [hsome]
      · exact List.Sublist.refl _
      · refine ⟨rfl, List.forall_mem_singleton.mpr ?_⟩
        exact allowed_of_isBlocked (hpassed hp).1
    | some apiKeyHeader =>
      rw [hkey] at hrest hsome
      obtain ⟨r, w₂, hapiKey, hrest⟩ := increment_alone hrest
      have htwo : Runs (Throttler.system g.algorithm) w
          [(g.apiKey p apiKeyHeader, r), (g.primary p, .ok primary)] w₂ := .call pid hone hapiKey
      rcases hrest with ⟨e, rfl, rfl, rfl⟩ | ⟨record, rfl, hrest⟩
      · refine ⟨_, htwo, ?_, nofun⟩
        rw [hsome]
        exact List.Sublist.refl _
      · obtain ⟨rfl, hpassed⟩ := respond_alone hrest
        refine ⟨_, htwo, ?_, fun hp => ?_⟩ <;> rw [hsome]
        · exact List.Sublist.refl _
        · obtain ⟨hprimaryFits, hapiKeyFits⟩ := hpassed hp
          refine ⟨rfl, List.forall_mem_cons.mpr ⟨?_, List.forall_mem_singleton.mpr ?_⟩⟩
          · exact allowed_of_isBlocked hapiKeyFits
          · exact allowed_of_isBlocked hprimaryFits

end Request

/-! ### Runs -/

/-- What the storage has done for these requests: a part of what each has asked for. -/
inductive Expands (g : Guard) : List (RequestProps × Answer) → List (Call × Result) → Prop
  | nil : Expands g [] []
  | request {requests : List (RequestProps × Answer)} {calls part : List (Call × Result)}
      {p : RequestProps} {a : Answer} (h : Expands g requests calls)
      (hasked : (part.map Prod.fst).Sublist (g.increments p).reverse)
      (hallowed : passed a = true →
        part.map Prod.fst = (g.increments p).reverse ∧ ∀ x ∈ part, allowed x.2 = true) :
      Expands g ((p, a) :: requests) (part ++ calls)

/-- The settings of a bucket: every increment has them, the increments come one after another, and
each adds its own member. -/
structure Bucket (ttl limit blockDuration : ℤ) (attempts : List Call) : Prop where
  same : ∀ c ∈ attempts, c.ttl = ttl ∧ c.limit = limit ∧ c.blockDuration = blockDuration
  ascending : attempts.Pairwise fun c d => d.now ≤ c.now
  members : (attempts.map Call.member).Nodup

/-- How many calls an algorithm allows in a window. -/
def Algorithm.atMost : Algorithm → ℤ → ℤ
  | sliding_window, limit => limit
  | fixed_window, limit => 2 * limit - 1

section Runs

variable {g : Guard} {requests : List (RequestProps × Answer)} {calls : List (Call × Result)}
  {key : String} {ttl limit blockDuration : ℤ} {w₀ w : Keyspace}

/-- **A run of requests is a run of the storage.** -/
theorem expands_of_runs (h : Runs g.system w₀ requests w) :
    ∃ calls, Runs (Throttler.system g.algorithm) w₀ calls w ∧ Expands g requests calls := by
  induction h with
  | nil => exact ⟨[], .nil, .nil⟩
  | call pid _ halone ih =>
    obtain ⟨calls, hruns, hexpands⟩ := ih
    obtain ⟨part, hpart⟩ := storage_of_alone halone
    exact ⟨part ++ calls, hruns.append hpart.runs, .request hexpands hpart.asked hpart.allowed⟩

theorem Expands.sublist (h : Expands g requests calls) :
    (calls.map Prod.fst).Sublist (g.attempts requests) := by
  induction h with
  | nil => exact List.Sublist.refl _
  | request _ hasked _ ih =>
    rw [List.map_append, Guard.attempts, List.flatMap_cons]
    exact hasked.append ih

/-- The increments of a request are made at its time. -/
theorem now_of_mem_increments {p : RequestProps} {c : Call} (h : c ∈ g.increments p) :
    c.now = p.now := by
  rw [Guard.increments] at h
  split at h
  · exact absurd h List.not_mem_nil
  · rcases List.mem_cons.mp h with rfl | h
    · rfl
    · obtain ⟨apiKeyHeader, -, rfl⟩ := Option.map_eq_some_iff.mp (Option.mem_toList.mp h)
      rfl

/-- **A request that is let through** has been allowed in each bucket that it counts in. -/
theorem Expands.countP_le (h : Expands g requests calls) (when_ : ℤ → Bool) :
    (requests.countP fun x => passed x.2 && g.countsIn key x.1 && when_ x.1.now) ≤
      (callsFor key calls).countP fun x => allowed x.2 && when_ x.1.now := by
  induction h with
  | nil => exact le_rfl
  | @request requests calls part p a _ _ hallowed ih =>
    rw [List.countP_cons, callsFor, List.filter_append, List.countP_append]
    split
    · next hcounts =>
      rw [Bool.and_eq_true, Bool.and_eq_true] at hcounts
      obtain ⟨⟨hpassed, hin⟩, hwhen⟩ := hcounts
      obtain ⟨hpart, hall⟩ := hallowed hpassed
      obtain ⟨c, hc, hkey⟩ := List.any_eq_true.mp hin
      have hmem : c ∈ part.map Prod.fst := by
        rw [hpart]
        exact List.mem_reverse.mpr hc
      obtain ⟨x, hx, rfl⟩ := List.mem_map.mp hmem
      have hpos : 0 < (part.filter fun x => x.1.key = key).countP
          fun x => allowed x.2 && when_ x.1.now := by
        refine List.countP_pos_iff.mpr ⟨x, List.mem_filter.mpr ⟨hx, hkey⟩, ?_⟩
        rw [Bool.and_eq_true, now_of_mem_increments hc]
        exact ⟨hall x hx, hwhen⟩
      have := ih
      rw [callsFor] at this
      omega
    · rw [Nat.add_zero]
      exact ih.trans (Nat.le_add_left _ _)

theorem Bucket.sublist {attempts attempts' : List Call} (h : Bucket ttl limit blockDuration attempts)
    (hsub : attempts'.Sublist attempts) : Bucket ttl limit blockDuration attempts' where
  same c hc := h.same c (hsub.subset hc)
  ascending := h.ascending.sublist hsub
  members := h.members.sublist (hsub.map _)

/-- The calls of the storage for a bucket have its settings. -/
theorem Bucket.regular (h : Bucket ttl limit blockDuration (calls.map Prod.fst)) :
    Regular ttl limit blockDuration calls where
  same x hx := h.same x.1 (List.mem_map_of_mem hx)
  ascending := List.pairwise_map.mp h.ascending
  members := by
    have hmembers := h.members
    rwa [List.map_map] at hmembers

/-- The storage allows so many calls in a window. -/
theorem allowed_le (hlimit : 1 ≤ limit) (httl : 0 < ttl) (hsliding : w₀ (slidingKey key) = none)
    (hfixed : w₀ (fixedKey key) = none) (hblock : w₀ (blockKey key) = none) {algorithm : Algorithm}
    (hruns : Runs (Throttler.system algorithm) w₀ calls w)
    (hregular : Regular ttl limit blockDuration (callsFor key calls)) (t : ℤ) :
    ((callsFor key calls).countP fun x => allowed x.2 && inWindow ttl t x.1 : ℤ) ≤
      algorithm.atMost limit := by
  cases algorithm with
  | sliding_window =>
    exact (counts_of_runs (by omega) httl hsliding hblock hruns hregular).atMost t
  | fixed_window =>
    have hsteady : Steady ttl limit (callsFor key calls) :=
      ⟨fun x hx => ⟨(hregular.same x hx).1, (hregular.same x hx).2.1⟩, hregular.ascending⟩
    obtain ⟨times, hcounts⟩ := fixedCounts_of_runs httl hfixed hblock hruns hsteady
    have hasc : times.Pairwise fun x y => y ≤ x :=
      (List.pairwise_map.mpr hregular.ascending).sublist hcounts.hits
    have hle := hcounts.atMost hlimit httl hasc t
    have hwindow : ((callsFor key calls).countP fun x => allowed x.2 && inWindow ttl t x.1) ≤
        (callsFor key calls).countP fun x => allowed x.2 && inInterval ttl t x.1 := by
      refine List.countP_mono_left fun x _ hx => ?_
      obtain ⟨hallowed, hin⟩ := Bool.and_eq_true_iff.mp hx
      obtain ⟨hafter, hbefore⟩ := of_decide_eq_true hin
      exact Bool.and_eq_true_iff.mpr ⟨hallowed, decide_eq_true ⟨hafter.le, hbefore⟩⟩
    rw [Algorithm.atMost]
    omega

end Runs

/-- **Every bucket is limited**: in each window at most so many requests that count in it are let
through, whatever else they count in and whichever commands fail. -/
theorem passed_le {g : Guard} {requests : List (RequestProps × Answer)} {key : String}
    {ttl limit blockDuration : ℤ} {w₀ w : Keyspace} (hlimit : 1 ≤ limit) (httl : 0 < ttl)
    (hsliding : w₀ (slidingKey key) = none) (hfixed : w₀ (fixedKey key) = none)
    (hblock : w₀ (blockKey key) = none) (hruns : Runs g.system w₀ requests w)
    (hbucket : Bucket ttl limit blockDuration
      ((g.attempts requests).filter fun c => c.key = key)) (t : ℤ) :
    (requests.countP fun x => passed x.2 && g.countsIn key x.1 &&
      decide (t - ttl < x.1.now ∧ x.1.now ≤ t) : ℤ) ≤ g.algorithm.atMost limit := by
  obtain ⟨calls, hstorage, hexpands⟩ := expands_of_runs hruns
  have hcount := @Expands.countP_le g requests calls key hexpands fun now => decide (t - ttl < now ∧ now ≤ t)
  have hsub : ((callsFor key calls).map Prod.fst).Sublist
      ((g.attempts requests).filter fun c => c.key = key) := by
    have hfilter := hexpands.sublist.filter fun c => decide (c.key = key)
    rwa [List.filter_map] at hfilter
  have hle := allowed_le hlimit httl hsliding hfixed hblock hstorage
    (hbucket.sublist hsub).regular t
  exact le_trans (Int.ofNat_le.mpr hcount) hle

instance (ttl limit blockDuration : ℤ) (attempts : List Call) :
    Decidable (Bucket ttl limit blockDuration attempts) :=
  decidable_of_iff ((∀ c ∈ attempts, c.ttl = ttl ∧ c.limit = limit ∧
      c.blockDuration = blockDuration) ∧ (attempts.Pairwise fun c d => d.now ≤ c.now) ∧
        (attempts.map Call.member).Nodup)
    ⟨fun ⟨hsame, hascending, hmembers⟩ => ⟨hsame, hascending, hmembers⟩,
      fun h => ⟨h.same, h.ascending, h.members⟩⟩

namespace Sample

/-- A guard whose API keys may be used once in ten milliseconds. -/
def guard : Guard where
  algorithm := .sliding_window
  ignoreUserAgents := [fun agent => agent = "kube-probe"]
  apiKeyThrottleLimits := ⟨1, 10⟩
  errorMessage := "Too Many Requests"
  generateKey handler tracker name := s!"{handler}-{name}-{tracker}"
  sha256Hex text := text

/-- A request from an address with the key `K`. -/
def request (address : String) (now : ℤ) : RequestProps where
  handler := "ping"
  limit := 5
  ttl := 10
  throttler := { name := "default" }
  blockDuration := 0
  tracker := s!"ip:{address}"
  apiKeyHeader := some "K"
  now
  randoms := ("0.1", "0.2")

/-- The key is used from two addresses, and once more when its window is over. -/
def requests : List (RequestProps × List Choice) :=
  [(request "b" 11, [.done, .done, .done, .done]), (request "b" 1, [.done, .done, .done, .done]),
    (request "a" 0, [.done, .done, .done, .done])]

/-- The bucket of the key. -/
def bucket : String := "ping-default:apikey-apikey:K"

end Sample

/-- A second address gives a key no second allowance. -/
theorem passed_le_twoAddresses : ∃ requests w,
    Runs Sample.guard.system (fun _ => none) requests w ∧
      requests.map (fun x => (x.1.tracker, passed x.2)) =
        [("ip:b", true), ("ip:b", false), ("ip:a", true)] ∧
        ∀ t, (requests.countP fun x => passed x.2 && Sample.guard.countsIn Sample.bucket x.1 &&
          decide (t - 10 < x.1.now ∧ x.1.now ≤ t) : ℤ) ≤ 1 := by
  obtain ⟨requests, w, hruns, hp⟩ := exists_runs_of_replayCalls Sample.guard.system
    (fun _ => none) Sample.requests (fun x => x.1.map (fun x => (x.1.tracker, passed x.2)) =
        [("ip:b", true), ("ip:b", false), ("ip:a", true)] ∧
      Bucket 10 1 0 ((Sample.guard.attempts x.1).filter fun c => c.key = Sample.bucket))
    (by decide +kernel)
  obtain ⟨hpassed, hbucket⟩ := of_decide_eq_true hp
  exact ⟨requests, w, hruns, hpassed,
    passed_le (by decide) (by decide) rfl rfl rfl hruns hbucket⟩

end Ahjoor.Throttler
