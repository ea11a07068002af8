import Ahjoor.Common.Date
import Ahjoor.Redis.RedisService

/-!
# `IdempotencyInterceptor`

A successful response to a POST request is cached under its idempotency key, as a JSON text, and is
meant to be returned to every request with the key. But `RedisService.get` has decoded the text
already: what the interceptor parses is the text of an object, `[object Object]`. That is no JSON,
and the handler runs again.

The handler is a parameter: what it returns, and what it does to a state of its own. Requests come
one after another.
-/

namespace Ahjoor.Idempotency

open Json

/-! ### Values of the language -/

/-- `String({})`. -/
def objectText : List Char := "[object Object]".toList

mutual

/-- `String(value)`, as characters. -/
def display : Value → List Char
  | .null => ['n', 'u', 'l', 'l']
  | .bool true => ['t', 'r', 'u', 'e']
  | .bool false => ['f', 'a', 'l', 's', 'e']
  | .num n => n.text
  | .str s => s.toList
  | .arr xs => join (displayAll xs)
  | .obj _ => objectText
termination_by structural value => value

/-- The elements of an array, `null` as nothing. -/
def displayAll : List Value → List (List Char)
  | [] => []
  | value :: values =>
      (match value with
        | .null => []
        | value => display value) :: displayAll values
termination_by structural values => values

end

/-- `if (value)`. -/
def truthy : Value → Bool
  | .null => false
  | .bool b => b
  | .num n => n.value ≠ 0
  | .str s => s ≠ ""
  | .arr _ | .obj _ => true

/-- `value[key]`. -/
def property (key : String) : Value → Option Value
  | .obj members => members.lookup key
  | _ => none

/-! ### Requests -/

variable {ρ σ ε : Type}

/-- A request, the time at which it comes, and the time at which its handler has finished. -/
structure Request (ρ : Type) where
  method : String := "POST"
  requiresIdempotency : Bool := true
  idempotencyKey : Option String
  startedAt : ℤ
  finishedAt : ℤ
  content : ρ

/-- A handler: it returns a status code and a body, if there is one, or throws. -/
abbrev Handler (ρ σ ε : Type) := ρ → σ → Except ε (ℕ × Option Value) × σ

/-- The keys of Redis, what the handler works on, and how often it has run. -/
structure World (σ : Type) where
  keyspace : Redis.Keyspace
  state : σ
  runs : ℕ := 0

/-- What a request gets. -/
inductive Response (ε : Type)
  | handled (result : Except ε (ℕ × Option Value))
  | replayed (headers statusCode body : Option Value)
  | badRequest (message : String)

/-- `IDEMPOTENCY_TTL`. -/
def idempotencyTtl : ℤ := 86400

/-- Hexadecimal digits, as many as `length`. -/
def isHex (length : ℕ) (cs : List Char) : Bool :=
  cs.length = length && cs.all fun c => (hexValue c).isSome

/-- `UUID_V4_REGEX.test(key)`. -/
def isUuidV4 (key : String) : Bool :=
  match key.toList.splitOn '-' with
  | [a, b, c, d, e] =>
      isHex 8 a && isHex 4 b && (isHex 4 c && c.head? = some '4') &&
        (isHex 4 d && d.head?.any fun v => v ∈ ['8', '9', 'a', 'b', 'A', 'B']) && isHex 12 e
  | _ => false

/-- The key of the cached response. -/
def cacheKey (idempotencyKey : String) : String := "idempotency:" ++ idempotencyKey

/-- `CachedResponse`, as it is stored: no headers, and no body where the handler returns none. -/
def cachedResponse (statusCode : ℕ) (body : Option Value) (timestamp : String) : Value :=
  .obj (("statusCode", .num (.ofInt statusCode)) :: (body.map fun value => ("body", value)).toList ++
    [("timestamp", .str timestamp)])

/-- `next.handle()`. -/
def handle (handler : Handler ρ σ ε) (w : World σ) (request : Request ρ) :
    Except ε (ℕ × Option Value) × World σ :=
  let (result, state) := handler request.content w.state
  (result, { w with state, runs := w.runs + 1 })

/-- The request is handled, and its response is cached if it is successful. -/
def handleAndCache (handler : Handler ρ σ ε) (w : World σ) (request : Request ρ) (key : String) :
    Response ε × World σ :=
  match handle handler w request with
  | (.ok (statusCode, body), w) =>
      (.handled (.ok (statusCode, body)), { w with
        keyspace := RedisService.setWithExpiry request.finishedAt (cacheKey key)
          (stringify (cachedResponse statusCode body (toISOString request.finishedAt))) idempotencyTtl
          w.keyspace })
  | (.error e, w) => (.handled (.error e), w)

/-- The request gets what is cached, if that can be parsed. -/
def replay (cached : Value) : Option (Response ε) :=
  if truthy cached then
    match read (display cached) with
    | some .null | none => none
    | some response => some (.replayed ((property "headers" response).filter truthy)
        (property "statusCode" response) (property "body" response))
  else none

/-- `intercept(context, next)`. -/
def intercept (handler : Handler ρ σ ε) (w : World σ) (request : Request ρ) : Response ε × World σ :=
  if request.method ≠ "POST" then
    let (result, w) := handle handler w request
    (.handled result, w)
  else
    match request.idempotencyKey.filter (· ≠ "") with
    | none =>
        if request.requiresIdempotency then
          (.badRequest "Idempotency-Key header is required for this endpoint", w)
        else
          let (result, w) := handle handler w request
          (.handled result, w)
    | some key =>
        if !isUuidV4 key then (.badRequest "Idempotency-Key must be a valid UUID v4", w)
        else
          match replay (RedisService.get request.startedAt (cacheKey key) w.keyspace) with
          | some response => (response, w)
          | none => handleAndCache handler w request key

/-- Requests one after another. -/
def serve (handler : Handler ρ σ ε) : World σ → List (Request ρ) → List (Response ε) × World σ
  | w, [] => ([], w)
  | w, request :: requests =>
      let (response, w) := intercept handler w request
      let (responses, w) := serve handler w requests
      (response :: responses, w)

/-! ### What is parsed is no JSON -/

section Running

variable {handler : Handler ρ σ ε} {w : World σ} {request : Request ρ} {key : String}

/-- A POST request with the idempotency key. -/
def Keyed (key : String) (request : Request ρ) : Prop :=
  request.method = "POST" ∧ request.idempotencyKey = some key

/-- A response is stored under the key; it may have expired. -/
def Cached (key : String) (s : Redis.Keyspace) : Prop :=
  ∃ statusCode body timestamp expiresAt,
    s (cacheKey key) = some ⟨.str (stringify (cachedResponse statusCode body timestamp)), expiresAt⟩

/-- What is stored is decoded where it is read. -/
theorem get_of_cached (now : ℤ) {s : Redis.Keyspace} (h : Cached key s) :
    RedisService.get now (cacheKey key) s = .null ∨
      ∃ members, RedisService.get now (cacheKey key) s = .obj members := by
  obtain ⟨statusCode, body, timestamp, expiresAt, hentry⟩ := h
  rw [RedisService.get, Redis.Keyspace.live, hentry, Option.filter_some]
  split_ifs with hlive
  · right
    dsimp only
    rw [stringify, String.toList_ofList, read_print]
    exact ⟨_, rfl⟩
  · exact Or.inl rfl

/-- The text of an object is no JSON. -/
theorem read_objectText : read objectText = none := by decide +kernel

theorem replay_obj (members : List (String × Value)) :
    replay (.obj members) = (none : Option (Response ε)) := by
  simp only [replay, truthy, display, read_objectText, if_true]

theorem replay_of_cached {now : ℤ} {s : Redis.Keyspace} (h : Cached key s) :
    replay (RedisService.get now (cacheKey key) s) = (none : Option (Response ε)) := by
  obtain hnull | ⟨members, hmembers⟩ := get_of_cached now h
  · rw [hnull]
    rfl
  · rw [hmembers, replay_obj]

theorem exists_of_replay {cached : Value} {response : Response ε}
    (h : replay cached = some response) :
    ∃ headers status content, response = .replayed headers status content := by
  rw [replay] at h
  split at h
  · split at h
    · simp only [reduceCtorEq] at h
    · simp only [reduceCtorEq] at h
    · exact ⟨_, _, _, (Option.some.inj h).symm⟩
  · simp only [reduceCtorEq] at h

theorem ne_empty_of_isUuidV4 (hkey : isUuidV4 key = true) : key ≠ "" := by
  rintro rfl
  exact absurd hkey (by decide +kernel)

/-- A request with the key gets what is cached, or is handled. -/
theorem intercept_eq (hkey : isUuidV4 key = true) (hrequest : Keyed key request) :
    intercept handler w request =
      match replay (RedisService.get request.startedAt (cacheKey key) w.keyspace) with
      | some response => (response, w)
      | none => handleAndCache handler w request key := by
  obtain ⟨hmethod, hidempotencyKey⟩ := hrequest
  have hfilter : request.idempotencyKey.filter (· ≠ "") = some key := by
    rw [hidempotencyKey]
    simp [ne_empty_of_isUuidV4 hkey]
  rw [intercept, if_neg (not_not.mpr hmethod), hfilter]
  simp [hkey]

/-- Where a response is stored, the handler runs. -/
theorem intercept_of_cached (hkey : isUuidV4 key = true) (hrequest : Keyed key request)
    (h : Cached key w.keyspace) :
    intercept handler w request = handleAndCache handler w request key := by
  rw [intercept_eq hkey hrequest, replay_of_cached h]

theorem runs_handleAndCache : (handleAndCache handler w request key).2.runs = w.runs + 1 := by
  rw [handleAndCache]
  split
  all_goals
    rename_i hhandle
    rw [handle] at hhandle
    simp only [Prod.mk.injEq] at hhandle
    rw [← hhandle.2]

/-- A successful response is stored. -/
theorem cached_of_handled {statusCode : ℕ} {body : Option Value}
    (h : (handleAndCache handler w request key).1 = .handled (.ok (statusCode, body))) :
    Cached key (handleAndCache handler w request key).2.keyspace := by
  rw [handleAndCache] at h ⊢
  split at h
  · have hms : ¬ idempotencyTtl * 1000 ≤ 0 := by decide
    rename_i statusCode' body' w' _
    refine ⟨statusCode', body', toISOString request.finishedAt,
      some (request.finishedAt + idempotencyTtl * 1000), ?_⟩
    simp only [RedisService.setWithExpiry, Redis.setPx, if_neg hms, Function.update_self]
  · simp only [Response.handled.injEq, reduceCtorEq] at h

/-- What is stored stays, or gives way to the new response. -/
theorem cached_handleAndCache (h : Cached key w.keyspace) :
    Cached key (handleAndCache handler w request key).2.keyspace := by
  cases hresult : (handleAndCache handler w request key).1 with
  | handled result =>
    cases result with
    | ok result => exact cached_of_handled hresult
    | error e =>
      rw [handleAndCache] at hresult ⊢
      split at hresult
      · simp only [Response.handled.injEq, reduceCtorEq] at hresult
      · rename_i hhandle
        rw [handle] at hhandle
        simp only [Prod.mk.injEq] at hhandle
        rw [← hhandle.2]
        exact h
  | replayed headers statusCode body =>
    rw [handleAndCache] at hresult
    split at hresult <;> simp only [reduceCtorEq] at hresult
  | badRequest message =>
    rw [handleAndCache] at hresult
    split at hresult <;> simp only [reduceCtorEq] at hresult

/-- **Requests with the key**, one after another, leave a response stored under it. -/
theorem cached_serve (hkey : isUuidV4 key = true) {requests : List (Request ρ)}
    (hrequests : ∀ request ∈ requests, Keyed key request) (h : Cached key w.keyspace) :
    Cached key (serve handler w requests).2.keyspace := by
  induction requests generalizing w with
  | nil => exact h
  | cons request requests ih =>
    rw [serve]
    refine ih (fun request hrequest => hrequests request (.tail _ hrequest)) ?_
    rw [intercept_of_cached hkey (hrequests request (.head _)) h]
    exact cached_handleAndCache h

end Running

/-! ### The promise -/

/-- The request comes before a response that is cached at `cachedAt` expires. -/
def Request.Within (cachedAt : ℤ) (request : Request ρ) : Prop :=
  request.startedAt ≤ cachedAt + idempotencyTtl * 1000

/-- The status code and the body of a response. -/
def Response.Gives (statusCode : ℕ) (body : Option Value) : Response ε → Prop
  | .handled (.ok result) => result = (statusCode, body)
  | .replayed _ status content => status = some (.num (.ofInt statusCode)) ∧ content = body
  | .handled (.error _) | .badRequest _ => False

/-- **At most once**: each later request that comes in time gets the response that is cached, and
the handler does not run. -/
def KeepsResponse (handler : Handler ρ σ ε) (w : World σ) (cachedAt : ℤ) (statusCode : ℕ)
    (body : Option Value) (later : List (Request ρ)) : Prop :=
  ∀ before request after, later = before ++ request :: after → request.Within cachedAt →
    let w := (serve handler w before).2
    (intercept handler w request).1.Gives statusCode body ∧
      (intercept handler w request).2.runs = w.runs

/-- **The response is kept only where nobody asks for it**: after a successful first response, the
handler runs again for every later request with the key. -/
theorem keepsResponse_iff {handler : Handler ρ σ ε} {w : World σ} {key : String}
    (hkey : isUuidV4 key = true) {first : Request ρ} (hfirst : Keyed key first)
    {later : List (Request ρ)} (hlater : ∀ request ∈ later, Keyed key request)
    {statusCode : ℕ} {body : Option Value}
    (hhandled : (intercept handler w first).1 = .handled (.ok (statusCode, body))) :
    KeepsResponse handler (intercept handler w first).2 first.finishedAt statusCode body later ↔
      ∀ request ∈ later, ¬ request.Within first.finishedAt := by
  have hcached : Cached key (intercept handler w first).2.keyspace := by
    rw [intercept_eq hkey hfirst] at hhandled ⊢
    split at hhandled
    · rename_i hreplay
      obtain ⟨headers, status, content, rfl⟩ := exists_of_replay hreplay
      simp only [reduceCtorEq] at hhandled
    · exact cached_of_handled hhandled
  constructor
  · intro hkeeps request hrequest hwithin
    obtain ⟨before, after, rfl⟩ := List.append_of_mem hrequest
    obtain ⟨-, hruns⟩ := hkeeps before request after rfl hwithin
    have hbefore : Cached key (serve handler (intercept handler w first).2 before).2.keyspace :=
      cached_serve hkey (fun request hmem => hlater request (List.mem_append_left _ hmem)) hcached
    rw [intercept_of_cached hkey (hlater request hrequest) hbefore, runs_handleAndCache] at hruns
    omega
  · intro hnone before request after hsplit hwithin
    exact absurd hwithin (hnone request (hsplit ▸ List.mem_append_right _ (.head _)))

/-- A handler that makes a payment, and answers with the number of payments so far. -/
def pay : Handler Unit ℕ String := fun _ payments =>
  (.ok (201, some (.obj [("payments", .num (.ofInt (payments + 1)))])), payments + 1)

/-- The key of the requests to pay. -/
def payKey : String := "2c5ea4c0-4067-41d6-8a1b-6f1b2f1c9b1e"

/-- A request to pay, and how long the handler takes. -/
def payRequest (startedAt : ℤ) : Request Unit where
  idempotencyKey := some payKey
  startedAt
  finishedAt := startedAt + 100
  content := ()

/-- Before the first request. -/
def payWorld : World ℕ := ⟨fun _ => none, 0, 0⟩

theorem isUuidV4_payKey : isUuidV4 payKey = true := by decide +kernel

theorem keyed_payRequest (startedAt : ℤ) : Keyed payKey (payRequest startedAt) := ⟨rfl, rfl⟩

theorem intercept_payRequest :
    (intercept pay payWorld (payRequest 0)).1 =
      .handled (.ok (201, some (.obj [("payments", .num (.ofInt 1))]))) := by
  rw [intercept_eq isUuidV4_payKey (keyed_payRequest 0)]
  rfl

theorem keepsResponse_iff_payRequest :
    KeepsResponse pay (intercept pay payWorld (payRequest 0)).2 (payRequest 0).finishedAt 201
        (some (.obj [("payments", .num (.ofInt 1))])) [payRequest 1000] ↔
      ∀ request ∈ [payRequest 1000], ¬ request.Within (payRequest 0).finishedAt :=
  keepsResponse_iff isUuidV4_payKey (keyed_payRequest 0)
    (fun _ hrequest => List.mem_singleton.mp hrequest ▸ keyed_payRequest 1000) intercept_payRequest

/-- **The payment is made twice** by a request that is repeated after a second. -/
theorem not_keepsResponse :
    ¬ ∀ (handler : Handler Unit ℕ String) (w : World ℕ) (key : String), isUuidV4 key = true →
      ∀ first : Request Unit, Keyed key first →
      ∀ later : List (Request Unit), (∀ request ∈ later, Keyed key request) →
      ∀ (statusCode : ℕ) (body : Option Value),
        (intercept handler w first).1 = .handled (.ok (statusCode, body)) →
        KeepsResponse handler (intercept handler w first).2 first.finishedAt statusCode body
          later := by
  intro h
  have hlater : ∀ request ∈ [payRequest 1000], Keyed payKey request := fun _ hrequest =>
    List.mem_singleton.mp hrequest ▸ keyed_payRequest 1000
  have hkeeps := h pay payWorld payKey isUuidV4_payKey (payRequest 0) (keyed_payRequest 0)
    [payRequest 1000] hlater 201 _ intercept_payRequest
  have hwithin : (payRequest 1000).Within (payRequest 0).finishedAt := by
    change (1000 : ℤ) ≤ 100 + 86400 * 1000
    decide
  have hruns := (hkeeps [] (payRequest 1000) [] rfl hwithin).2
  exact absurd hruns (by decide +kernel)

end Ahjoor.Idempotency
