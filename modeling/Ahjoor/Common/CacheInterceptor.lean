import Ahjoor.Common.IdempotencyInterceptor
import Ahjoor.Json.KeyOrder

/-!
# `CacheInterceptor`

A response to a GET request is cached in Redis and answered to the requests with the same key. The
key is made of the path and the query parameters, written as `key=value` and joined with `&`, as
they are: nothing is escaped, and **nothing else of the request is in it**.

The handler is a parameter: what it returns in the state in which it runs. Redis answers; where it
does not, nothing is cached and the handler runs.
-/

namespace Ahjoor.Caching

open Json

variable {ε : Type}

/-- A request: what the parser has made of its query, and the user who is signed in. -/
structure Request where
  method : String := "GET"
  url : String
  query : List (String × Value)
  user : Option ℕ := none

/-- A handler, in the state in which it runs: it returns a value or throws. -/
abbrev Handler (ε : Type) := Request → Except ε Value

/-- `DEFAULT_TTL`. -/
def DEFAULT_TTL : ℤ := 300

/-- `request.url.split('?')[0]`. -/
def Request.baseUrl (request : Request) : List Char := request.url.toList.takeWhile (· ≠ '?')

/-- `` `${key}=${request.query[key]}` ``. -/
def parameter (entry : String × Value) : List Char :=
  entry.1.toList ++ '=' :: Idempotency.display entry.2

/-- The parameters, sorted by their keys and joined. -/
def queryString (query : List (String × Value)) : List Char :=
  ['&'].intercalate ((sortByKey query).map parameter)

/-- `generateCacheKey(request)`. -/
def generateCacheKey (request : Request) : String :=
  let text := queryString request.query
  String.ofList ("cache:".toList ++ request.baseUrl ++ if text = [] then [] else '?' :: text)

/-- `Reflect.getMetadata(CACHE_TTL_KEY, handler) || this.DEFAULT_TTL`. -/
def ttlOf (metadata : Option ℤ) : ℤ := (metadata.filter (· ≠ 0)).getD DEFAULT_TTL

/-- What `RedisService.set` makes of a value. -/
def serialized : Value → String
  | .str s => s
  | value => stringify value

/-- `intercept(context, next)`: a request that comes at `now`, and whose handler has finished at
`finishedAt` if it runs. -/
def intercept (metadata : Option ℤ) (handler : Handler ε) (now finishedAt : ℤ) (request : Request)
    (s : Redis.Keyspace) : Except ε Value × Redis.Keyspace :=
  if request.method ≠ "GET" then (handler request, s)
  else
    match RedisService.get now (generateCacheKey request) s with
    | .null =>
        match handler request with
        | .ok data => (.ok data, RedisService.set finishedAt (generateCacheKey request)
            (serialized data) (ttlOf metadata) s)
        | .error e => (.error e, s)
    | cached => (.ok cached, s)

end Ahjoor.Caching
