import Ahjoor.Async.Executions
import Ahjoor.Redis.FixedWindow
import Ahjoor.Throttler.RedisThrottlerStorage
import Mathlib.Data.List.Perm.Subperm

/-!
# `TrustedIpService` and `CustomThrottlerGuard.canActivate`

A request that exceeds a rate limit counts as a violation of its address; the fifth violation within
an hour blocks the address for an hour, and so does an administrator.

The counter is a fixed window, so five violations within an hour need not suffice: two windows may
share them. At most seven requests of an address are answered 429 within an hour (`refused_le`). An
address is found blocked only where five of its requests were counted within an hour, or an
administrator has blocked it (`blocked_of_found`), and while it is blocked none of its requests pass
(`not_allowed_of_blocked`). Requests overlap, and their commands fail or lose their replies.
-/

namespace Ahjoor.TrustedIps

open Async Redis Redis.FixedWindow Store

/-! ### Operations -/

/-- `VIOLATION_LUA`. -/
def VIOLATION_LUA (key : String) (window now : ℤ) : Script ℤ := do
  let count ← incr now key
  if count = 1 then
    let _ ← expire now key window
    pure count
  else pure count

/-- A command of the service. -/
inductive Command
  | eval (key : String) (window : ℤ)
  | setex (key : String) (seconds : ℤ) (value : String)
  | get (key : String)
  | del (key : String)
  deriving DecidableEq

/-- What a command returns. -/
abbrev Command.Value : Command → Type
  | eval _ _ => ℤ
  | setex _ _ _ | del _ => Unit
  | get _ => Option String

/-- What Redis runs. -/
def Command.script (now : ℤ) : (c : Command) → Script c.Value
  | eval key window => VIOLATION_LUA key window now
  | setex key seconds value => Redis.setex now key seconds value
  | get key => Redis.get now key
  | del key => Redis.del key

/-- What the throttlers of a request come to: `super.canActivate(context)`. -/
inductive Throttled
  | passed (allowed : Bool)
  | serviceUnavailable (message : String)
  | exceeded (message : String)
  | failed (e : Exc)
  deriving DecidableEq

inductive Op
  | redis (c : Command)
  | superCanActivate
  deriving DecidableEq

/-- Replies; that of a command comes with the time at which it reached Redis. -/
abbrev Op.Ret : Op → Type
  | redis c => Except String c.Value × ℤ
  | superCanActivate => Throttled

instance : (c : Command) → DecidableEq c.Value
  | .eval _ _ => inferInstanceAs (DecidableEq ℤ)
  | .setex _ _ _ | .del _ => inferInstanceAs (DecidableEq Unit)
  | .get _ => inferInstanceAs (DecidableEq (Option String))

instance : (o : Op) → DecidableEq o.Ret
  | .redis c => inferInstanceAs (DecidableEq (Except String c.Value × ℤ))
  | .superCanActivate => inferInstanceAs (DecidableEq Throttled)

/-- The freedom of the environment. -/
inductive Choice
  | done (now : ℤ)
  /-- the command does not reach Redis -/
  | refused (now : ℤ) (message : String)
  /-- the command is run and its reply is lost -/
  | lost (now : ℤ) (message : String)
  | throttled (answer : Throttled)
  deriving DecidableEq

/-- Redis and its clock. -/
structure World where
  keys : Keyspace
  clock : ℤ := 0

/-- What an operation does: the clock does not go back. -/
def exec : (o : Op) → ℕ → Choice → World → Option (o.Ret × World)
  | .redis c, _, .done now, w =>
      if w.clock ≤ now then some (((c.script now w.keys).1, now), ⟨(c.script now w.keys).2, now⟩)
      else none
  | .redis _, _, .refused now message, w =>
      if w.clock ≤ now then some ((.error message, now), ⟨w.keys, now⟩) else none
  | .redis c, _, .lost now message, w =>
      if w.clock ≤ now then some ((.error message, now), ⟨(c.script now w.keys).2, now⟩) else none
  | .superCanActivate, _, .throttled answer, w => some (answer, w)
  | _, _, _, _ => none

/-! ### The service -/

abbrev Service (α : Type) := Routine Op.Ret Unit Exc α

/-- Send a command. -/
def send (c : Command) : Service c.Value :=
  Routine.call (.redis c) fun r => Except.mapError .error r.1

/-- The key that blocks an address. -/
def blockedKey (ip : String) : String := s!"blocked_ip:{ip}"

/-- The counter of an address. -/
def violationsKey (ip : String) : String := s!"violations:{ip}"

/-- `blockIp(ip, duration, reason)`. -/
def blockIp (ip : String) (duration : ℤ) (reason : Option String) : Service Unit :=
  send (.setex (blockedKey ip) duration
    ((reason.filter fun text => text ≠ "").getD "Rate limit exceeded"))

/-- `isIpBlocked(ip)`: the reason, if the address is blocked. -/
def isIpBlocked (ip : String) : Service (Option String) := do
  let reason : Option String ← send (.get (blockedKey ip))
  pure (reason.filter fun text => text ≠ "")

/-- `unblockIp(ip)`. -/
def unblockIp (ip : String) : Service Unit := send (.del (blockedKey ip))

/-- `incrementViolations(ip, threshold, windowSeconds)`: `count` and `shouldBlock`. -/
def incrementViolations (ip : String) (threshold : ℤ := 5) (windowSeconds : ℤ := 3600) :
    Service (ℤ × Bool) := do
  let count : ℤ ← send (.eval (violationsKey ip) windowSeconds)
  if threshold ≤ count then
    blockIp ip 3600 (some s!"Exceeded {threshold} violations in {windowSeconds}s")
    pure (count, true)
  else pure (count, false)

/-! ### The guard -/

/-- What `canActivate` reads of a request and of the decorators of its handler. -/
structure Request where
  /-- `extractIp(request)` -/
  ip : String
  skipRateLimit : Bool := false
  allowBypass : Bool := false
  /-- `customConfig?.message` -/
  message : Option String := none
  deriving DecidableEq

/-- `throw new HttpException({ statusCode: 403, … })` for a blocked address. -/
def accessDenied (reason : String) : Exc := .http 403 s!"Access denied: {reason}"

/-- The answer to the violation that blocks the address. -/
def tooManyViolations : Exc :=
  .http 403 "Too many rate limit violations. Your IP has been temporarily blocked."

/-- The check at the start of `canActivate`: it fails closed. -/
def checkBlocked (ip : String) : Service Unit :=
  tryCatch
    (do
      match ← isIpBlocked ip with
      | some reason => throw (accessDenied reason)
      | none => pure ())
    fun error => throw (if error.isHttp then error else Throttler.unavailable)

/-- What `canActivate` does about a `ThrottlerException`. -/
def punish (r : Request) (message : String) : Service Bool := do
  let (_, shouldBlock) ← incrementViolations r.ip
  if shouldBlock then throw tooManyViolations
  else
    match r.message.filter fun text => text ≠ "" with
    | some text => throw (.http 429 text)
    | none => throw (.http 429 message)

/-- `canActivate(context)`; `trusted` is `isTrustedIp`. -/
def canActivate (trusted : String → Bool) (r : Request) : Service Bool := do
  if r.skipRateLimit then pure true
  else
    checkBlocked r.ip
    if r.allowBypass && trusted r.ip then pure true
    else
      match ← (Routine.perform Op.superCanActivate : Service Throttled) with
      | .passed allowed => pure allowed
      | .serviceUnavailable message => throw (.http 503 message)
      | .exceeded message => punish r message
      | .failed e => throw e

/-! ### The system -/

/-- The calls: requests, and what an administrator does. -/
inductive Call
  | canActivate (r : Request)
  | blockIp (ip : String)
  | unblockIp (ip : String)
  deriving DecidableEq

/-- The body of a call: `true` where a request passes. -/
def request (trusted : String → Bool) : Call → Service Bool
  | .canActivate r => canActivate trusted r
  | .blockIp ip => do
      blockIp ip 3600 (some "Manually blocked by admin")
      pure false
  | .unblockIp ip => do
      unblockIp ip
      pure false

/-- Requests to any number of instances, which share Redis. -/
def system (trusted : String → Bool) : System Op.Ret Choice World Call (Except Exc Bool) where
  exec := exec
  body c := (request trusted c ()).bind fun x => .ret x.1

/-- The history of a run. -/
abbrev History := Hist Op.Ret World Call (Except Exc Bool)

/-- The state of a run. -/
abbrev RunState := State Op.Ret World Call (Except Exc Bool)

/-- The events of a run. -/
abbrev Trace := List (Event Op.Ret World Call (Except Exc Bool))

/-! ### What a call does -/

section Disciplines

variable {trusted : String → Bool}

/-- A call may block an address: an administrator, or a request that has been the fifth violation. -/
def Deserves (c : Call) (key : String) (L : Log Op.Ret) : Prop :=
  (∃ ip, c = .blockIp ip ∧ key = blockedKey ip) ∨
    ∃ r n now, c = .canActivate r ∧ key = blockedKey r.ip ∧
      ⟨.redis (.eval (violationsKey r.ip) 3600), (.ok n, now)⟩ ∈ L ∧ 5 ≤ n

/-- What a call may do next. -/
def May (c : Call) (L : Log Op.Ret) : Op → Prop
  | .redis (.eval key window) => window = 3600 ∧ ∃ ip, key = violationsKey ip
  | .redis (.setex key seconds reason) => seconds = 3600 ∧ reason ≠ "" ∧ Deserves c key L
  | .redis (.del key) => ∃ ip, key = blockedKey ip
  | _ => True

/-- **What holds when a request is answered.** -/
structure Answered (r : Request) (a : Except Exc Bool) (L : Log Op.Ret) : Prop where
  /-- a violation that does not block the address was one of the first four -/
  refused : ∀ message text, ⟨.superCanActivate, .exceeded text⟩ ∈ L →
    a = .error (.http 429 message) → ∀ n now,
      ⟨.redis (.eval (violationsKey r.ip) 3600), (.ok n, now)⟩ ∈ L → n < 5
  /-- a request passes once the address is found not to be blocked -/
  passed : a = .ok true → r.skipRateLimit = true ∨ ∃ reason now,
    ⟨.redis (.get (blockedKey r.ip)), (.ok reason, now)⟩ ∈ L ∧
      reason.filter (fun text => text ≠ "") = none
  /-- a request is denied for the reason that is found -/
  denied : ∀ reason, (∀ answer, ⟨.superCanActivate, answer⟩ ∉ L) → a = .error (accessDenied reason) →
    ∃ now, ⟨.redis (.get (blockedKey r.ip)), (.ok (some reason), now)⟩ ∈ L

/-- What holds when a call returns. -/
def Returned : Call → Except Exc Bool → Log Op.Ret → Prop
  | .canActivate r, a, L => Answered r a L
  | _, _, _ => True

theorem accessDenied_injective : Function.Injective accessDenied := by
  intro reason reason' h
  obtain ⟨-, htext⟩ := Exc.http.inj h
  exact (String.append_right_inj "Access denied: ").mp htext

/-- The entry of a check that finds `reason`. -/
abbrev checked (ip : String) (reason : Except String (Option String)) (now : ℤ) : Entry Op.Ret :=
  ⟨.redis (.get (blockedKey ip)), (reason, now)⟩

theorem obeys_checkBlocked (r : Request) :
    Obeys (May (.canActivate r)) (checkBlocked r.ip)
      (fun _ _ L => ∃ reason now, L = [checked r.ip (.ok reason) now] ∧
        reason.filter (fun text => text ≠ "") = none)
      (fun e _ L => Answered r (.error e) L) () [] := by
  refine .tryCatch (.bind (.bind (.call trivial fun reply => ?_)))
  obtain ⟨found, now⟩ := reply
  cases found with
  | error msg =>
    -- the check has failed, and the request is refused
    exact .throw ⟨fun _ _ hmem => by simp at hmem, nofun, fun _ _ h => by cases h⟩
  | ok reason =>
    refine .pure ?_
    cases hreason : reason.filter (fun text => text ≠ "") with
    | none => exact .pure ⟨reason, now, rfl, hreason⟩
    | some text =>
      obtain ⟨rfl, -⟩ := Option.filter_eq_some_iff.mp hreason
      refine .throw (.throw ⟨fun _ _ hmem => by simp at hmem, nofun, fun reason' _ h => ?_⟩)
      obtain rfl : text = reason' := accessDenied_injective (Except.error.inj h)
      exact ⟨now, List.mem_cons_self⟩

/-- The answer to a request that its throttlers have seen. -/
theorem answered_of_throttled {r : Request} {a : Except Exc Bool} {L : Log Op.Ret}
    {answer : Throttled} (hmem : ⟨.superCanActivate, answer⟩ ∈ L) {reason : Option String} {now : ℤ}
    (hcheck : checked r.ip (.ok reason) now ∈ L)
    (hfree : reason.filter (fun text => text ≠ "") = none)
    (hrefused : ∀ message text, ⟨.superCanActivate, .exceeded text⟩ ∈ L →
      a = .error (.http 429 message) → ∀ n now,
        ⟨.redis (.eval (violationsKey r.ip) 3600), (.ok n, now)⟩ ∈ L → n < 5) :
    Answered r a L :=
  ⟨hrefused, fun _ => .inr ⟨reason, now, hcheck, hfree⟩, fun _ hnone => absurd hmem (hnone answer)⟩

theorem obeys_canActivate (r : Request) :
    Obeys (May (.canActivate r)) (canActivate trusted r) (fun b _ L => Answered r (.ok b) L)
      (fun e _ L => Answered r (.error e) L) () [] := by
  rw [canActivate]
  refine .ite (fun hskip => ?_) fun _ => .bind ((obeys_checkBlocked r).mono ?_ fun _ _ _ h => h)
  · exact .pure ⟨fun _ _ hmem => absurd hmem List.not_mem_nil, fun _ => .inl hskip, nofun⟩
  rintro _ ⟨⟩ _ ⟨reason, now, rfl, hfree⟩
  refine .ite (fun _ => ?_) fun _ => .bind (.perform trivial fun answer => ?_)
  · refine .pure ⟨fun _ _ hmem => by simp at hmem, fun _ => .inr ⟨reason, now, ?_, hfree⟩, nofun⟩
    exact List.mem_cons_self
  have hanswer : (⟨.superCanActivate, answer⟩ : Entry Op.Ret) ∈
      (⟨.superCanActivate, answer⟩ :: [checked r.ip (.ok reason) now] : Log Op.Ret) :=
    List.mem_cons_self
  have hcheck : checked r.ip (.ok reason) now ∈
      (⟨.superCanActivate, answer⟩ :: [checked r.ip (.ok reason) now] : Log Op.Ret) :=
    List.mem_cons_of_mem _ List.mem_cons_self
  cases answer with
  | passed allowed => exact .pure (answered_of_throttled hanswer hcheck hfree fun _ _ _ h => by cases h)
  | serviceUnavailable message =>
    exact .throw (answered_of_throttled hanswer hcheck hfree fun _ _ _ h => by cases h)
  | failed e =>
    refine .throw (answered_of_throttled hanswer hcheck hfree fun _ _ hmem => ?_)
    simp at hmem
  | exceeded message =>
    refine .bind (.bind (.call ⟨rfl, r.ip, rfl⟩ fun reply => ?_))
    obtain ⟨counted, now'⟩ := reply
    have hanswer' := List.mem_cons_of_mem
      (⟨.redis (.eval (violationsKey r.ip) 3600), (counted, now')⟩ : Entry Op.Ret) hanswer
    have hcheck' := List.mem_cons_of_mem
      (⟨.redis (.eval (violationsKey r.ip) 3600), (counted, now')⟩ : Entry Op.Ret) hcheck
    cases counted with
    | error msg => exact answered_of_throttled hanswer' hcheck' hfree fun _ _ _ h => by cases h
    | ok n =>
      refine .ite (fun hmany => ?_) fun hfew => ?_
      · have hmay : May (.canActivate r)
            (⟨.redis (.eval (violationsKey r.ip) 3600), (.ok n, now')⟩ ::
              ⟨.superCanActivate, .exceeded message⟩ :: [checked r.ip (.ok reason) now])
            (.redis (.setex (blockedKey r.ip) 3600 "Exceeded 5 violations in 3600s")) :=
          ⟨rfl, by decide, .inr ⟨r, n, now', rfl, rfl, List.mem_cons_self, hmany⟩⟩
        refine .bind (.call hmay fun reply => ?_)
        obtain ⟨set, now''⟩ := reply
        have hanswer'' := List.mem_cons_of_mem (⟨.redis (.setex (blockedKey r.ip) 3600
          "Exceeded 5 violations in 3600s"), (set, now'')⟩ : Entry Op.Ret) hanswer'
        have hcheck'' := List.mem_cons_of_mem (⟨.redis (.setex (blockedKey r.ip) 3600
          "Exceeded 5 violations in 3600s"), (set, now'')⟩ : Entry Op.Ret) hcheck'
        cases set with
        | error msg => exact answered_of_throttled hanswer'' hcheck'' hfree fun _ _ _ h => by cases h
        | ok _ =>
          exact .pure (.throw (answered_of_throttled hanswer'' hcheck'' hfree
            fun _ _ _ h => by cases h))
      · have hrefused : ∀ e : Exc, Answered r (.error e)
            (⟨.redis (.eval (violationsKey r.ip) 3600), (.ok n, now')⟩ ::
              ⟨.superCanActivate, .exceeded message⟩ :: [checked r.ip (.ok reason) now]) := by
          refine fun e => answered_of_throttled hanswer' hcheck' hfree fun _ _ _ _ n' at' hmem => ?_
          obtain ⟨rfl, -⟩ : n' = n ∧ at' = now' := by simpa using hmem
          exact not_le.mp hfew
        refine .pure ?_
        cases r.message.filter (fun text => text ≠ "") with
        | some text => exact .throw (hrefused _)
        | none => exact .throw (hrefused _)

theorem follows_body (c : Call) : Follows (May c) (Returned c) ((system trusted).body c) [] := by
  cases c with
  | canActivate r =>
    refine (obeys_canActivate r).follows.bind fun x L hx => ?_
    obtain ⟨e | b, t⟩ := x
    · exact hx
    · exact hx
  | blockIp ip =>
    suffices h : Obeys (May (.blockIp ip)) (request trusted (.blockIp ip)) Anyhow Anyhow () [] from
      h.follows.bind fun _ _ _ => trivial
    refine .bind (.call ⟨rfl, by decide, .inl ⟨ip, rfl, rfl⟩⟩ fun reply => ?_)
    obtain ⟨set, now⟩ := reply
    cases set with
    | error msg => trivial
    | ok _ => exact .pure trivial
  | unblockIp ip =>
    suffices h : Obeys (May (.unblockIp ip)) (request trusted (.unblockIp ip)) Anyhow Anyhow () [] from
      h.follows.bind fun _ _ _ => trivial
    refine .bind (.call ⟨ip, rfl⟩ fun reply => ?_)
    obtain ⟨set, now⟩ := reply
    cases set with
    | error msg => trivial
    | ok _ => exact .pure trivial

end Disciplines

/-! ### Keys -/

theorem toList_blockedKey (ip : String) :
    (blockedKey ip).toList = "blocked_ip:".toList ++ ip.toList :=
  String.toList_append

theorem toList_violationsKey (ip : String) :
    (violationsKey ip).toList = "violations:".toList ++ ip.toList :=
  String.toList_append

/-- Counters and blocks have different keys. -/
theorem violationsKey_ne_blockedKey (ip ip' : String) : violationsKey ip ≠ blockedKey ip' := by
  intro h
  have hlist := congrArg (fun k : String => k.toList[0]?) h
  simp only [toList_violationsKey, toList_blockedKey] at hlist
  rw [List.getElem?_append_left (by decide), List.getElem?_append_left (by decide)] at hlist
  exact absurd hlist (by decide)

theorem blockedKey_injective : Function.Injective blockedKey := by
  intro ip ip' h
  have hlist := congrArg String.toList h
  rw [toList_blockedKey, toList_blockedKey, List.append_cancel_left_eq] at hlist
  exact String.toList_injective hlist

/-! ### What a command does -/

section Commands

variable {w w' : World} {pid : ℕ} {choice : Choice}

/-- The key that a command works on. -/
def Command.key : Command → String
  | eval key _ | setex key _ _ | get key | del key => key

theorem onlyOn_script (now : ℤ) (c : Command) : OnlyOn c.key (c.script now) := by
  cases c with
  | eval key window =>
    refine (onlyOn_incr now key).bind fun count => ?_
    split
    · exact (onlyOn_pexpire now key (window * 1000)).bind fun _ => .pure _
    · exact .pure _
  | setex key seconds value => exact onlyOn_setex now key seconds value
  | get key => exact onlyOn_get now key
  | del key => exact onlyOn_del key

/-- **What a command does**: it is run, or its caller learns nothing of what has become of it. -/
theorem exec_redis {c : Command} {found : Except String c.Value} {now : ℤ}
    (hexec : exec (.redis c) pid choice w = some ((found, now), w')) :
    w.clock ≤ now ∧ w'.clock = now ∧ ((found, w'.keys) = c.script now w.keys ∨
      ((∃ msg, found = .error msg) ∧ (w'.keys = w.keys ∨ w'.keys = (c.script now w.keys).2))) := by
  cases choice with
  | throttled answer => cases hexec
  | done ms =>
    rw [exec] at hexec
    split at hexec
    · next hclock =>
      cases hexec
      exact ⟨hclock, rfl, .inl rfl⟩
    · cases hexec
  | refused ms msg =>
    rw [exec] at hexec
    split at hexec
    · next hclock =>
      cases hexec
      exact ⟨hclock, rfl, .inr ⟨⟨msg, rfl⟩, .inl rfl⟩⟩
    · cases hexec
  | lost ms msg =>
    rw [exec] at hexec
    split at hexec
    · next hclock =>
      cases hexec
      exact ⟨hclock, rfl, .inr ⟨⟨msg, rfl⟩, .inr rfl⟩⟩
    · cases hexec

/-- The throttlers do not touch the keys of the service. -/
theorem exec_superCanActivate {answer : Throttled}
    (hexec : exec .superCanActivate pid choice w = some (answer, w')) : w' = w := by
  cases choice <;> cases hexec
  rfl

/-- Whatever becomes of a command, its script has changed the keys or nothing has. -/
theorem keys_exec {c : Command} {found : Except String c.Value} {now : ℤ}
    (hexec : exec (.redis c) pid choice w = some ((found, now), w')) :
    w'.keys = w.keys ∨ w'.keys = (c.script now w.keys).2 := by
  rcases (exec_redis hexec).2.2 with hrun | ⟨-, hkeys⟩
  · exact .inr (congrArg Prod.snd hrun)
  · exact hkeys

/-- A command changes no other key. -/
theorem keys_of_ne {c : Command} {found : Except String c.Value} {now : ℤ}
    (hexec : exec (.redis c) pid choice w = some ((found, now), w')) {key : String}
    (hkey : key ≠ c.key) : w'.keys key = w.keys key := by
  rcases keys_exec hexec with hsame | hrun
  · rw [hsame]
  · rw [hrun]
    exact onlyOn_script now c w.keys key hkey

/-- **The script** counts a violation, or fails on an overfull counter and changes nothing. -/
theorem violationLua_apply {s : Keyspace} {key : String} {window now : ℤ} {o : Option Window}
    (h : Holds s key o) (hpos : ∀ w, o = some w → 1 ≤ w.hits) (hwindow : 0 < window) :
    (∃ msg, VIOLATION_LUA key window now s = (.error msg, s)) ∨
      VIOLATION_LUA key window now s = (.ok ((hit (window * 1000) now o).hits : ℤ),
        Function.update s key (some (hit (window * 1000) now o).entry)) := by
  rcases @incr_of_holds s key now o h with ⟨w, msg, -, -, hincr⟩ | ⟨w, rfl, hopen, hincr⟩ |
    ⟨hpast, hincr⟩
  · exact .inl ⟨msg, Script.bind_of_error hincr⟩
  · have hhit : hit (window * 1000) now (some w) = ⟨w.hits + 1, w.last⟩ := if_pos hopen
    have := hpos w rfl
    refine .inr ?_
    rw [VIOLATION_LUA, Script.bind_of_ok hincr, if_neg (by omega), hhit]
    rfl
  · have hhit : hit (window * 1000) now o = ⟨1, now + window * 1000⟩ := by
      rcases hit_cases (window * 1000) now o with ⟨w, ho, hopen, -⟩ | ⟨-, hhit⟩
      · exact absurd (hpast w ho) (not_lt.mpr hopen)
      · exact hhit
    have hexpire : expire now key window (Function.update s key (some ⟨.str "1", none⟩)) =
        (.ok true, Function.update s key (some (Window.entry ⟨1, now + window * 1000⟩))) :=
      pexpire_new (by omega)
    refine .inr ?_
    rw [VIOLATION_LUA, Script.bind_of_ok hincr, if_pos rfl, Script.bind_of_ok hexpire, hhit]
    rfl

end Commands

/-! ### Violations are counted -/

section Counting

variable {trusted : String → Bool} {h h' : History} {ip : String} {times : List ℤ}

/-- `windowSeconds * 1000` -/
def violationWindow : ℤ := 3600 * 1000

/-- A violation of the address that is sent to Redis. -/
def violationOf (ip : String) : Event Op.Ret World Call (Except Exc Bool) → Option ℤ
  | .did _ (.redis (.eval key _)) reply _ => if key = violationsKey ip then some reply.2 else none
  | _ => none

/-- A violation that is answered: its call, its time and its number. -/
def answerOf (ip : String) : Event Op.Ret World Call (Except Exc Bool) → Option (ℕ × ℤ × ℤ)
  | .did pid (.redis (.eval key _)) (.ok count, now) _ =>
      if key = violationsKey ip then some (pid, now, count) else none
  | _ => none

/-- The times of the violations of an address. -/
def violations (ip : String) (es : Trace) : List ℤ := es.filterMap (violationOf ip)

/-- The violations of an address that are answered. -/
def answers (ip : String) (es : Trace) : List (ℕ × ℤ × ℤ) := es.filterMap (answerOf ip)

/-- The hits of a counter, with numbers as they are answered. -/
def numbers (times : List ℤ) : List (ℤ × ℤ) :=
  (numbered violationWindow times).map fun x => (x.1, (x.2 : ℤ))

/-- **The counter of an address** has counted violations at these times. -/
structure Counted (ip : String) (times : List ℤ) (h : History) : Prop where
  holds : Holds h.world.keys (violationsKey ip) (after violationWindow times)
  ascending : times.Pairwise fun x y => y ≤ x
  le_clock : ∀ x ∈ times, x ≤ h.world.clock
  sent : times.Sublist (violations ip h.trace)
  answered : ((answers ip h.trace).map Prod.snd).Sublist (numbers times)

/-- An operation on another key counts nothing. -/
theorem Counted.other (hc : Counted ip times h) {pid : ℕ} {o : Op} {r : o.Ret} {w : World}
    (hkeys : w.keys (violationsKey ip) = h.world.keys (violationsKey ip))
    (hclock : h.world.clock ≤ w.clock)
    (hevent : violationOf ip (.did pid o r h.world) = none ∧
      answerOf ip (.did pid o r h.world) = none) :
    Counted ip times (h.push (.did pid o r h.world) w) := by
  refine ⟨hkeys.trans hc.holds, hc.ascending, fun x hx => (hc.le_clock x hx).trans hclock, ?_, ?_⟩
  · rw [Hist.push_trace, violations, List.filterMap_cons_none hevent.1]
    exact hc.sent
  · rw [Hist.push_trace, answers, List.filterMap_cons_none hevent.2]
    exact hc.answered

/-- **A violation** is counted, or its answer is lost. -/
theorem Counted.violation (hc : Counted ip times h) {pid : ℕ} {choice : Choice}
    {found : Except String ℤ} {now : ℤ} {w : World}
    (hexec : exec (.redis (.eval (violationsKey ip) 3600)) pid choice h.world = some ((found, now), w)) :
    ∃ times', Counted ip times'
      (h.push (.did pid (.redis (.eval (violationsKey ip) 3600)) (found, now) h.world) w) := by
  obtain ⟨hclock, rfl, hrun⟩ := exec_redis hexec
  have hsent : violations ip
      (.did pid (.redis (.eval (violationsKey ip) 3600)) (found, w.clock) h.world :: h.trace) =
        w.clock :: violations ip h.trace :=
    List.filterMap_cons_some (if_pos rfl)
  have hpast : ∀ x ∈ times, x ≤ w.clock := fun x hx => (hc.le_clock x hx).trans hclock
  -- nothing has been counted
  have hnone : (∃ msg, found = .error msg) → w.keys = h.world.keys → Counted ip times
      (h.push (.did pid (.redis (.eval (violationsKey ip) 3600)) (found, w.clock) h.world) w) := by
    rintro ⟨msg, rfl⟩ hkeys
    refine ⟨(congrFun hkeys _).trans hc.holds, hc.ascending, hpast, ?_, ?_⟩
    · rw [Hist.push_trace, hsent]
      exact hc.sent.cons _
    · rw [Hist.push_trace, answers, List.filterMap_cons_none rfl]
      exact hc.answered
  -- a hit has been counted
  have hsome : (∀ n, found = .ok n → n =
        ((hit violationWindow w.clock (after violationWindow times)).hits : ℤ)) →
      w.keys = Function.update h.world.keys (violationsKey ip)
        (some (hit violationWindow w.clock (after violationWindow times)).entry) →
      Counted ip (w.clock :: times)
        (h.push (.did pid (.redis (.eval (violationsKey ip) 3600)) (found, w.clock) h.world) w) := by
    intro hnumber hkeys
    refine ⟨?_, List.pairwise_cons.mpr ⟨hpast, hc.ascending⟩,
      List.forall_mem_cons.mpr ⟨le_rfl, hpast⟩, ?_, ?_⟩
    · rw [Hist.push_world, hkeys]
      exact holds_update ..
    · rw [Hist.push_trace, hsent]
      exact hc.sent.cons_cons _
    · rw [Hist.push_trace, answers]
      cases found with
      | error msg =>
        rw [List.filterMap_cons_none rfl]
        exact hc.answered.cons _
      | ok n =>
        have hanswer : answerOf ip (.did pid (.redis (.eval (violationsKey ip) 3600))
            (.ok n, w.clock) h.world) = some (pid, w.clock, n) := if_pos rfl
        rw [List.filterMap_cons_some hanswer, List.map_cons, hnumber n rfl]
        exact hc.answered.cons_cons _
  rcases @violationLua_apply _ _ 3600 w.clock _ hc.holds (fun _ h => pos_of_after h)
    (by decide : (0 : ℤ) < 3600) with ⟨msg, hfails⟩ | hcounts
  · refine ⟨times, ?_⟩
    rcases hrun with hdone | ⟨herror, hkeys | hkeys⟩
    · obtain ⟨hfound, hkeys⟩ := Prod.mk.inj (hdone.trans hfails)
      exact hnone ⟨msg, hfound⟩ hkeys
    · exact hnone herror hkeys
    · exact hnone herror (hkeys.trans (congrArg Prod.snd hfails))
  · rcases hrun with hdone | ⟨herror, hkeys | hkeys⟩
    · obtain ⟨hfound, hkeys⟩ := Prod.mk.inj (hdone.trans hcounts)
      refine ⟨_, hsome (fun n hn => ?_) hkeys⟩
      exact (Except.ok.inj (hfound.symm.trans hn)).symm
    · exact ⟨_, hnone herror hkeys⟩
    · refine ⟨_, hsome (fun n hn => ?_) (hkeys.trans (congrArg Prod.snd hcounts))⟩
      obtain ⟨msg, rfl⟩ := herror
      cases hn

/-- The clock does not go back. -/
theorem clock_exec {o : Op} {pid : ℕ} {choice : Choice} {w w' : World} {r : o.Ret}
    (hexec : exec o pid choice w = some (r, w')) : w.clock ≤ w'.clock := by
  cases o with
  | superCanActivate => rw [exec_superCanActivate hexec]
  | redis c =>
    obtain ⟨found, now⟩ := r
    obtain ⟨hclock, rfl, -⟩ := exec_redis hexec
    exact hclock

/-- **One step** keeps the counter of an address. -/
theorem Counted.step (hc : Counted ip times h) (hs : HistStep (system trusted) May h h') :
    ∃ times', Counted ip times' h' := by
  cases hs with
  | idle e he hlive =>
    have hnone : violationOf ip e = none ∧ answerOf ip e = none := by
      cases e with
      | did pid o r w => exact absurd rfl (not_did_of_log he pid o r w)
      | _ => exact ⟨rfl, rfl⟩
    refine ⟨times, hc.holds, hc.ascending, hc.le_clock, ?_, ?_⟩
    · rw [Hist.push_trace, violations, List.filterMap_cons_none hnone.1]
      exact hc.sent
    · rw [Hist.push_trace, answers, List.filterMap_cons_none hnone.2]
      exact hc.answered
  | did pid c o choice r w hstart hmay hexec hlive =>
    have hclock : h.world.clock ≤ w.clock := clock_exec hexec
    cases o with
    | superCanActivate =>
      obtain rfl := exec_superCanActivate hexec
      exact ⟨times, hc.other rfl hclock ⟨rfl, rfl⟩⟩
    | redis command =>
      obtain ⟨found, now⟩ := r
      by_cases hkey : violationsKey ip = command.key
      · cases command with
        | eval key window =>
          obtain ⟨rfl, -⟩ := hmay
          obtain rfl : violationsKey ip = key := hkey
          exact hc.violation hexec
        | get key =>
          have hkeys : w.keys = h.world.keys := by
            rcases keys_exec hexec with hsame | hrun
            · exact hsame
            · rw [hrun]
              change (Redis.get now key h.world.keys).2 = h.world.keys
              unfold Redis.get
              split <;> rfl
          exact ⟨times, hc.other (congrFun hkeys _) hclock ⟨rfl, rfl⟩⟩
        | setex key seconds value =>
          obtain ⟨-, -, ⟨ip', -, rfl⟩ | ⟨r, n, now', -, rfl, -⟩⟩ := hmay
          · exact absurd hkey (violationsKey_ne_blockedKey ip ip')
          · exact absurd hkey (violationsKey_ne_blockedKey ip r.ip)
        | del key =>
          obtain ⟨ip', rfl⟩ := hmay
          exact absurd hkey (violationsKey_ne_blockedKey ip ip')
      · refine ⟨times, hc.other (keys_of_ne hexec hkey) hclock ?_⟩
        cases command with
        | eval key window =>
          have hne : key ≠ violationsKey ip := fun heq => hkey heq.symm
          refine ⟨if_neg hne, ?_⟩
          cases found with
          | error msg => rfl
          | ok n => exact if_neg hne
        | _ => exact ⟨rfl, rfl⟩

/-- **Every run** keeps the counter of an address. -/
theorem counted_of_reachable {w : World} (hw : w.keys (violationsKey ip) = none) {s : RunState}
    (hr : (system trusted).Reachable (.init w) s) : ∃ times, Counted ip times s.hist := by
  refine hist_invariant follows_body (I := fun h => ∃ times, Counted ip times h)
    ⟨[], hw, List.Pairwise.nil, fun x hx => absurd hx List.not_mem_nil, List.Sublist.refl _,
      List.Sublist.refl _⟩ (fun _ _ _ _ hI hs _ => ?_) hr
  obtain ⟨times, hc⟩ := hI
  exact hc.step hs

/-- A violation that its call has had answered. -/
theorem mem_answers {pid : ℕ} {window n now : ℤ} {es : Trace}
    (h : ⟨.redis (.eval (violationsKey ip) window), (.ok n, now)⟩ ∈ log pid es) :
    (pid, now, n) ∈ answers ip es := by
  obtain ⟨w, hdid⟩ := mem_log.mp h
  exact List.mem_filterMap.mpr ⟨_, hdid, if_pos rfl⟩

/-- A violation of the last hour before `t` whose number does not block the address. -/
def isLow (t : ℤ) (x : ℤ × ℤ) : Bool := x.2 < 5 ∧ t - violationWindow ≤ x.1 ∧ x.1 ≤ t

theorem countP_numbers (t : ℤ) (times : List ℤ) : (numbers times).countP (isLow t) =
    early 4 (t - violationWindow) t (numbered violationWindow times) := by
  rw [numbers, List.countP_map, early]
  refine List.countP_congr fun x _ => ?_
  simp only [Function.comp_apply, isLow, decide_eq_true_eq]
  omega

/-- **At most seven violations** within an hour are answered with a number below five. -/
theorem Counted.few (hc : Counted ip times h) {t : ℤ} {pids : List ℕ} (hpids : pids.Nodup)
    (hall : ∀ pid ∈ pids, ∃ n now, (pid, now, n) ∈ answers ip h.trace ∧ n < 5 ∧
      t - violationWindow ≤ now ∧ now ≤ t) : pids.length ≤ 7 := by
  have hsub : pids ⊆ ((answers ip h.trace).filter fun x => isLow t x.2).map Prod.fst := by
    intro pid hpid
    obtain ⟨n, now, hmem, hlow⟩ := hall pid hpid
    exact List.mem_map.mpr ⟨(pid, now, n), List.mem_filter.mpr ⟨hmem, decide_eq_true hlow⟩, rfl⟩
  have hlength : pids.length ≤ ((answers ip h.trace).map Prod.snd).countP (isLow t) := by
    have hle := (List.subperm_of_subset hpids hsub).length_le
    rw [List.length_map, ← List.countP_eq_length_filter] at hle
    rwa [List.countP_map]
  have hanswered := hc.answered.countP_le (p := isLow t)
  rw [countP_numbers] at hanswered
  have hearly := @early_numbered_le violationWindow 4 times (by decide) (by decide) hc.ascending t
  omega

end Counting

/-- **At most seven requests** of an address that exceed a rate limit within an hour are answered
429: an eighth one has blocked the address, or was not counted because Redis failed. -/
theorem refused_le (trusted : String → Bool) {ip : String} {w : World}
    (hw : w.keys (violationsKey ip) = none) {s : RunState}
    (hr : (system trusted).Reachable (.init w) s) {t : ℤ} {pids : List ℕ} (hpids : pids.Nodup)
    (hrefused : ∀ pid ∈ pids, ∃ r message text,
      Event.start pid (.canActivate r) ∈ s.hist.trace ∧ r.ip = ip ∧
      ⟨.superCanActivate, .exceeded text⟩ ∈ log pid s.hist.trace ∧
      Event.returned pid (.error (.http 429 message)) ∈ s.hist.trace)
    (hcounted : ∀ pid ∈ pids, ∃ n now,
      ⟨.redis (.eval (violationsKey ip) 3600), (.ok n, now)⟩ ∈ log pid s.hist.trace ∧
      t - violationWindow ≤ now ∧ now ≤ t) : pids.length ≤ 7 := by
  obtain ⟨times, hc⟩ := counted_of_reachable hw hr
  have hd := disciplined_of_reachable follows_body hr
  refine @Counted.few s.hist ip times hc t pids hpids fun pid hpid => ?_
  obtain ⟨r, message, text, hstart, rfl, hexceeded, hret⟩ := hrefused pid hpid
  obtain ⟨n, now, hmem, hin⟩ := hcounted pid hpid
  have hanswered : Answered r (.error (.http 429 message)) (log pid s.hist.trace) :=
    hd.returned pid _ _ hstart hret
  exact ⟨n, now, mem_answers hmem, hanswered.refused message text hexceeded rfl n now hmem, hin⟩

namespace Sample

/-- A request from some address. -/
def request : Request where
  ip := "10.0.0.1"

/-- A request that exceeds a rate limit. -/
def violation (pid : ℕ) (now : ℤ) : List (Move Choice Call) :=
  [.start (.canActivate request), .run pid (.done now),
    .run pid (.throttled (.exceeded "Too Many Requests")), .run pid (.done now), .finish pid]

/-- The violations of the last hour, with their times and numbers: three are counted with one before
them, and four once the counter has expired. -/
def violations : List (ℕ × ℤ × ℤ) :=
  [(1, 3599000, 2), (2, 3599000, 3), (3, 3599000, 4),
    (4, 3600001, 1), (5, 3600001, 2), (6, 3600001, 3), (7, 3600001, 4)]

/-- The run of the violations. -/
def moves : List (Move Choice Call) :=
  violation 0 0 ++ violations.flatMap fun v => violation v.1 v.2.1

/-- Nothing is stored, and nobody is trusted. -/
def world : World where
  keys _ := none

/-- The counter is known: no run of these has to read its digits. -/
theorem integer?_eq : integer? = fun value =>
    if value = "1" then .ok 1 else if value = "2" then .ok 2 else if value = "3" then .ok 3
    else integer? value := by
  funext value
  split
  next hone => exact hone ▸ integer?_toString (n := 1) (by decide) (by decide)
  next =>
    split
    next htwo => exact htwo ▸ integer?_toString (n := 2) (by decide) (by decide)
    next =>
      split
      next hthree => exact hthree ▸ integer?_toString (n := 3) (by decide) (by decide)
      next => rfl

/-- The violation is answered 429, and counted at its time. -/
def answers (v : ℕ × ℤ × ℤ) (es : Trace) : Bool :=
  es.any (Event.isStart v.1 (.canActivate request)) &&
  es.any (Event.isReturned v.1 (.error (.http 429 "Too Many Requests"))) &&
  decide (⟨.superCanActivate, .exceeded "Too Many Requests"⟩ ∈ log v.1 es) &&
  decide (⟨.redis (.eval (violationsKey "10.0.0.1") 3600), (.ok v.2.2, v.2.1)⟩ ∈ log v.1 es)

end Sample

/-- **Seven violations** of one address within an hour, in two windows of its counter, are answered
429. -/
theorem refused_le_twoWindows : ∃ s : RunState,
    (system fun _ => false).Reachable (.init Sample.world) s ∧
    (∀ v ∈ Sample.violations,
      Event.returned v.1 (.error (.http 429 "Too Many Requests")) ∈ s.hist.trace) ∧
    (Sample.violations.map Prod.fst).length ≤ 7 := by
  obtain ⟨s, hr, hs⟩ := System.exists_of_replay (system fun _ => false) (fun _ _ => True)
    (.init Sample.world) Sample.moves
    (fun s => Sample.violations.all fun v => Sample.answers v s.hist.trace)
    (by
      delta system exec Command.script VIOLATION_LUA incr
      rw [Sample.integer?_eq]
      decide +kernel)
  have hanswers : ∀ v ∈ Sample.violations, Sample.answers v s.hist.trace = true := List.all_eq_true.mp hs
  simp only [Sample.answers, Bool.and_eq_true, decide_eq_true_eq] at hanswers
  have hret : ∀ v ∈ Sample.violations,
      Event.returned v.1 (.error (.http 429 "Too Many Requests")) ∈ s.hist.trace :=
    fun v hv => mem_of_isReturned (hanswers v hv).1.1.2
  refine ⟨s, hr, hret, @refused_le (fun _ => false) "10.0.0.1" Sample.world rfl s hr 3600001 _
    (by decide) (List.forall_mem_map.mpr fun v hv => ?_) (List.forall_mem_map.mpr fun v hv => ?_)⟩
  · obtain ⟨⟨⟨hasks, -⟩, hexceeded⟩, -⟩ := hanswers v hv
    exact ⟨Sample.request, _, _, mem_of_isStart hasks, rfl, hexceeded, hret v hv⟩
  · have htime : 3600001 - violationWindow ≤ v.2.1 ∧ v.2.1 ≤ 3600001 := by
      revert v
      decide
    exact ⟨v.2.2, v.2.1, (hanswers v hv).2, htime⟩

/-! ### Addresses are blocked -/

section Blocking

variable {trusted : String → Bool} {h h' : History} {ip : String}

/-- `duration * 1000` -/
def blockDuration : ℤ := 3600 * 1000

/-- The entry of a command that blocks an address. -/
abbrev blocks (ip reason : String) (reply : Except String Unit) (now : ℤ) : Entry Op.Ret :=
  ⟨.redis (.setex (blockedKey ip) 3600 reason), (reply, now)⟩

/-- What a block looks like: it was set at `now`. -/
def blockEntry (reason : String) (now : ℤ) : Redis.Entry := ⟨.str reason, some (now + blockDuration)⟩

/-- **Every block** was set by a call. -/
def BlockedBy (h : History) : Prop :=
  ∀ ip e, h.world.keys (blockedKey ip) = some e → ∃ reason now p reply, e = blockEntry reason now ∧
    reason ≠ "" ∧ now ≤ h.world.clock ∧ blocks ip reason reply now ∈ log p h.trace

/-- **Every block that is found** was set within the hour before. -/
def Found (h : History) : Prop :=
  ∀ pid ip reason now, checked ip (.ok (some reason)) now ∈ log pid h.trace →
    ∃ set p reply, blocks ip reason reply set ∈ log p h.trace ∧ set ≤ now ∧ now ≤ set + blockDuration

/-- What becomes of the block of an address: it stays, it is set, or it is lifted. -/
theorem block_exec {c : Command} {pid : ℕ} {choice : Choice} {w w' : World}
    {found : Except String c.Value} {now : ℤ} {call : Call} {L : Log Op.Ret}
    (hexec : exec (.redis c) pid choice w = some ((found, now), w')) (hmay : May call L (.redis c)) :
    w'.keys (blockedKey ip) = w.keys (blockedKey ip) ∨
      (∃ reason, reason ≠ "" ∧ c = .setex (blockedKey ip) 3600 reason ∧
        w'.keys (blockedKey ip) = some (blockEntry reason now)) ∨
      (c = .del (blockedKey ip) ∧ w'.keys (blockedKey ip) = none) := by
  by_cases hkey : blockedKey ip = c.key
  · rcases keys_exec hexec with hsame | hrun
    · exact .inl (congrFun hsame _)
    cases c with
    | eval key window =>
      obtain ⟨-, ip', rfl⟩ := hmay
      exact absurd hkey.symm (violationsKey_ne_blockedKey ip' ip)
    | get key =>
      refine .inl ?_
      rw [hrun]
      change (Redis.get now key w.keys).2 _ = _
      unfold Redis.get
      split <;> rfl
    | setex key seconds reason =>
      obtain ⟨rfl, hreason, -⟩ := hmay
      obtain rfl : blockedKey ip = key := hkey
      refine .inr (.inl ⟨reason, hreason, rfl, ?_⟩)
      rw [hrun]
      exact Function.update_self ..
    | del key =>
      obtain rfl : blockedKey ip = key := hkey
      refine .inr (.inr ⟨rfl, ?_⟩)
      rw [hrun]
      exact Function.update_self ..
  · exact .inl (keys_of_ne hexec hkey)

theorem BlockedBy.step (hb : BlockedBy h) (hs : HistStep (system trusted) May h h') :
    BlockedBy h' := by
  have hsuffix := hs.log_suffix
  intro ip e he
  have hold : h'.world.keys (blockedKey ip) = h.world.keys (blockedKey ip) →
      h.world.clock ≤ h'.world.clock → ∃ reason now p reply, e = blockEntry reason now ∧
        reason ≠ "" ∧ now ≤ h'.world.clock ∧ blocks ip reason reply now ∈ log p h'.trace := by
    intro hkeys hclock
    obtain ⟨reason, now, p, reply, heq, hreason, hnow, hmem⟩ := hb ip e (hkeys.symm.trans he)
    exact ⟨reason, now, p, reply, heq, hreason, hnow.trans hclock, (hsuffix p).subset hmem⟩
  cases hs with
  | idle e he hlive => exact hold rfl le_rfl
  | did pid c o choice r w hstart hmay hexec hlive =>
    cases o with
    | superCanActivate =>
      obtain rfl := exec_superCanActivate hexec
      exact hold rfl le_rfl
    | redis command =>
      obtain ⟨found, now⟩ := r
      rcases @block_exec ip _ _ _ _ _ _ _ _ _ hexec hmay with hkeys | ⟨reason, hreason, rfl, hkeys⟩ | ⟨-, hkeys⟩
      · exact hold hkeys (clock_exec hexec)
      · obtain rfl := Option.some.inj (hkeys.symm.trans he)
        refine ⟨reason, now, pid, found, rfl, hreason, (exec_redis hexec).2.1.ge, ?_⟩
        rw [Hist.push_trace, log_did_self]
        exact List.mem_cons_self
      · exact absurd (hkeys.symm.trans he) nofun

/-- What a check that is answered has found. -/
theorem exec_get {pid : ℕ} {choice : Choice} {w w' : World} {key : String}
    {found : Option String} {now : ℤ}
    (hexec : exec (.redis (.get key)) pid choice w = some ((.ok found, now), w')) :
    (found = none ∧ w.keys.live now key = none) ∨
      ∃ reason expiresAt, found = some reason ∧ w.keys.live now key = some ⟨.str reason, expiresAt⟩ := by
  rcases (exec_redis hexec).2.2 with hrun | ⟨⟨msg, hmsg⟩, -⟩
  · have hfound : (.ok found : Except String (Option String)) = (Redis.get now key w.keys).1 :=
      congrArg Prod.fst hrun
    unfold Redis.get at hfound
    split at hfound
    · next hlive => exact .inl ⟨Except.ok.inj hfound, hlive⟩
    · next value expiresAt hlive => exact .inr ⟨value, expiresAt, Except.ok.inj hfound, hlive⟩
    · cases hfound
  · cases hmsg

theorem Found.step (hf : Found h) (hb : BlockedBy h) (hs : HistStep (system trusted) May h h') :
    Found h' := by
  intro pid ip reason now hmem
  rcases hs.mem_log hmem with hold | ⟨choice, hexec⟩
  · obtain ⟨set, p, reply, hset, hbounds⟩ := hf pid ip reason now hold
    exact ⟨set, p, reply, (hs.log_suffix p).subset hset, hbounds⟩
  · have hclock := (exec_redis hexec).1
    rcases exec_get hexec with ⟨heq, -⟩ | ⟨reason', expiresAt, heq, hlive⟩
    · cases heq
    obtain rfl := Option.some.inj heq
    obtain ⟨hkeys, hopen⟩ := of_live hlive
    obtain ⟨reason', set, p, reply, heq, -, hset, hmem'⟩ := hb ip _ hkeys
    obtain ⟨hvalue, rfl⟩ := Redis.Entry.mk.inj heq
    obtain rfl := Redis.Value.str.inj hvalue
    exact ⟨set, p, reply, (hs.log_suffix p).subset hmem', hset.trans hclock,
      of_decide_eq_true hopen⟩

/-- What every run keeps. -/
theorem kept_of_reachable {w : World} (hw : ∀ ip, w.keys (blockedKey ip) = none) {s : RunState}
    (hr : (system trusted).Reachable (.init w) s) : BlockedBy s.hist ∧ Found s.hist :=
  hist_invariant follows_body (I := fun h => BlockedBy h ∧ Found h)
    ⟨fun ip _ he => absurd ((hw ip).symm.trans he) nofun,
      fun _ _ _ _ hmem => absurd hmem List.not_mem_nil⟩
    (fun _ _ _ _ hI hs _ => ⟨hI.1.step hs, hI.2.step hI.1 hs⟩) hr

end Blocking

/-- **An address is denied for a reason**: the block that a request has found was set within the hour
before, by an administrator or by a request that was one of five violations within an hour. -/
theorem deserved_of_denied (trusted : String → Bool) {w : World}
    (hblocked : ∀ ip, w.keys (blockedKey ip) = none) {r : Request}
    (hviolations : w.keys (violationsKey r.ip) = none) {s : RunState}
    (hr : (system trusted).Reachable (.init w) s) {pid : ℕ} {reason : String}
    (hstart : Event.start pid (.canActivate r) ∈ s.hist.trace)
    (hret : Event.returned pid (.error (accessDenied reason)) ∈ s.hist.trace)
    (hfirst : ∀ answer, ⟨.superCanActivate, answer⟩ ∉ log pid s.hist.trace) :
    ∃ now set p reply, checked r.ip (.ok (some reason)) now ∈ log pid s.hist.trace ∧
      blocks r.ip reason reply set ∈ log p s.hist.trace ∧ set ≤ now ∧ now ≤ set + blockDuration ∧
      (Event.start p (.blockIp r.ip) ∈ s.hist.trace ∨ ∃ n counted t,
        ⟨.redis (.eval (violationsKey r.ip) 3600), (.ok n, counted)⟩ ∈ log p s.hist.trace ∧
        t - violationWindow ≤ counted ∧ counted ≤ t ∧
        5 ≤ between (t - violationWindow) t (violations r.ip s.hist.trace)) := by
  have hd := disciplined_of_reachable follows_body hr
  obtain ⟨-, hfound⟩ := kept_of_reachable hblocked hr
  obtain ⟨times, hc⟩ := counted_of_reachable hviolations hr
  have hanswered : Answered r (.error (accessDenied reason)) (log pid s.hist.trace) :=
    hd.returned pid _ _ hstart hret
  obtain ⟨now, hnow⟩ := hanswered.denied reason hfirst rfl
  obtain ⟨set, p, reply, hset, hbefore, hafter⟩ := hfound pid r.ip reason now hnow
  refine ⟨now, set, p, reply, hnow, hset, hbefore, hafter, ?_⟩
  -- who has set the block
  obtain ⟨before, hdid⟩ := mem_log.mp hset
  obtain ⟨c, hcall⟩ := hd.start_mem _ hdid
  obtain ⟨L, hL, -, -, hdeserves⟩ := (hd.lawful p c hcall).allowed hset
  rcases hdeserves with ⟨ip, rfl, hkey⟩ | ⟨r', n, counted, rfl, hkey, hcounted, hmany⟩
  · obtain rfl : r.ip = ip := blockedKey_injective hkey
    exact .inl hcall
  · have hip : r.ip = r'.ip := blockedKey_injective hkey
    have hlog : ⟨.redis (.eval (violationsKey r.ip) 3600), (.ok n, counted)⟩ ∈ log p s.hist.trace := by
      rw [hip]
      exact hL.subset (List.mem_cons_of_mem _ hcounted)
    have hnumber := hc.answered.subset (List.mem_map_of_mem (mem_answers hlog))
    obtain ⟨⟨counted', k⟩, hk, heq⟩ := List.mem_map.mp hnumber
    obtain ⟨rfl, rfl⟩ := Prod.mk.inj heq
    obtain ⟨t, hfrom, hto, hbetween⟩ := exists_of_mem_numbered (by decide) hc.ascending hk
    refine .inr ⟨_, counted', t, hlog, hfrom, hto, ?_⟩
    have hle : between (t - violationWindow) t times ≤
        between (t - violationWindow) t (violations r.ip s.hist.trace) := hc.sent.countP_le
    have hfive : (5 : ℤ) ≤ (k : ℤ) := hmany
    omega

namespace Sample

/-- An administrator blocks the address, and its next request is denied. -/
def denied : List (Move Choice Call) :=
  [.start (.blockIp "10.0.0.1"), .run 0 (.done 0), .finish 0,
    .start (.canActivate request), .run 1 (.done 5), .finish 1]

end Sample

/-- A request is denied because an administrator has blocked its address. -/
theorem deserved_of_denied_admin : ∃ (s : RunState) (set : ℤ) (p : ℕ) (reply : Except String Unit),
    (system fun _ => false).Reachable (.init Sample.world) s ∧
    Event.returned 1 (.error (accessDenied "Manually blocked by admin")) ∈ s.hist.trace ∧
    blocks "10.0.0.1" "Manually blocked by admin" reply set ∈ log p s.hist.trace := by
  obtain ⟨s, hr, hs⟩ := System.exists_of_replay (system fun _ => false) (fun _ _ => True)
    (.init Sample.world) Sample.denied (fun s =>
      s.hist.trace.any (Event.isStart 1 (.canActivate Sample.request)) &&
      s.hist.trace.any (Event.isReturned 1 (.error (accessDenied "Manually blocked by admin"))) &&
      (log 1 s.hist.trace).all fun e => e.1 != .superCanActivate)
    (by decide +kernel)
  simp only [Bool.and_eq_true] at hs
  obtain ⟨⟨hasks, hdenied⟩, hfirst⟩ := hs
  have hret := mem_of_isReturned hdenied
  obtain ⟨-, set, p, reply, -, hset, -⟩ := deserved_of_denied (fun _ => false) (fun _ => rfl) rfl hr
    (mem_of_isStart hasks) hret fun answer hmem => by
      simpa using List.all_eq_true.mp hfirst _ hmem
  exact ⟨s, set, p, reply, hr, hret, hset⟩

/-! ### A block holds -/

section Holding

variable {trusted : String → Bool} {h h' : History} {ip : String} {e : ℤ} {started : ℕ}

/-- The address is blocked until `e`, and the calls from `started` on have found it so. -/
structure Barred (ip : String) (e : ℤ) (started : ℕ) (h : History) : Prop where
  blocked : ∃ reason expiresAt, h.world.keys (blockedKey ip) = some ⟨.str reason, some expiresAt⟩ ∧
    reason ≠ "" ∧ e ≤ expiresAt
  recent : e ≤ h.world.clock + blockDuration
  found : ∀ pid, started ≤ pid → ∀ found now,
    checked ip (.ok found) now ∈ log pid h.trace → now ≤ e →
      ∃ reason, found = some reason ∧ reason ≠ ""

theorem Barred.step (hb : Barred ip e started h) (hs : HistStep (system trusted) May h h')
    (hkept : h'.world.keys (blockedKey ip) = none → h.world.keys (blockedKey ip) = none) :
    Barred ip e started h' := by
  obtain ⟨reason, expiresAt, hkey, hreason, hlate⟩ := hb.blocked
  have hfound : ∀ pid, started ≤ pid → ∀ found now,
      checked ip (.ok found) now ∈ log pid h'.trace → now ≤ e →
        ∃ reason, found = some reason ∧ reason ≠ "" := by
    intro pid hpid found now hmem hnow
    rcases hs.mem_log hmem with hold | ⟨choice, hexec⟩
    · exact hb.found pid hpid found now hold hnow
    · have hlive : h.world.keys.live now (blockedKey ip) = some ⟨.str reason, some expiresAt⟩ := by
        rw [Keyspace.live, hkey]
        exact Option.filter_eq_some_iff.mpr ⟨rfl, decide_eq_true (hnow.trans hlate)⟩
      rcases exec_get hexec with ⟨-, hnone⟩ | ⟨reason', expiresAt', hsome, hlive'⟩
      · exact absurd (hlive.symm.trans hnone) (Option.some_ne_none _)
      · obtain ⟨hvalue, -⟩ := Redis.Entry.mk.inj (Option.some.inj (hlive'.symm.trans hlive))
        obtain rfl := Redis.Value.str.inj hvalue
        exact ⟨reason', hsome, hreason⟩
  cases hs with
  | idle e he hlive => exact ⟨⟨reason, expiresAt, hkey, hreason, hlate⟩, hb.recent, hfound⟩
  | did pid c o choice r w hstart hmay hexec hlive =>
    have hrecent : e ≤ w.clock + blockDuration := by
      have := hb.recent
      have := clock_exec hexec
      omega
    refine ⟨?_, hrecent, hfound⟩
    cases o with
    | superCanActivate =>
      obtain rfl := exec_superCanActivate hexec
      exact ⟨reason, expiresAt, hkey, hreason, hlate⟩
    | redis command =>
      obtain ⟨found, now⟩ := r
      rcases @block_exec ip _ _ _ _ _ _ _ _ _ hexec hmay with hkeys | ⟨reason', hreason', -, hkeys⟩ | ⟨-, hkeys⟩
      · exact ⟨reason, expiresAt, hkeys.trans hkey, hreason, hlate⟩
      · obtain ⟨-, rfl, -⟩ := exec_redis hexec
        exact ⟨reason', _, hkeys, hreason', hrecent⟩
      · rw [hkept hkeys] at hkey
        cases hkey

end Holding

/-- **A blocked address does not get in**: from a state on in which it is blocked until `e`, and as
long as nobody lifts the block, no request passes that starts later and is checked by then. -/
theorem not_allowed_of_blocked (trusted : String → Bool) {w : World}
    (hw : ∀ ip, w.keys (blockedKey ip) = none) {s₁ s : RunState}
    (hr₁ : (system trusted).Reachable (.init w) s₁) {r : Request} {value : Redis.Value} {e : ℤ}
    (hblocked : s₁.hist.world.keys (blockedKey r.ip) = some ⟨value, some e⟩)
    (hr : (system trusted).ReachableWhen (fun h h' =>
      h'.world.keys (blockedKey r.ip) = none → h.world.keys (blockedKey r.ip) = none) s₁ s)
    {pid : ℕ} (hlater : s₁.started ≤ pid)
    (hstart : Event.start pid (.canActivate r) ∈ s.hist.trace) (hskip : r.skipRateLimit = false)
    (hchecked : ∀ found now, checked r.ip found now ∈ log pid s.hist.trace → now ≤ e) :
    Event.returned pid (.ok true) ∉ s.hist.trace := by
  intro hret
  have hr' : (system trusted).Reachable (.init w) s := hr₁.trans (hr.mono fun _ _ _ => trivial)
  have hl : System.Lifecycle s₁ := (hr₁.rule (J := fun _ => True) trivial fun _ _ _ _ _ _ _ => trivial).1
  obtain ⟨reason, set, -, -, heq, hreason, hset, -⟩ := (kept_of_reachable hw hr₁).1 r.ip _ hblocked
  obtain ⟨rfl, hexpires⟩ := Redis.Entry.mk.inj heq
  obtain rfl := Option.some.inj hexpires
  have hbarred : Barred r.ip (set + blockDuration) s₁.started s.hist := by
    refine hist_invariant_from follows_body (I := Barred r.ip (set + blockDuration) s₁.started) hr₁
      ⟨⟨reason, _, hblocked, hreason, le_rfl⟩, by omega, fun p hp _ _ hmem => ?_⟩
      (fun _ _ _ _ hI hs hkept => hI.step hs hkept) hr
    rw [log_eq_nil_of_le hl hp] at hmem
    cases hmem
  have hanswered : Answered r (.ok true) (log pid s.hist.trace) :=
    (disciplined_of_reachable follows_body hr').returned pid _ _ hstart hret
  rcases hanswered.passed rfl with hskipped | ⟨found, now, hmem, hfree⟩
  · rw [hskip] at hskipped
    cases hskipped
  · obtain ⟨reason', rfl, hreason'⟩ := hbarred.found pid hlater found now hmem (hchecked _ _ hmem)
    have hkeep : (some reason').filter (fun text => decide (text ≠ "")) = some reason' :=
      Option.filter_eq_some_iff.mpr ⟨rfl, decide_eq_true hreason'⟩
    rw [hkeep] at hfree
    cases hfree

namespace Sample

/-- An administrator blocks the address. -/
def blocked : List (Move Choice Call) :=
  [.start (.blockIp "10.0.0.1"), .run 0 (.done 0), .finish 0]

/-- A request that is checked an hour later. -/
def later : List (Move Choice Call) :=
  [.start (.canActivate request), .run 1 (.done 3600000), .finish 1]

/-- The event is no check after the first hour. -/
def inHour : Event Op.Ret World Call (Except Exc Bool) → Bool
  | .did _ (.redis (.get _)) (_, now) _ => now ≤ 3600000
  | _ => true

end Sample

/-- At the end of its hour the block still holds. -/
theorem not_allowed_of_blocked_later : ∃ s : RunState,
    (system fun _ => false).Reachable (.init Sample.world) s ∧
    Event.start 1 (.canActivate Sample.request) ∈ s.hist.trace ∧
    Event.returned 1 (.ok true) ∉ s.hist.trace := by
  obtain ⟨s₁, hs₁, hrest⟩ := System.exists_of_any (x := (system fun _ => false).replay
    (fun _ _ => True) (.init Sample.world) Sample.blocked) (p := fun s₁ => s₁.started == 1 &&
      decide (s₁.hist.world.keys (blockedKey "10.0.0.1") =
        some ⟨.str "Manually blocked by admin", some 3600000⟩) &&
      ((system fun _ => false).replay (fun h h' => h'.world.keys (blockedKey "10.0.0.1") = none →
        h.world.keys (blockedKey "10.0.0.1") = none) s₁ Sample.later).any fun s =>
          s.hist.trace.any (Event.isStart 1 (.canActivate Sample.request)) &&
          s.hist.trace.all Sample.inHour)
    (by decide +kernel)
  simp only [Bool.and_eq_true, beq_iff_eq, decide_eq_true_eq] at hrest
  obtain ⟨⟨hstarted, hkey⟩, hrest⟩ := hrest
  obtain ⟨s, hs, htests⟩ := System.exists_of_any hrest
  obtain ⟨hasks, htime⟩ := Bool.and_eq_true_iff.mp htests
  have hr₁ := System.reachableWhen_of_replay hs₁
  have hr := System.reachableWhen_of_replay hs
  have hstart := mem_of_isStart hasks
  refine ⟨s, hr₁.trans (hr.mono fun _ _ _ => trivial), hstart, ?_⟩
  refine not_allowed_of_blocked (fun _ => false) (fun _ => rfl) hr₁ hkey hr hstarted.le hstart rfl
    fun found now hmem => ?_
  obtain ⟨w, hdid⟩ := mem_log.mp hmem
  exact of_decide_eq_true (List.all_eq_true.mp htime _ hdid)

end Ahjoor.TrustedIps
