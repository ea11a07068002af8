import Ahjoor.Async.Moments
import Ahjoor.Stellar.StellarService
import Mathlib.Data.Nat.ModEq

/-!
# Failover between RPC servers

The position in the list of URLs and the server object are fields of the service, which all calls
of `withFailover` share. A call moves them between its attempts, and between two attempts of one
call there may be any number of attempts of others; from a look at the position to the start of the
operation nothing is awaited. So the server in the field is the one for the position (`Settled`), as
long as the SDK builds a server for every URL that is switched to: the position is moved first, and
stays where it is when the constructor throws.
-/

namespace Ahjoor.Failover

open Async

variable {T : Type}

/-! ### The service -/

/-- The URLs, of which the service has dropped the empty ones. Whether the constructor `Server` of
the SDK throws depends on the URL and on `allowHttp`. -/
structure Config where
  rpcUrls : List String
  nonempty : ∀ rpcUrl ∈ rpcUrls, rpcUrl ≠ "" := by decide
  newServer : String → Bool → Except Exc Unit

/-- A server object, with what it has been built from. -/
structure Server where
  rpcUrl : String
  allowHttp : Bool
  deriving DecidableEq, Repr

/-- The fields that the calls share. -/
structure World where
  currentRpcIndex : ℕ := 0
  server : Option Server := none

/-- `s.startsWith(part)`. -/
def startsWith (s part : String) : Bool := part.toList.isPrefixOf s.toList

/-- The server for a URL. -/
def serverFor (rpcUrl : String) : Server := ⟨rpcUrl, startsWith rpcUrl "http://"⟩

/-- `initializeServer()`. -/
def initializeServer (cfg : Config) (w : World) : Except Exc World :=
  match cfg.rpcUrls[w.currentRpcIndex]? with
  | none => .ok w
  | some rpcUrl => do
      cfg.newServer rpcUrl (serverFor rpcUrl).allowHttp
      pure { w with server := some (serverFor rpcUrl) }

/-- A round of the loop of `withFailover`, as far as the operation; the first one reads the index
from which the call starts. -/
inductive Op
  | attempt (initialRpcIndex : Option ℕ) (i : ℕ)

/-- What becomes of an attempt. -/
inductive Reply (T : Type)
  /-- `initializeServer` has thrown -/
  | thrown (e : Exc)
  /-- the operation was given the server, and has come to an end -/
  | settled (server : Option Server) (outcome : Except Exc T)

/-- An attempt, with the index from which its call has started and its own. -/
structure Attempt (T : Type) where
  initialRpcIndex : ℕ
  attemptIndex : ℕ
  reply : Reply T

/-- What an operation returns. -/
abbrev Op.Ret (T : Type) (_ : Op) : Type := Attempt T

/-- The index that an attempt tries. -/
def Op.attemptIndex (cfg : Config) (w : World) : Op → ℕ
  | attempt initialRpcIndex i => (initialRpcIndex.getD w.currentRpcIndex + i) % cfg.rpcUrls.length

/-- The index from which the call of an attempt has started. -/
def Op.initialRpcIndex (w : World) : Op → ℕ
  | attempt initialRpcIndex _ => initialRpcIndex.getD w.currentRpcIndex

/-- Switch to another URL, unless it is the current one. -/
def switch (cfg : Config) (attemptIndex : ℕ) (w : World) : Except Exc World :=
  if attemptIndex = w.currentRpcIndex then .ok w
  else initializeServer cfg { w with currentRpcIndex := attemptIndex }

/-- What an attempt does; how its operation ends is the environment's choice. -/
def exec (cfg : Config) (o : Op) (_ : ℕ) (outcome : Except Exc T) (w : World) :
    Option (Attempt T × World) :=
  let attemptIndex := o.attemptIndex cfg w
  let attempt := Attempt.mk (o.initialRpcIndex w) attemptIndex
  match switch cfg attemptIndex w with
  | .error e => some (attempt (.thrown e), { w with currentRpcIndex := attemptIndex })
  | .ok w' => some (attempt (.settled w'.server outcome), w')

/-- The body of an asynchronous method. -/
abbrev Service (T α : Type) := Routine (Op.Ret T) Unit Exc α

/-- The loop of `withFailover` over `n` URLs with `left` of them still to try. -/
def tryUrls (n : ℕ) : ℕ → Option ℕ → Exc → Service T T
  | 0, _, lastError => throw lastError
  | left + 1, initialRpcIndex, _ => do
      let attempt ← Routine.perform (Op.attempt initialRpcIndex (n - (left + 1)))
      match attempt.reply with
      | .thrown e => throw e
      | .settled _ (.ok result) => pure result
      | .settled _ (.error e) =>
          if StellarService.isTransientRpcFailure e then
            tryUrls n left (some attempt.initialRpcIndex) e
          else throw e

/-- `withFailover(operation, context)`. -/
def withFailover (cfg : Config) : Service T T :=
  tryUrls cfg.rpcUrls.length cfg.rpcUrls.length none (.error "undefined")

/-- A call; its operation is known by how its attempts end. -/
inductive Call
  | withFailover

/-- The service and its calls. -/
def system (T : Type) (cfg : Config) :
    System (Op.Ret T) (Except Exc T) World Call (Except Exc T) where
  exec := exec cfg
  body _ := (Failover.withFailover cfg ()).bind fun x => .ret x.1

/-- The state of a run. -/
abbrev FailoverState (T : Type) := State (Op.Ret T) World Call (Except Exc T)

/-- The history of a run. -/
abbrev FailoverHist (T : Type) := Hist (Op.Ret T) World Call (Except Exc T)

/-- An event of a run. -/
abbrev FailoverEvent (T : Type) := Event (Op.Ret T) World Call (Except Exc T)

/-! ### What is claimed -/

/-- The attempts of a call, the first one first. -/
def attempts (pid : ℕ) (es : List (FailoverEvent T)) : List (Attempt T) :=
  (log pid es).reverse.map (·.2)

/-- The index that was current when the call began, which it does with its first attempt. -/
def begunAt (pid : ℕ) : List (FailoverEvent T) → Option ℕ
  | [] => none
  | .did p _ _ before :: es =>
      (begunAt pid es).or (if p = pid then some before.currentRpcIndex else none)
  | .start _ _ :: es | .returned _ _ :: es | .crashed _ :: es => begunAt pid es

/-- The operation has failed with a transient error. -/
def Attempt.transient (a : Attempt T) : Bool :=
  match a.reply with
  | .settled _ (.error e) => StellarService.isTransientRpcFailure e
  | _ => false

/-- The operation was given the server for the URL that is tried. -/
def Attempt.Served (cfg : Config) (a : Attempt T) (outcome : Except Exc T) : Prop :=
  ∃ rpcUrl ∈ cfg.rpcUrls[a.attemptIndex]?, a.reply = .settled (some (serverFor rpcUrl)) outcome

/-- **A call does what it should**: it tries the URLs in cyclic order from the index at which it
has begun, each at most once and with a server for it; it goes on after transient errors only, and
ends as its last attempt does, which is transient only after all the URLs. -/
structure Conforms (cfg : Config) (h : FailoverHist T) (pid : ℕ) : Prop where
  cyclic : ∀ initialRpcIndex ∈ begunAt pid h.trace,
    (attempts pid h.trace).map (·.attemptIndex) = (List.range (attempts pid h.trace).length).map
      fun i => (initialRpcIndex + i) % cfg.rpcUrls.length
  once : ((attempts pid h.trace).map (·.attemptIndex)).Nodup
  served : ∀ a ∈ attempts pid h.trace, ∃ outcome, a.Served cfg outcome
  goesOn : ∀ a ∈ (attempts pid h.trace).dropLast, a.transient = true
  ends : ∀ x, .returned pid x ∈ h.trace → ∃ a ∈ (attempts pid h.trace).getLast?,
    a.Served cfg x ∧ (a.transient = true → (attempts pid h.trace).length = cfg.rpcUrls.length)

/-! ### The condition -/

/-- **The SDK builds a server** for the URL to which the attempt switches, if it switches. -/
def Builds (cfg : Config) : FailoverEvent T → Prop
  | .did _ o _ before => o.attemptIndex cfg before = before.currentRpcIndex ∨
      ∃ rpcUrl ∈ cfg.rpcUrls[o.attemptIndex cfg before]?,
        cfg.newServer rpcUrl (serverFor rpcUrl).allowHttp = .ok ()
  | _ => True

/-! ### One attempt -/

section Step

variable {cfg : Config} {w w' : World} {o : Op} {pid : ℕ} {outcome : Except Exc T} {a : Attempt T}
  {attemptIndex : ℕ}

/-- The server in the field is the one for the current URL. -/
def Settled (cfg : Config) (w : World) : Prop :=
  ∃ rpcUrl ∈ cfg.rpcUrls[w.currentRpcIndex]?, w.server = some (serverFor rpcUrl)

/-- A switch to a URL for which the SDK builds a server settles. -/
theorem Settled.switch (h : Settled cfg w) (hbuilds : attemptIndex = w.currentRpcIndex ∨
      ∃ rpcUrl ∈ cfg.rpcUrls[attemptIndex]?,
        cfg.newServer rpcUrl (serverFor rpcUrl).allowHttp = .ok ()) :
    ∃ w', switch cfg attemptIndex w = .ok w' ∧ w'.currentRpcIndex = attemptIndex ∧
      Settled cfg w' := by
  by_cases hsame : attemptIndex = w.currentRpcIndex
  · exact ⟨w, if_pos hsame, hsame.symm, h⟩
  · obtain ⟨rpcUrl, hrpcUrl, hnew⟩ := hbuilds.resolve_left hsame
    refine ⟨⟨attemptIndex, some (serverFor rpcUrl)⟩, ?_, rfl, rpcUrl, hrpcUrl, rfl⟩
    have hget : cfg.rpcUrls[attemptIndex]? = some rpcUrl := hrpcUrl
    rw [Failover.switch, if_neg hsame, initializeServer]
    simp only [hget, hnew]
    rfl

/-- A switch to another URL throws with the constructor. -/
theorem builds_of_switch (hlt : attemptIndex < cfg.rpcUrls.length)
    (h : switch cfg attemptIndex w = .ok w') : attemptIndex = w.currentRpcIndex ∨
      ∃ rpcUrl ∈ cfg.rpcUrls[attemptIndex]?,
        cfg.newServer rpcUrl (serverFor rpcUrl).allowHttp = .ok () := by
  refine or_iff_not_imp_left.mpr fun hne => ?_
  have hget : cfg.rpcUrls[attemptIndex]? = some cfg.rpcUrls[attemptIndex] :=
    List.getElem?_eq_getElem hlt
  refine ⟨_, hget, ?_⟩
  rw [switch, if_neg hne, initializeServer] at h
  simp only [hget] at h
  cases hnew : cfg.newServer cfg.rpcUrls[attemptIndex]
      (serverFor cfg.rpcUrls[attemptIndex]).allowHttp with
  | ok u => rfl
  | error e =>
    rw [hnew] at h
    cases h

/-- What an attempt returns. -/
theorem exec_cases (h : exec cfg o pid outcome w = some (a, w')) :
    a.initialRpcIndex = o.initialRpcIndex w ∧ a.attemptIndex = o.attemptIndex cfg w ∧
      (switch cfg (o.attemptIndex cfg w) w = .ok w' ∧ a.reply = .settled w'.server outcome ∨
        ∃ e, switch cfg (o.attemptIndex cfg w) w = .error e ∧ a.reply = .thrown e) := by
  rw [exec] at h
  cases hswitch : switch cfg (o.attemptIndex cfg w) w with
  | ok w₁ =>
    rw [hswitch] at h
    cases h
    exact ⟨rfl, rfl, .inl ⟨rfl, rfl⟩⟩
  | error e =>
    rw [hswitch] at h
    cases h
    exact ⟨rfl, rfl, .inr ⟨e, rfl, rfl⟩⟩

end Step

/-! ### One call -/

section Call

variable {n : ℕ} {L : Log (Op.Ret T)}

/-- The next attempt, after transient errors. -/
def Next (n : ℕ) (L : Log (Op.Ret T)) (o : Op) : Prop :=
  o = .attempt (L.head?.map fun e => e.2.initialRpcIndex) L.length ∧ L.length < n ∧
    ∀ e ∈ L, e.2.transient = true

/-- The attempt has ended so. -/
def Attempt.EndsAs (a : Attempt T) (x : Except Exc T) : Prop :=
  match a.reply with
  | .thrown e => x = .error e
  | .settled _ outcome => x = outcome

/-- The call has ended as its last attempt. -/
def Ended (n : ℕ) (x : Except Exc T) (L : Log (Op.Ret T)) : Prop :=
  ∃ e ∈ L.head?, e.2.EndsAs x ∧ (e.2.transient = true → L.length = n)

/-- The loop makes the attempts one by one. -/
theorem obeys_tryUrls (hn : 0 < n) {left : ℕ} {initialRpcIndex : Option ℕ} (lastError : Exc)
    (hleft : L.length + left = n)
    (hinitial : initialRpcIndex = L.head?.map fun e => e.2.initialRpcIndex)
    (hlast : ∀ e ∈ L.head?, e.2.EndsAs (.error lastError))
    (htransient : ∀ e ∈ L, e.2.transient = true) :
    Obeys (Next n) (tryUrls n left initialRpcIndex lastError)
      (fun result _ L => Ended n (.ok result) L) (fun e _ L => Ended n (.error e) L) () L := by
  induction left generalizing initialRpcIndex lastError L with
  | zero =>
    have hlength : L.length = n := hleft
    cases L with
    | nil => exact absurd hlength hn.ne
    | cons e L => exact Obeys.throw ⟨e, rfl, hlast e rfl, fun _ => hlength⟩
  | succ left ih =>
    have hi : n - (left + 1) = L.length := by omega
    refine Obeys.bind (Obeys.perform ⟨?_, by omega, htransient⟩ fun attempt => ?_)
    · rw [hinitial, hi]
    cases hreply : attempt.reply with
    | thrown e =>
      refine Obeys.throw ⟨_, rfl, ?_, fun htrans => ?_⟩
      · simp only [Attempt.EndsAs, hreply]
      · simp only [Attempt.transient, hreply] at htrans
        cases htrans
    | settled server outcome =>
    cases outcome with
    | ok result =>
      refine Obeys.pure ⟨_, rfl, ?_, fun htrans => ?_⟩
      · simp only [Attempt.EndsAs, hreply]
      · simp only [Attempt.transient, hreply] at htrans
        cases htrans
    | error e =>
    have hends : attempt.EndsAs (.error e) := by simp only [Attempt.EndsAs, hreply]
    have htrans : attempt.transient = StellarService.isTransientRpcFailure e := by
      simp only [Attempt.transient, hreply]
    dsimp only
    split
    next hgoesOn =>
      refine ih e ?_ rfl ?_ ?_
      · rw [List.length_cons]
        omega
      · intro e' he'
        obtain rfl := Option.some.inj he'
        exact hends
      · exact List.forall_mem_cons.mpr ⟨htrans.trans hgoesOn, htransient⟩
    next hstops =>
      refine Obeys.throw ⟨_, rfl, hends, fun hgoesOn => ?_⟩
      exact absurd (htrans.symm.trans hgoesOn) hstops

theorem follows_withFailover {cfg : Config} (hurls : cfg.rpcUrls ≠ []) (c : Call) :
    Follows (Next cfg.rpcUrls.length) (Ended cfg.rpcUrls.length) ((system T cfg).body c) [] := by
  have hbody := obeys_tryUrls (T := T) (L := []) (List.length_pos_iff.mpr hurls)
    (.error "undefined") (zero_add _) rfl nofun (List.forall_mem_nil _)
  refine hbody.follows.bind fun x L hx => ?_
  obtain ⟨x, s⟩ := x
  cases x <;> exact hx

end Call

/-! ### Runs -/

section Runs

variable {cfg : Config} {h h' : FailoverHist T} {pid : ℕ} {es : List (FailoverEvent T)}

/-- A call has begun with its first attempt. -/
theorem begunAt_eq_none : begunAt pid es = none ↔ log pid es = [] := by
  induction es with
  | nil => exact iff_of_true rfl rfl
  | cons e es ih =>
    cases e with
    | did p o r before =>
      by_cases hp : p = pid
      · simp [begunAt, log, hp]
      · simp [begunAt, log, hp, ih]
    | start | returned | crashed => exact ih

/-- What an entry of a log says, as long as the SDK has built all servers. -/
structure Tries (cfg : Config) (e : Entry (Op.Ret T)) (initialRpcIndex : ℕ) : Prop where
  initial : e.2.initialRpcIndex = initialRpcIndex
  index : ∀ initial? i, e.1 = .attempt initial? i →
    e.2.attemptIndex = (initialRpcIndex + i) % cfg.rpcUrls.length
  served : ∃ outcome, e.2.Served cfg outcome

/-- The server in the field is the one for the position, and every attempt has been given the one
for its own. -/
structure Faithful (cfg : Config) (h : FailoverHist T) : Prop where
  settled : Settled cfg h.world
  tries : ∀ pid, ∀ e ∈ log pid h.trace, ∃ initialRpcIndex ∈ begunAt pid h.trace,
    Tries cfg e initialRpcIndex

theorem begunAt_cons {e : FailoverEvent T} (he : ∀ pid o r before, e ≠ .did pid o r before) :
    begunAt pid (e :: es) = begunAt pid es := by
  cases e with
  | did p o r before => exact absurd rfl (he p o r before)
  | _ => rfl

/-- The beginning of a call stays what it was. -/
theorem begunAt_did {p : ℕ} {o : Op} {a : Attempt T} {before : World} {i : ℕ}
    (hi : i ∈ begunAt pid es) : i ∈ begunAt pid (.did p o a before :: es) := by
  have hi : begunAt pid es = some i := hi
  rw [begunAt, hi]
  rfl

/-- **The step**: an attempt leaves the server for its position, and its call goes round from where
it has begun. -/
theorem Faithful.step (hf : Faithful cfg h)
    (hs : HistStep (system T cfg) (fun _ => Next cfg.rpcUrls.length) h h')
    (hbuilds : ∀ e ∈ h'.trace, Builds cfg e) : Faithful cfg h' := by
  cases hs with
  | idle e he hlive =>
    refine ⟨hf.settled, fun pid e' he' => ?_⟩
    rw [Hist.push_trace, he] at he'
    rw [Hist.push_trace, begunAt_cons (not_did_of_log he)]
    exact hf.tries pid e' he'
  | did pid c o choice a w hstart hnext hexec hlive =>
    obtain ⟨w', hswitch, hcurrent, hsettled⟩ := hf.settled.switch (hbuilds _ List.mem_cons_self)
    have hexec : exec cfg o pid choice h.world = some (a, w) := hexec
    obtain ⟨hinitial, hindex, hreply⟩ := exec_cases hexec
    obtain ⟨rfl, hreply⟩ : w = w' ∧ a.reply = .settled w.server choice := by
      rcases hreply with ⟨hok, hreply⟩ | ⟨e, herror, -⟩
      · exact ⟨Except.ok.inj (hok.symm.trans hswitch), hreply⟩
      · rw [hswitch] at herror
        cases herror
    refine ⟨hsettled, fun pid' e he => ?_⟩
    rw [Hist.push_trace] at he ⊢
    by_cases hp : pid = pid'
    · subst hp
      rw [log_did_self] at he
      rcases List.mem_cons.mp he with rfl | he
      · refine ⟨o.initialRpcIndex h.world, ?_, hinitial, ?_, choice, ?_⟩
        · -- the first attempt begins the call, and the later ones know where it has begun
          obtain ⟨rfl, -, -⟩ := hnext
          cases hlog : log pid h.trace with
          | nil =>
            rw [begunAt, begunAt_eq_none.mpr hlog, if_pos rfl]
            rfl
          | cons e' L =>
            obtain ⟨i, hi, htries⟩ := hf.tries pid e' (hlog ▸ List.mem_cons_self)
            refine begunAt_did ?_
            rw [Op.initialRpcIndex, List.head?_cons, Option.map_some, Option.getD_some,
              htries.initial]
            exact hi
        · rintro initial? i rfl
          exact hindex
        · obtain ⟨rpcUrl, hrpcUrl, hserver⟩ := hsettled
          refine ⟨rpcUrl, ?_, hserver ▸ hreply⟩
          rw [hindex, ← hcurrent]
          exact hrpcUrl
      · obtain ⟨i, hi, htries⟩ := hf.tries pid e he
        exact ⟨i, begunAt_did hi, htries⟩
    · rw [log_cons_of_ne (e := .did pid o a h.world) hp] at he
      obtain ⟨i, hi, htries⟩ := hf.tries pid' e he
      exact ⟨i, begunAt_did hi, htries⟩

/-- The place of an attempt in the loop. -/
def Op.place : Op → ℕ
  | attempt _ i => i

/-- The attempts of a call are one after another, and all but the last have failed. -/
theorem places_of_lawful {n : ℕ} {L : Log (Op.Ret T)} (hL : Lawful (Next n) L) :
    L.length ≤ n ∧ (∀ e ∈ L.tail, e.2.transient = true) ∧
      L.reverse.map (fun e => e.1.place) = List.range L.length := by
  induction L with
  | nil => exact ⟨Nat.zero_le n, List.forall_mem_nil _, rfl⟩
  | cons e L ih =>
    obtain ⟨⟨ho, hlt, htransient⟩, hL⟩ := hL
    refine ⟨hlt, htransient, ?_⟩
    rw [List.reverse_cons, List.map_append, (ih hL).2.2, List.length_cons, List.range_succ,
      List.map_singleton, ho]
    rfl

theorem mem_attempts {a : Attempt T} : a ∈ attempts pid es ↔ ∃ e ∈ log pid es, e.2 = a := by
  rw [attempts, List.mem_map]
  simp only [List.mem_reverse]

theorem length_attempts : (attempts pid es).length = (log pid es).length := by
  rw [attempts, List.length_map, List.length_reverse]

/-- The indices of a round are different. -/
theorem nodup_round (n start : ℕ) {k : ℕ} (hk : k ≤ n) :
    ((List.range k).map fun i => (start + i) % n).Nodup := by
  refine List.Nodup.map_on (fun i hi j hj heq => ?_) List.nodup_range
  have hi : i < n := (List.mem_range.mp hi).trans_le hk
  have hj : j < n := (List.mem_range.mp hj).trans_le hk
  exact (Nat.ModEq.add_left_cancel' start heq).eq_of_lt_of_lt hi hj

theorem Faithful.conforms (hf : Faithful cfg h)
    (hd : Disciplined (fun _ : Call => Next cfg.rpcUrls.length)
      (fun _ => Ended cfg.rpcUrls.length) h) (pid : ℕ) : Conforms cfg h pid := by
  have hlawful : Lawful (Next cfg.rpcUrls.length) (log pid h.trace) := by
    cases hlog : log pid h.trace with
    | nil => trivial
    | cons e L =>
      obtain ⟨o, a⟩ := e
      obtain ⟨before, he⟩ := mem_log.mp (hlog ▸ List.mem_cons_self)
      obtain ⟨c, hc⟩ := hd.start_mem _ he
      exact hlog ▸ hd.lawful pid c hc
  obtain ⟨hle, htransient, hplaces⟩ := places_of_lawful hlawful
  have hcyclic : ∀ i ∈ begunAt pid h.trace, (attempts pid h.trace).map (·.attemptIndex) =
      (List.range (attempts pid h.trace).length).map fun k => (i + k) % cfg.rpcUrls.length := by
    intro i hi
    rw [length_attempts, ← hplaces, attempts, List.map_map, List.map_map]
    refine List.map_congr_left fun e he => ?_
    obtain ⟨j, hj, htries⟩ := hf.tries pid e (List.mem_reverse.mp he)
    obtain rfl := Option.some.inj (hj.symm.trans hi)
    exact htries.index _ _ rfl
  have hserved : ∀ a ∈ attempts pid h.trace, ∃ outcome, a.Served cfg outcome := by
    intro a ha
    obtain ⟨e, he, rfl⟩ := mem_attempts.mp ha
    obtain ⟨i, -, htries⟩ := hf.tries pid e he
    exact htries.served
  refine ⟨hcyclic, ?_, hserved, ?_, ?_⟩
  · cases hbegun : begunAt pid h.trace with
    | none =>
      rw [attempts, begunAt_eq_none.mp hbegun]
      exact List.nodup_nil
    | some i =>
      rw [hcyclic i hbegun]
      exact nodup_round _ i (length_attempts.trans_le hle)
  · rw [attempts, ← List.map_dropLast, List.dropLast_reverse]
    intro a ha
    obtain ⟨e, he, rfl⟩ := List.mem_map.mp ha
    exact htransient e (List.mem_reverse.mp he)
  · intro x hx
    obtain ⟨c, hc⟩ := hd.start_mem _ hx
    obtain ⟨e, he, hends, hall⟩ := hd.returned pid c x hc hx
    refine ⟨e.2, ?_, ?_, fun htrans => length_attempts.trans (hall htrans)⟩
    · rw [attempts, List.getLast?_map, List.getLast?_reverse]
      exact Option.mem_map_of_mem _ he
    · obtain ⟨outcome, rpcUrl, hrpcUrl, hreply⟩ := hserved e.2
        (mem_attempts.mpr ⟨e, List.mem_of_mem_head? he, rfl⟩)
      rw [Attempt.EndsAs, hreply] at hends
      exact ⟨rpcUrl, hrpcUrl, hends ▸ hreply⟩

end Runs

/-! ### The equivalence -/

section Equivalence

variable {cfg : Config} {w : World} {s : FailoverState T}

/-- The service starts with a server for the first URL. -/
theorem settled_of_start (hurls : cfg.rpcUrls ≠ []) (hw : initializeServer cfg {} = .ok w) :
    Settled cfg w := by
  obtain ⟨rpcUrl, rest, hcons⟩ := List.exists_cons_of_ne_nil hurls
  have hget : cfg.rpcUrls[0]? = some rpcUrl := by rw [hcons, List.getElem?_cons_zero]
  rw [initializeServer] at hw
  simp only [hget] at hw
  cases hnew : cfg.newServer rpcUrl (serverFor rpcUrl).allowHttp with
  | ok u =>
    rw [hnew] at hw
    obtain rfl := Except.ok.inj hw
    exact ⟨rpcUrl, hget, rfl⟩
  | error e =>
    rw [hnew] at hw
    cases hw

/-- **Every call does what it should exactly when the SDK builds a server** for each URL that a call
switches to. -/
theorem conforms_iff (hurls : cfg.rpcUrls ≠ []) (hw : initializeServer cfg {} = .ok w)
    (hs : (system T cfg).Reachable (.init w) s) :
    (∀ pid, Conforms cfg s.hist pid) ↔ ∀ e ∈ s.hist.trace, Builds cfg e := by
  constructor
  · intro hconforms e he
    cases e with
    | did pid o a before =>
      obtain ⟨choice, w', hexec⟩ := (performed_of_reachable hs).exec he
      have hexec : exec cfg o pid choice before = some (a, w') := hexec
      obtain ⟨-, -, ⟨hswitch, -⟩ | ⟨e, -, hthrown⟩⟩ := exec_cases hexec
      · refine builds_of_switch ?_ hswitch
        exact Nat.mod_lt _ (List.length_pos_iff.mpr hurls)
      · obtain ⟨outcome, rpcUrl, -, hreply⟩ := (hconforms pid).served a
          (mem_attempts.mpr ⟨⟨o, a⟩, mem_log.mpr ⟨before, he⟩, rfl⟩)
        rw [hthrown] at hreply
        cases hreply
    | start | returned | crashed => trivial
  · intro hbuilds pid
    have hfaithful : (∀ e ∈ s.hist.trace, Builds cfg e) → Faithful cfg s.hist := by
      refine hist_invariant (S := system T cfg)
        (I := fun h => (∀ e ∈ h.trace, Builds cfg e) → Faithful cfg h)
        (fun c => follows_withFailover hurls c) (fun _ => ?_)
        (fun h h' _ _ hi hstep _ hall => ?_) hs
      · exact ⟨settled_of_start hurls hw, fun _ _ hmem => absurd hmem List.not_mem_nil⟩
      · have hold : h.trace ⊆ h'.trace := by cases hstep <;> exact List.subset_cons_self ..
        exact (hi fun e he => hall e (hold he)).step hstep hall
    exact (hfaithful hbuilds).conforms
      (disciplined_of_reachable (fun c => follows_withFailover hurls c) hs) pid

/-- A configuration all of whose URLs are accepted. -/
theorem builds_of_forall (hurls : cfg.rpcUrls ≠ []) (hall : ∀ rpcUrl ∈ cfg.rpcUrls,
    cfg.newServer rpcUrl (serverFor rpcUrl).allowHttp = .ok ()) (e : FailoverEvent T) :
    Builds cfg e := by
  cases e with
  | did pid o a before =>
    have hlt : o.attemptIndex cfg before < cfg.rpcUrls.length :=
      Nat.mod_lt _ (List.length_pos_iff.mpr hurls)
    exact .inr ⟨_, List.getElem?_eq_getElem hlt, hall _ (List.getElem_mem hlt)⟩
  | start | returned | crashed => trivial

end Equivalence

/-! ### A URL without a scheme -/

namespace Sample

/-- The constructor of the SDK accepts `https`, and everything with `allowHttp`. -/
def newServer (rpcUrl : String) (allowHttp : Bool) : Except Exc Unit :=
  if startsWith rpcUrl "https://" || allowHttp then .ok ()
  else .error (.error "Cannot connect to insecure Soroban RPC server if `allowHttp` isn't set")

/-- Two servers. -/
def two : Config where
  rpcUrls := ["https://a.example", "http://b.example"]
  newServer

/-- The second URL lacks its scheme. -/
def schemeless : Config where
  rpcUrls := ["https://a.example", "b.example"]
  newServer

/-- The service as it starts. -/
def world : World where
  server := some (serverFor "https://a.example")

/-- The first server does not answer. -/
def timeout : Except Exc ℕ := .error (.error "timeout")

/-- A call goes on to the second server, and another one begins there. -/
def moves : List (Move (Except Exc ℕ) Call) :=
  [.start .withFailover, .start .withFailover, .run 0 timeout, .run 0 (.ok 1), .run 1 (.ok 2)]

/-- Both calls have made their attempts. -/
def tried (s : FailoverState ℕ) : Bool :=
  (attempts 0 s.hist.trace).length = 2 ∧ (attempts 1 s.hist.trace).length = 1

/-- The second call was given the server for another URL. -/
def misled (cfg : Config) (s : FailoverState ℕ) : Bool :=
  (attempts 1 s.hist.trace).any fun a =>
    match a.reply with
    | .settled server _ => (cfg.rpcUrls[a.attemptIndex]?).map serverFor ≠ server
    | .thrown _ => false

end Sample

open Ahjoor.Failover.Sample

/-- Two calls that share the fields. -/
theorem conforms_sample : ∃ s : FailoverState ℕ, (system ℕ two).Reachable (.init world) s ∧
    (attempts 0 s.hist.trace).length = 2 ∧ (attempts 1 s.hist.trace).length = 1 ∧
      ∀ pid, Conforms two s.hist pid := by
  obtain ⟨s, hs, htried⟩ := System.exists_of_replay (system ℕ two) (fun _ _ => True)
    (.init world) moves tried (by decide +kernel)
  obtain ⟨hfirst, hsecond⟩ := of_decide_eq_true htried
  refine ⟨s, hs, hfirst, hsecond, (conforms_iff (List.cons_ne_nil _ _) rfl hs).mpr fun e _ => ?_⟩
  refine builds_of_forall (List.cons_ne_nil _ _) ?_ e
  exact List.forall_mem_cons.mpr ⟨rfl, List.forall_mem_singleton.mpr rfl⟩

/-- After a switch that throws, the next call is given the old server at the new position. -/
theorem not_conforms : ¬ ∀ (T : Type) (cfg : Config), cfg.rpcUrls ≠ [] → ∀ w,
    initializeServer cfg {} = .ok w → ∀ s : FailoverState T, (system T cfg).Reachable (.init w) s →
      ∀ pid, Conforms cfg s.hist pid := by
  intro h
  obtain ⟨s, hs, hmisled⟩ := System.exists_of_replay (system ℕ schemeless) (fun _ _ => True)
    (.init world) moves (misled schemeless) (by decide +kernel)
  obtain ⟨a, ha, hother⟩ := List.any_eq_true.mp hmisled
  obtain ⟨outcome, rpcUrl, hrpcUrl, hreply⟩ :=
    (h ℕ schemeless (List.cons_ne_nil _ _) world rfl s hs 1).served a ha
  have hget : schemeless.rpcUrls[a.attemptIndex]? = some rpcUrl := hrpcUrl
  simp [hreply, hget] at hother

end Ahjoor.Failover
