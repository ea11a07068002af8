import Ahjoor.Async.Discipline
import Ahjoor.Auth.AuthService
import Ahjoor.StellarAuth.Challenge

/-!
# The `AuthService` of `stellar-auth`

Challenges are kept in Redis, one for each wallet, and the nonces that were used in one set, which has
a single expiry. Redis operations never throw: one that fails answers as if nothing were there, and
has no effect. A challenge is no JSON text, so that `get` returns it as it is.

Random nonces never repeat. Logs are left out.
-/

namespace Ahjoor.StellarAuth

open Async Store
open Auth (User Secret unauthorized)

/-! ### Tokens -/

/-- `JwtPayload`. -/
structure JwtPayload where
  sub : Uuid
  walletAddress : String
  tokenVersion : ℤ
  deriving DecidableEq, Repr

/-- A token, signed at the second `iat`. -/
structure Token where
  secret : Secret
  payload : JwtPayload
  iat : ℤ
  deriving DecidableEq

structure Tokens where
  accessToken : Token
  refreshToken : Token
  deriving DecidableEq

/-- The configuration, and SHA-256 of a token. -/
structure Config where
  sdk : Sdk
  challengeTtlSeconds : ℕ := 300
  digest : Token → String

/-! ### The world -/

/-- A query. -/
inductive Query
  | findByWalletAddress (walletAddress : String)
  | createUser (walletAddress : String)
  | updateRefreshTokenHash (id : Uuid) (refreshTokenHash : String)
  deriving DecidableEq

/-- What a query returns. -/
def Query.Ret : Query → Type
  | findByWalletAddress _ => Option User
  | createUser _ => User
  | updateRefreshTokenHash _ _ => Unit

/-- The challenges and the used nonces, with the times after which they are gone; the nonces that were
generated; the users, and the time. -/
structure World where
  challenges : String → Option (String × ℤ) := fun _ => none
  usedNonces : List String × Option ℤ := ([], none)
  nonces : List String := []
  users : Table User := .empty
  clock : ℤ := 0

/-- What a query returns, or the constraint that it violates, and what it leaves. -/
def Query.eval : (q : Query) → World → Except Exc q.Ret × World
  | findByWalletAddress walletAddress, w =>
      (.ok (w.users.find? (·.walletAddress = walletAddress)), w)
  | createUser walletAddress, w =>
      if (w.users.find? (·.walletAddress = walletAddress)).isSome then
        (.error (.uniqueViolation "users.walletAddress"), w)
      else
        let (user, users) := w.users.insert { id := 0, walletAddress }
        (.ok user, { w with users })
  | updateRefreshTokenHash id refreshTokenHash, w =>
      (.ok (), { w with
        users := w.users.modify (·.id = id) fun u => { u with refreshTokenHash := some refreshTokenHash } })

/-- The challenge of a wallet at a time. -/
def World.challengeAt (w : World) (t : ℤ) (walletAddress : String) : Option String :=
  (w.challenges walletAddress).bind fun entry => if t ≤ entry.2 then some entry.1 else none

/-- The set of used nonces at a time, with its expiry. -/
def World.liveNonces (w : World) (t : ℤ) : List String × Option ℤ :=
  if w.usedNonces.2.all (t ≤ ·) then w.usedNonces else ([], none)

/-- The nonces that count as used at a time. -/
def World.usedAt (w : World) (t : ℤ) : List String := (w.liveNonces t).1

/-- An awaited operation. -/
inductive Op
  /-- `crypto.randomBytes(32).toString('hex')` -/
  | randomBytes
  /-- the time is read -/
  | now
  /-- `setWithExpiry` of a challenge -/
  | setChallenge (walletAddress challenge : String)
  /-- `get` of a challenge -/
  | getChallenge (walletAddress : String)
  /-- `del` of a challenge -/
  | delChallenge (walletAddress : String)
  /-- `sismember(USED_NONCES_SET_KEY, nonce)` -/
  | sismember (nonce : String)
  /-- `sadd(USED_NONCES_SET_KEY, nonce)` -/
  | sadd (nonce : String)
  /-- `expire(USED_NONCES_SET_KEY, challengeTtlSeconds)` -/
  | expire
  | db (q : Query)
  /-- `seedForUser(userId).catch(() => {})` -/
  | seedForUser (userId : Uuid)
  deriving DecidableEq

/-- What an operation returns. -/
def Op.Ret : Op → Type
  | randomBytes => String
  | now => ℤ
  | getChallenge _ => Option String
  | sismember _ => Bool
  | setChallenge _ _ | delChallenge _ | sadd _ | expire | seedForUser _ => Unit
  | db q => Except Exc q.Ret

/-- What the environment decides about one operation. -/
inductive Choice
  | done
  | fails (message : String)
  /-- it takes effect, and its reply is lost -/
  | lost (message : String)
  | time (t : ℤ)
  | nonce (nonce : String)

variable (cfg : Config)

/-- `challengeTtlSeconds` in milliseconds. -/
def Config.ttl : ℤ := cfg.challengeTtlSeconds * 1000

/-- `sadd(key, nonce)` at a time. -/
def World.sadd (w : World) (t : ℤ) (nonce : String) : World :=
  { w with usedNonces := ((w.liveNonces t).1.insert nonce, (w.liveNonces t).2), clock := t }

/-- `expire(key, ttl)` at a time: it does nothing to a key that is not there. -/
def World.expire (w : World) (t ttl : ℤ) : World :=
  { w with
    usedNonces := if w.usedAt t = [] then w.liveNonces t else (w.usedAt t, some (t + ttl))
    clock := t }

/-- What an operation does. -/
def exec : (o : Op) → ℕ → Choice → World → Option (o.Ret × World)
  | .randomBytes, _, .nonce nonce, w =>
      if isNonce nonce ∧ nonce ∉ w.nonces then some (nonce, { w with nonces := nonce :: w.nonces })
      else none
  | .now, _, .time t, w => if w.clock ≤ t then some (t, { w with clock := t }) else none
  | .setChallenge walletAddress challenge, _, .time t, w =>
      if w.clock ≤ t then
        some ((), { w with
          challenges := Function.update w.challenges walletAddress (some (challenge, t + cfg.ttl))
          clock := t })
      else none
  | .setChallenge _ _, _, .fails _, w => some ((), w)
  | .getChallenge walletAddress, _, .time t, w =>
      if w.clock ≤ t then some (w.challengeAt t walletAddress, { w with clock := t }) else none
  | .getChallenge _, _, .fails _, w => some (none, w)
  | .delChallenge walletAddress, _, .done, w =>
      some ((), { w with challenges := Function.update w.challenges walletAddress none })
  | .delChallenge _, _, .fails _, w => some ((), w)
  | .sismember nonce, _, .time t, w =>
      if w.clock ≤ t then some (decide (nonce ∈ w.usedAt t), { w with clock := t }) else none
  | .sismember _, _, .fails _, w => some (false, w)
  | .sadd nonce, _, .time t, w => if w.clock ≤ t then some ((), w.sadd t nonce) else none
  | .sadd _, _, .fails _, w => some ((), w)
  | .expire, _, .time t, w => if w.clock ≤ t then some ((), w.expire t cfg.ttl) else none
  | .expire, _, .fails _, w => some ((), w)
  | .db q, _, .done, w => some (q.eval w)
  | .db _, _, .fails msg, w => some (.error (.error msg), w)
  | .db q, _, .lost msg, w => some (.error (.error msg), (q.eval w).2)
  | .seedForUser _, _, .done, w => some ((), w)
  | _, _, _, _ => none

/-! ### What an operation can do -/

section Operations

variable {cfg} {pid : ℕ} {choice : Choice} {w w' : World}

/-- What an operation does to the time, the nonces and the challenges. -/
structure Effect (cfg : Config) (o : Op) (w w' : World) : Prop where
  clock : w.clock ≤ w'.clock
  usedNonces : w'.usedNonces = w.usedNonces ∨ (∃ nonce, o = .sadd nonce ∧ w' = w.sadd w'.clock nonce) ∨
    o = .expire ∧ w' = w.expire w'.clock cfg.ttl
  nonces : ∀ nonce ∈ w.nonces, nonce ∈ w'.nonces
  challenges : ∀ walletAddress, w'.challenges walletAddress = w.challenges walletAddress ∨
    w'.challenges walletAddress = none ∨ ∃ challenge, o = .setChallenge walletAddress challenge ∧
      w'.challenges walletAddress = some (challenge, w'.clock + cfg.ttl)

theorem Effect.of_eq {o : Op} (hclock : w.clock ≤ w'.clock) (hused : w'.usedNonces = w.usedNonces)
    (hnonces : w'.nonces = w.nonces) (hchallenges : w'.challenges = w.challenges) :
    Effect cfg o w w' :=
  ⟨hclock, .inl hused, fun _ h => hnonces ▸ h,
    fun walletAddress => .inl (congrFun hchallenges walletAddress)⟩

theorem effect_of_eval {o : Op} (q : Query) (w : World) : Effect cfg o w (q.eval w).2 := by
  cases q with
  | createUser walletAddress =>
    cases hfound : (w.users.find? (·.walletAddress = walletAddress)).isSome with
    | true =>
      have heval : ((Query.createUser walletAddress).eval w).2 = w := congrArg Prod.snd (if_pos hfound)
      rw [heval]
      exact .of_eq (Int.le_refl _) rfl rfl rfl
    | false =>
      have heval : ((Query.createUser walletAddress).eval w).2 =
          { w with users := (w.users.insert { id := 0, walletAddress }).2 } :=
        congrArg Prod.snd (if_neg (Bool.eq_false_iff.mp hfound))
      rw [heval]
      exact .of_eq (Int.le_refl _) rfl rfl rfl
  | _ => exact .of_eq (Int.le_refl _) rfl rfl rfl

/-- Where an operation that takes its time has an effect, the time has not gone back. -/
theorem of_timed {α : Type} {t : ℤ} {x : α × World} {y : α × World}
    (h : (if w.clock ≤ t then some x else none) = some y) : w.clock ≤ t ∧ x = y := by
  obtain ⟨hle, h⟩ := Option.ite_none_right_eq_some.mp h
  exact ⟨hle, Option.some.inj h⟩

theorem effect_of_exec {o : Op} {r : o.Ret} (h : exec cfg o pid choice w = some (r, w')) :
    Effect cfg o w w' := by
  have hrefl : Effect cfg o w w := .of_eq (Int.le_refl _) rfl rfl rfl
  cases o with
  | randomBytes =>
    cases choice with
    | nonce nonce =>
      obtain ⟨-, h⟩ := Option.ite_none_right_eq_some.mp h
      cases h
      exact ⟨Int.le_refl _, .inl rfl, fun _ => List.mem_cons_of_mem _, fun _ => .inl rfl⟩
    | _ => cases h
  | now =>
    cases choice with
    | time t =>
      obtain ⟨hle, h⟩ := of_timed h
      cases h
      exact .of_eq hle rfl rfl rfl
    | _ => cases h
  | setChallenge walletAddress challenge =>
    cases choice with
    | time t =>
      obtain ⟨hle, h⟩ := of_timed h
      cases h
      refine ⟨hle, .inl rfl, fun _ h => h, fun walletAddress' => ?_⟩
      by_cases hsame : walletAddress' = walletAddress
      · subst hsame
        exact .inr (.inr ⟨challenge, rfl, Function.update_self ..⟩)
      · exact .inl (Function.update_of_ne hsame ..)
    | fails msg =>
      cases h
      exact hrefl
    | _ => cases h
  | delChallenge walletAddress =>
    cases choice with
    | done =>
      cases h
      refine ⟨Int.le_refl _, .inl rfl, fun _ h => h, fun walletAddress' => ?_⟩
      by_cases hsame : walletAddress' = walletAddress
      · exact .inr (.inl (hsame ▸ Function.update_self ..))
      · exact .inl (Function.update_of_ne hsame ..)
    | fails msg =>
      cases h
      exact hrefl
    | _ => cases h
  | getChallenge walletAddress | sismember nonce =>
    cases choice with
    | time t =>
      obtain ⟨hle, h⟩ := of_timed h
      cases h
      exact .of_eq hle rfl rfl rfl
    | fails msg =>
      cases h
      exact hrefl
    | _ => cases h
  | sadd nonce =>
    cases choice with
    | time t =>
      obtain ⟨hle, h⟩ := of_timed h
      cases h
      exact ⟨hle, .inr (.inl ⟨nonce, rfl, rfl⟩), fun _ h => h, fun _ => .inl rfl⟩
    | fails msg =>
      cases h
      exact hrefl
    | _ => cases h
  | expire =>
    cases choice with
    | time t =>
      obtain ⟨hle, h⟩ := of_timed h
      cases h
      exact ⟨hle, .inr (.inr ⟨rfl, rfl⟩), fun _ h => h, fun _ => .inl rfl⟩
    | fails msg =>
      cases h
      exact hrefl
    | _ => cases h
  | db q =>
    cases choice with
    | done =>
      obtain ⟨-, rfl⟩ := Prod.mk.inj (Option.some.inj h)
      exact effect_of_eval q w
    | lost msg =>
      cases h
      exact effect_of_eval q w
    | fails msg =>
      cases h
      exact hrefl
    | _ => cases h
  | seedForUser userId =>
    cases choice with
    | done =>
      cases h
      exact hrefl
    | _ => cases h

/-- A challenge that is found is stored. -/
theorem stored_of_exec {walletAddress challenge : String}
    (h : exec cfg (.getChallenge walletAddress) pid choice w = some (some challenge, w')) :
    ∃ expiry, w.challenges walletAddress = some (challenge, expiry) := by
  cases choice with
  | time t =>
    obtain ⟨-, h⟩ := of_timed h
    obtain ⟨⟨challenge', expiry⟩, hentry, hlive⟩ := Option.bind_eq_some_iff.mp (Prod.mk.inj h).1
    obtain ⟨-, hsame⟩ := Option.ite_none_right_eq_some.mp hlive
    cases hsame
    exact ⟨expiry, hentry⟩
  | fails msg => cases h
  | _ => cases h

/-- A random nonce is new. -/
theorem new_of_exec {nonce : String}
    (h : exec cfg .randomBytes pid choice w = some (nonce, w')) :
    isNonce nonce = true ∧ nonce ∉ w.nonces ∧ nonce ∈ w'.nonces := by
  cases choice with
  | nonce nonce' =>
    obtain ⟨⟨hnonce, hnew⟩, h⟩ := Option.ite_none_right_eq_some.mp h
    cases h
    exact ⟨hnonce, hnew, List.mem_cons_self⟩
  | _ => cases h

end Operations

/-! ### `AuthService` -/

/-- The body of an asynchronous method. -/
abbrev Service (α : Type) := Routine Op.Ret Unit Exc α

/-- An awaited query. -/
def query (q : Query) : Service q.Ret := Routine.call (.db q) fun r => r

/-- An awaited Redis write; its answer is not used. -/
def write (o : Op) : Service Unit := Routine.call o fun _ => .ok ()

/-- `generateChallenge(walletAddress)`. -/
def generateChallenge (walletAddress : String) : Service String := do
  let nonce : String ← Routine.perform Op.randomBytes
  let timestamp : ℤ ← Routine.perform Op.now
  write (.setChallenge walletAddress (challengeText walletAddress nonce timestamp))
  pure (challengeText walletAddress nonce timestamp)

/-- `validateEnvelopeTimebounds(signedEnvelopeXdr)`. -/
def validateEnvelopeTimebounds (signedEnvelopeXdr : String) : Service Unit := do
  let transaction ← Routine.valueOr (cfg.sdk.fromXDR signedEnvelopeXdr)
    (unauthorized "Invalid transaction envelope: unable to parse signed envelope XDR")
  let timeBounds ← Routine.valueOr transaction.body.timeBounds
    (unauthorized "Invalid transaction envelope: missing timebounds")
  let now : ℤ ← Routine.perform Op.now
  Routine.throwWhen (!withinTimebounds timeBounds now)
    (unauthorized "Transaction envelope timebounds are outside the allowed +/-30s clock skew")

/-- `upsertByWalletAddress(walletAddress)`. -/
def upsertByWalletAddress (walletAddress : String) : Service User := do
  let found ← query (.findByWalletAddress walletAddress)
  match found with
  | some user => pure user
  | none => do
      let user ← query (.createUser walletAddress)
      write (.seedForUser user.id)
      pure user

/-- `jwtService.signAsync(payload, { … })`. -/
def signAsync (secret : Secret) (payload : JwtPayload) : Service Token := do
  let now : ℤ ← Routine.perform Op.now
  pure { secret, payload, iat := now / 1000 }

/-- `issueTokens(userId, walletAddress, tokenVersion)`. -/
def issueTokens (userId : Uuid) (walletAddress : String) (tokenVersion : ℤ) : Service Tokens := do
  let payload : JwtPayload := { sub := userId, walletAddress, tokenVersion }
  let accessToken ← signAsync .access payload
  let refreshToken ← signAsync .refresh payload
  pure { accessToken, refreshToken }

/-- What `verifySignature` does once the challenge has been answered. -/
def openSession (walletAddress : String) : Service Tokens := do
  let user ← upsertByWalletAddress walletAddress
  let tokens ← issueTokens user.id walletAddress user.tokenVersion
  query (.updateRefreshTokenHash user.id (cfg.digest tokens.refreshToken))
  pure tokens

/-- `verifySignature(walletAddress, signedEnvelopeXdr, challenge)`. -/
def verifySignature (walletAddress signedEnvelopeXdr challenge : String) : Service Tokens := do
  let found : Option String ← Routine.perform (Op.getChallenge walletAddress)
  let storedChallenge ← Routine.valueOr (found.filter (· ≠ ""))
    (unauthorized "Challenge expired or not found")
  Routine.throwWhen (storedChallenge ≠ challenge) (unauthorized "Challenge mismatch")
  let nonce ← Routine.valueOr (extractNonceFromChallenge challenge)
    (unauthorized "Invalid challenge format: nonce missing")
  let replayed : Bool ← Routine.perform (Op.sismember nonce)
  Routine.throwWhen replayed (unauthorized "Challenge nonce has already been used")
  validateEnvelopeTimebounds cfg signedEnvelopeXdr
  Routine.throwWhen (!verifyEnvelopeSignature cfg.sdk walletAddress signedEnvelopeXdr)
    (unauthorized "Invalid signature")
  write (.sadd nonce)
  write .expire
  write (.delChallenge walletAddress)
  openSession cfg walletAddress

/-! ### The system -/

/-- The requests. -/
inductive Call
  | generateChallenge (walletAddress : String)
  | verifySignature (walletAddress signedEnvelopeXdr challenge : String)
  deriving DecidableEq

/-- What a request returns. -/
inductive Reply
  | challenge (challenge : String)
  | tokens (tokens : Tokens)
  deriving DecidableEq

/-- What the validation pipe throws. -/
def badRequestException : Exc := .http 400 "Bad Request Exception"

/-- The body of a request, after the validation of what it carries. -/
def Call.body : Call → Service Reply
  | generateChallenge walletAddress => do
      Routine.throwWhen (!cfg.sdk.isValidEd25519PublicKey walletAddress) badRequestException
      let challenge ← StellarAuth.generateChallenge walletAddress
      pure (.challenge challenge)
  | verifySignature walletAddress signedEnvelopeXdr challenge => do
      Routine.throwWhen (!cfg.sdk.isValidEd25519PublicKey walletAddress ||
        (signedEnvelopeXdr = "" || challenge = "")) badRequestException
      let tokens ← StellarAuth.verifySignature cfg walletAddress signedEnvelopeXdr challenge
      pure (.tokens tokens)

/-- The requests for challenges and for tokens. -/
def system : System Op.Ret Choice World Call (Except Exc Reply) where
  exec := exec cfg
  body c := (c.body cfg ()).bind fun x => .ret x.1

/-- The state of a run. -/
abbrev AuthState := State Op.Ret World Call (Except Exc Reply)

/-- The history of a run. -/
abbrev History := Hist Op.Ret World Call (Except Exc Reply)

end Ahjoor.StellarAuth
