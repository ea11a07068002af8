import Ahjoor.Async.Interleaving
import Ahjoor.Groups.Entities

/-!
# Users, refresh tokens and the version cache

What concurrent requests on sessions share: the rows of the users and of the refresh tokens, the
cache of token versions in Redis, and the time.

A signed token is what it says, with the secret under which it was signed: signing is a function of
the payload and of the second of issue. What is stored of a refresh token is its digest.
-/

namespace Ahjoor.Auth

open Async Store

/-! ### Tokens -/

inductive UserRole
  | admin | user | guest
  deriving DecidableEq, Repr

/-- What a token says. -/
structure Payload where
  sub : String
  userId : Uuid
  email : String
  role : UserRole
  tokenVersion : ℤ
  deriving DecidableEq, Repr

inductive Secret
  | access | refresh
  deriving DecidableEq, Repr

/-- The seconds for which a token is good: 15 minutes, or 7 days. -/
def Secret.lifetime : Secret → ℤ
  | access => 900
  | refresh => 604800

/-- What a client may present as a token. -/
inductive Token
  /-- signed at the second `iat` -/
  | signed (secret : Secret) (payload : Payload) (iat : ℤ)
  /-- any other text -/
  | other (text : String)
  deriving DecidableEq

/-- `jwtService.verifyAsync(token, { secret })` succeeds at a time. -/
def Token.verifies (secret : Secret) (now : ℤ) : Token → Bool
  | signed s _ iat => s = secret ∧ now / 1000 < iat + s.lifetime
  | other _ => false

/-- What `generateTokens` returns. -/
structure Tokens where
  accessToken : Token
  refreshToken : Token
  deriving DecidableEq

/-- The configuration, and digests: SHA-256 of a token, and the blind index of an email. -/
structure Config where
  digest : Token → String
  blindIndex : String → String
  refreshTokenAbsoluteExpiryDays : ℤ := 30

/-! ### Rows -/

/-- The columns of a user that the services on sessions use. -/
structure User where
  id : Uuid
  walletAddress : String
  email : Option String := none
  emailBlindIndex : Option String := none
  password : Option String := none
  role : UserRole := .user
  refreshTokenHash : Option String := none
  tokenVersion : ℤ := 0
  twoFactorEnabled : Bool := false
  deriving DecidableEq, Repr

instance : Entity User := ⟨User.id, fun i u => { u with id := i }, fun _ _ => rfl⟩

/-- A refresh token that was issued. -/
structure RefreshToken where
  id : Uuid
  userId : Uuid
  tokenHash : String
  expiresAt : ℤ
  absoluteExpiresAt : ℤ
  revokedAt : Option ℤ := none
  deviceId : Option String := none
  deviceName : Option String := none
  ipAddress : Option String := none
  deriving DecidableEq, Repr

instance : Entity RefreshToken := ⟨RefreshToken.id, fun i t => { t with id := i }, fun _ _ => rfl⟩

/-- The row, revoked at a time. -/
def RefreshToken.revoked (revokedAt : ℤ) (t : RefreshToken) : RefreshToken :=
  { t with revokedAt := some revokedAt }

/-! ### Queries -/

/-- `update(userId, fields)`. -/
inductive UserUpdate
  /-- `{ tokenVersion }` -/
  | tokenVersion (version : ℤ)
  /-- `{ refreshTokenHash: null, tokenVersion }` -/
  | sessions (version : ℤ)
  deriving DecidableEq

/-- The version that an update writes. -/
def UserUpdate.version : UserUpdate → ℤ
  | tokenVersion version | sessions version => version

/-- Apply an update to a row. -/
def UserUpdate.apply : UserUpdate → User → User
  | tokenVersion version, u => { u with tokenVersion := version }
  | sessions version, u => { u with refreshTokenHash := none, tokenVersion := version }

/-- A query. -/
inductive Query
  | findToken (tokenHash : String)
  | findTokenById (id : Uuid)
  /-- `save` of a row that was loaded before -/
  | saveToken (token : RefreshToken)
  /-- `save` of a row that has just been created -/
  | insertToken (record : RefreshToken)
  /-- `update({ tokenHash }, { revokedAt })` -/
  | revokeToken (tokenHash : String) (revokedAt : ℤ)
  /-- `update({ userId, revokedAt: IsNull() }, { revokedAt })` -/
  | revokeTokens (userId : Uuid) (revokedAt : ℤ)
  | findUserById (id : Uuid)
  | findUserByEmail (email : String)
  | findUserByWalletAddress (walletAddress : String)
  | updateUser (id : Uuid) (x : UserUpdate)
  deriving DecidableEq

/-- What a query returns. -/
def Query.Ret : Query → Type
  | findToken _ | findTokenById _ => Option RefreshToken
  | findUserById _ | findUserByEmail _ | findUserByWalletAddress _ => Option User
  | saveToken _ | insertToken _ | revokeToken _ _ | revokeTokens _ _ | updateUser _ _ => Unit

/-! ### The world -/

/-- The tables, the cached versions with the time at which each is gone, and the time. -/
structure World where
  users : Table User := .empty
  refreshTokens : Table RefreshToken := .empty
  versions : Uuid → Option (ℤ × ℤ) := fun _ => none
  clock : ℤ := 0

variable (cfg : Config)

/-- What a query returns, or the constraint that it violates, and what it leaves. -/
def Query.eval : (q : Query) → World → Except Exc q.Ret × World
  | findToken tokenHash, w => (.ok (w.refreshTokens.find? (·.tokenHash = tokenHash)), w)
  | findTokenById id, w => (.ok (w.refreshTokens.row id), w)
  | saveToken token, w => (.ok (), { w with refreshTokens := w.refreshTokens.put token })
  | insertToken record, w =>
      if (w.refreshTokens.find? (·.tokenHash = record.tokenHash)).isSome then
        (.error (.uniqueViolation "refresh_tokens.tokenHash"), w)
      else (.ok (), { w with refreshTokens := (w.refreshTokens.insert record).2 })
  | revokeToken tokenHash revokedAt, w =>
      (.ok (), { w with
        refreshTokens := w.refreshTokens.modify (·.tokenHash = tokenHash) (.revoked revokedAt) })
  | revokeTokens userId revokedAt, w =>
      (.ok (), { w with
        refreshTokens := w.refreshTokens.modify (fun t => t.userId = userId ∧ t.revokedAt = none)
          (.revoked revokedAt) })
  | findUserById id, w => (.ok (w.users.row id), w)
  | findUserByEmail email, w =>
      (.ok (w.users.find? (·.emailBlindIndex = some (cfg.blindIndex email))), w)
  | findUserByWalletAddress walletAddress, w =>
      (.ok (w.users.find? (·.walletAddress = walletAddress)), w)
  | updateUser id x, w => (.ok (), { w with users := w.users.modify (·.id = id) x.apply })

/-- An awaited operation. -/
inductive Op
  | db (q : Query)
  /-- the time is read -/
  | now
  /-- `bcrypt.compare(password, hash)` -/
  | comparePassword (password hash : String)
  /-- `tokenVersionCache.get(userId)` -/
  | getVersion (userId : Uuid)
  /-- `tokenVersionCache.set(userId, version)` -/
  | setVersion (userId : Uuid) (version : ℤ)
  /-- `tokenVersionCache.invalidate(userId)` -/
  | invalidateVersion (userId : Uuid)
  /-- `mailService.sendMail` of the security alert -/
  | sendMail (recipient : String)
  deriving DecidableEq

/-- What an operation returns; Redis operations never throw. -/
def Op.Ret : Op → Type
  | db q => Except Exc q.Ret
  | now => ℤ
  | comparePassword _ _ => Bool
  | getVersion _ => Option ℤ
  | setVersion _ _ | invalidateVersion _ => Unit
  | sendMail _ => Except Exc Unit

/-- What the environment decides about one operation. -/
inductive Choice
  | done
  | fails (message : String)
  /-- it takes effect, and its reply is lost -/
  | lost (message : String)
  | time (t : ℤ)
  | compared (same : Bool)

/-- The cached version of a user, if it is still there at a time. -/
def World.versionAt (w : World) (t : ℤ) (userId : Uuid) : Option ℤ :=
  (w.versions userId).bind fun entry => if t ≤ entry.2 then some entry.1 else none

/-- What an operation does. -/
def exec : (o : Op) → ℕ → Choice → World → Option (o.Ret × World)
  | .db q, _, .done, w => some (q.eval cfg w)
  | .db _, _, .fails msg, w => some (.error (.error msg), w)
  | .db q, _, .lost msg, w => some (.error (.error msg), (q.eval cfg w).2)
  | .now, _, .time t, w => if w.clock ≤ t then some (t, { w with clock := t }) else none
  | .comparePassword _ _, _, .compared same, w => some (same, w)
  | .getVersion userId, _, .time t, w =>
      if w.clock ≤ t then some (w.versionAt t userId, { w with clock := t }) else none
  | .getVersion _, _, .fails _, w => some (none, w)
  | .setVersion userId version, _, .time t, w =>
      if w.clock ≤ t then
        some ((), { w with
          versions := Function.update w.versions userId (some (version, t + 30000))
          clock := t })
      else none
  | .setVersion _ _, _, .fails _, w => some ((), w)
  | .invalidateVersion userId, _, .done, w =>
      some ((), { w with versions := Function.update w.versions userId none })
  | .invalidateVersion _, _, .fails _, w => some ((), w)
  | .sendMail _, _, .done, w => some (.ok (), w)
  | .sendMail _, _, .fails msg, w => some (.error (.error msg), w)
  | _, _, _, _ => none

/-! ### What an operation can do -/

section Operations

variable {cfg} {pid : ℕ} {choice : Choice} {w w' : World}

/-- A query takes effect, or fails without effect; its reply may be lost. -/
theorem exec_db {q : Query} {r : Except Exc q.Ret} (h : exec cfg (.db q) pid choice w = some (r, w')) :
    (w' = (q.eval cfg w).2 ∧ (r = (q.eval cfg w).1 ∨ ∃ e, r = .error e)) ∨
      (w' = w ∧ ∃ e, r = .error e) := by
  cases choice with
  | done =>
    obtain ⟨rfl, rfl⟩ := Prod.mk.inj (Option.some.inj h)
    exact .inl ⟨rfl, .inl rfl⟩
  | fails msg =>
    cases h
    exact .inr ⟨rfl, _, rfl⟩
  | lost msg =>
    cases h
    exact .inl ⟨rfl, .inr ⟨_, rfl⟩⟩
  | _ => cases h

/-- An operation of the database. -/
def Op.isDb : Op → Bool
  | db _ => true
  | _ => false

/-- Operations outside the database leave it alone. -/
theorem exec_outside {o : Op} (ho : o.isDb = false) {r : o.Ret}
    (h : exec cfg o pid choice w = some (r, w')) :
    w'.users = w.users ∧ w'.refreshTokens = w.refreshTokens := by
  cases o with
  | db q => cases ho
  | now =>
    cases choice with
    | time t =>
      obtain ⟨-, h⟩ := Option.ite_none_right_eq_some.mp h
      cases h
      exact ⟨rfl, rfl⟩
    | _ => cases h
  | getVersion userId =>
    cases choice with
    | time t =>
      obtain ⟨-, h⟩ := Option.ite_none_right_eq_some.mp h
      cases h
      exact ⟨rfl, rfl⟩
    | fails msg =>
      cases h
      exact ⟨rfl, rfl⟩
    | _ => cases h
  | setVersion userId version =>
    cases choice with
    | time t =>
      obtain ⟨-, h⟩ := Option.ite_none_right_eq_some.mp h
      cases h
      exact ⟨rfl, rfl⟩
    | fails msg =>
      cases h
      exact ⟨rfl, rfl⟩
    | _ => cases h
  | _ =>
    cases choice with
    | _ =>
      first
        | cases h
          exact ⟨rfl, rfl⟩
        | cases h

end Operations

/-! ### The rows of refresh tokens -/

/-- What a row says for good. -/
def RefreshToken.terms (t : RefreshToken) : Uuid × String × ℤ × ℤ :=
  (t.userId, t.tokenHash, t.expiresAt, t.absoluteExpiresAt)

/-- **The unique index** on `tokenHash`. -/
def Distinct (t : Table RefreshToken) : Prop :=
  ∀ ⦃i j a b⦄, t.row i = some a → t.row j = some b → a.tokenHash = b.tokenHash → i = j

/-- The row was in the table as it says, and nothing has been undone since. -/
def Sighted (w : World) (stored : RefreshToken) : Prop :=
  ∃ t, w.refreshTokens.row stored.id = some t ∧ t.terms = stored.terms ∧
    (stored.revokedAt ≠ none → t.revokedAt ≠ none)

/-- Rows stay, and stay revoked. -/
structure Advances (w w' : World) : Prop where
  rows : ∀ i t, w.refreshTokens.row i = some t →
    ∃ t', w'.refreshTokens.row i = some t' ∧ t'.terms = t.terms ∧ (t.revokedAt ≠ none → t'.revokedAt ≠ none)
  distinct : Distinct w'.refreshTokens

section Rows

variable {cfg} {pid : ℕ} {choice : Choice} {w w' w'' : World}

theorem Advances.refl (hd : Distinct w.refreshTokens) : Advances w w :=
  ⟨fun _ t ht => ⟨t, ht, rfl, fun h => h⟩, hd⟩

theorem Advances.of_eq (hd : Distinct w.refreshTokens) (h : w'.refreshTokens = w.refreshTokens) :
    Advances w w' := by
  refine ⟨fun i t ht => ⟨t, ?_, rfl, fun h => h⟩, ?_⟩
  · rw [h]
    exact ht
  · rw [h]
    exact hd

theorem Sighted.advance {stored : RefreshToken} (hs : Sighted w stored) (ha : Advances w w') :
    Sighted w' stored := by
  obtain ⟨t, ht, hterms, hrevoked⟩ := hs
  obtain ⟨t', ht', hterms', hrevoked'⟩ := ha.rows _ t ht
  exact ⟨t', ht', hterms'.trans hterms, fun h => hrevoked' (hrevoked h)⟩

theorem sighted_of_row {i : ℕ} {stored : RefreshToken} (h : w.refreshTokens.row i = some stored) :
    Sighted w stored := by
  have hid : stored.id = i := w.refreshTokens.id_of_row h
  exact ⟨stored, hid ▸ h, rfl, fun h => h⟩

/-- The hash is part of what a row says for good. -/
theorem tokenHash_of_terms {a b : RefreshToken} (h : a.terms = b.terms) : a.tokenHash = b.tokenHash :=
  congrArg (fun t => t.2.1) h

/-- A table whose rows keep their terms, with no new rows, keeps its hashes distinct. -/
theorem Distinct.of_rows {t t' : Table RefreshToken} (hd : Distinct t)
    (h : ∀ i a, t'.row i = some a → ∃ b, t.row i = some b ∧ a.terms = b.terms) : Distinct t' := by
  intro i j a b ha hb hhash
  obtain ⟨a', ha', hterms⟩ := h i a ha
  obtain ⟨b', hb', hterms'⟩ := h j b hb
  refine hd ha' hb' ?_
  rw [← tokenHash_of_terms hterms, ← tokenHash_of_terms hterms', hhash]

/-- A row is saved revoked, as it was read otherwise. -/
theorem advances_saveToken (hd : Distinct w.refreshTokens) {stored : RefreshToken}
    (hs : Sighted w stored) (now : ℤ) :
    Advances w { w with refreshTokens := w.refreshTokens.put (stored.revoked now) } := by
  obtain ⟨t₀, ht₀, hterms, -⟩ := hs
  have hrow : ∀ i, (w.refreshTokens.put (stored.revoked now)).row i =
      if i = stored.id then some (stored.revoked now) else w.refreshTokens.row i := fun i =>
    Table.row_put _ _ _
  refine ⟨fun i t ht => ?_, hd.of_rows fun i a ha => ?_⟩
  · by_cases hi : i = stored.id
    · subst hi
      obtain rfl := Option.some.inj (ht₀.symm.trans ht)
      exact ⟨_, (hrow _).trans (if_pos rfl), hterms.symm, fun _ => nofun⟩
    · exact ⟨t, (hrow i).trans ((if_neg hi).trans ht), rfl, fun h => h⟩
  · rw [hrow] at ha
    split at ha
    next hi =>
      cases ha
      exact ⟨t₀, hi ▸ ht₀, hterms.symm⟩
    next => exact ⟨a, ha, rfl⟩

/-- Rows are revoked in bulk. -/
theorem advances_modify (hd : Distinct w.refreshTokens) (p : RefreshToken → Bool) (now : ℤ) :
    Advances w { w with refreshTokens := w.refreshTokens.modify p (.revoked now) } := by
  have hmodified : ∀ (i : ℕ) (a : RefreshToken), w.refreshTokens.row i = some a →
      (if p a then Entity.withId i (a.revoked now) else a).terms = a.terms := by
    intro i a _
    split <;> rfl
  refine ⟨fun i t ht => ⟨_, ?_, hmodified i t ht, ?_⟩, hd.of_rows fun i a ha => ?_⟩
  · exact Option.map_eq_some_iff.mpr ⟨t, ht, rfl⟩
  · intro hrevoked
    split
    · exact nofun
    · exact hrevoked
  · obtain ⟨b, hb, rfl⟩ := Option.map_eq_some_iff.mp ha
    exact ⟨b, hb, hmodified i b hb⟩

/-- An insertion is refused, or takes effect. -/
theorem eval_insertToken (cfg : Config) (w : World) (record : RefreshToken) :
    ((w.refreshTokens.find? (·.tokenHash = record.tokenHash)).isSome = true ∧
        (Query.insertToken record).eval cfg w =
          (.error (.uniqueViolation "refresh_tokens.tokenHash"), w)) ∨
      ((w.refreshTokens.find? (·.tokenHash = record.tokenHash)).isSome = false ∧
        (Query.insertToken record).eval cfg w =
          (.ok (), { w with refreshTokens := (w.refreshTokens.insert record).2 })) := by
  cases hfound : (w.refreshTokens.find? (·.tokenHash = record.tokenHash)).isSome with
  | true => exact .inl ⟨rfl, if_pos hfound⟩
  | false => exact .inr ⟨rfl, if_neg (Bool.eq_false_iff.mp hfound)⟩

/-- The rows after an insertion. -/
theorem row_insertToken (t : Table RefreshToken) (record : RefreshToken) (i : ℕ) :
    (t.insert record).2.row i = if i = t.next then some (Entity.withId i record) else t.row i := by
  refine (Table.row_put _ _ _).trans ?_
  rw [Entity.id_withId]
  split
  next hi => rw [hi]
  next => rfl

/-- Where no row with a hash is found, every row has another one. -/
theorem tokenHash_ne_of_find? {t : Table RefreshToken} {hash : String}
    (hnew : (t.find? (·.tokenHash = hash)).isSome = false) {i : ℕ} {a : RefreshToken}
    (ha : t.row i = some a) : a.tokenHash ≠ hash := by
  intro hhash
  have hid : Entity.id a = i := t.id_of_row ha
  have hnone := Option.not_isSome_iff_eq_none.mp (Bool.eq_false_iff.mp hnew)
  have hmem : a ∈ t.rows := (Table.mem_rows _).mpr (hid ▸ ha)
  exact List.find?_eq_none.mp hnone a hmem (decide_eq_true hhash)

/-- A row is inserted under a new hash. -/
theorem advances_insertToken (hd : Distinct w.refreshTokens) {record : RefreshToken}
    (hnew : (w.refreshTokens.find? (·.tokenHash = record.tokenHash)).isSome = false) :
    Advances w { w with refreshTokens := (w.refreshTokens.insert record).2 } := by
  have hfresh : ∀ i t, w.refreshTokens.row i = some t → t.tokenHash ≠ record.tokenHash :=
    fun _ _ => tokenHash_ne_of_find? hnew
  refine ⟨fun i t ht => ⟨t, ?_, rfl, fun h => h⟩, fun i j a b ha hb hhash => ?_⟩
  · exact w.refreshTokens.row_insert_of_row record ht
  · simp only [row_insertToken] at ha hb
    split at ha <;> split at hb
    next hi hj => exact hi.trans hj.symm
    next hi hj =>
      cases ha
      exact absurd hhash.symm (hfresh j b hb)
    next hi hj =>
      cases hb
      exact absurd hhash (hfresh i a ha)
    next hi hj => exact hd ha hb hhash

/-- **Every operation advances**, if a row that is saved is a known row, revoked. -/
theorem advances_of_exec (hd : Distinct w.refreshTokens) {o : Op} {r : o.Ret}
    (hsave : ∀ row, o = .db (.saveToken row) → ∃ stored now, row = stored.revoked now ∧ Sighted w stored)
    (h : exec cfg o pid choice w = some (r, w')) : Advances w w' := by
  cases ho : o.isDb with
  | false => exact .of_eq hd (exec_outside ho h).2
  | true =>
  cases o with
  | db q =>
    rcases exec_db h with ⟨rfl, -⟩ | ⟨rfl, -⟩
    · cases q with
      | saveToken row =>
        obtain ⟨stored, now, rfl, hs⟩ := hsave row rfl
        exact advances_saveToken hd hs now
      | insertToken record =>
        rcases eval_insertToken cfg w record with ⟨-, heval⟩ | ⟨hnew, heval⟩ <;> rw [heval]
        · exact .refl hd
        · exact advances_insertToken hd hnew
      | revokeToken tokenHash now => exact advances_modify hd _ now
      | revokeTokens userId now => exact advances_modify hd _ now
      | _ => exact .of_eq hd rfl
    · exact .refl hd
  | _ => cases ho

end Rows

end Ahjoor.Auth
