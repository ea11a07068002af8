import Ahjoor.Async.Discipline
import Ahjoor.Auth.AuthService

/-!
# The rotation of refresh tokens

What the log of a call says about its next operation: a refresh revokes a row that it has found
unrevoked and unexpired, and only then stores a new one. But the row is revoked by a `save` that
does not look at it again. So two refreshes with one token may both find it unrevoked, and both
exchange it.

If every refresh that exchanges a token finds the row still unrevoked when it saves it, then each
token is exchanged at most once.
-/

namespace Ahjoor.Auth

open Async Store

variable (cfg : Config)

/-! ### What the log of a call says -/

/-- The query only reads. -/
def Query.reads : Query → Bool
  | findToken _ | findTokenById _ | findUserById _ | findUserByEmail _ | findUserByWalletAddress _ =>
      true
  | _ => false

/-- A refresh has read the row of its token, and then the time. -/
def foundLog (token : Token) (stored : RefreshToken) (verified now : ℤ) : Log Op.Ret :=
  [⟨.now, now⟩, ⟨.db (.findToken (cfg.digest token)), .ok (some stored)⟩, ⟨.now, verified⟩]

theorem mem_foundLog (token : Token) (stored : RefreshToken) (verified now : ℤ) :
    ⟨.db (.findToken (cfg.digest token)), .ok (some stored)⟩ ∈ foundLog cfg token stored verified now :=
  List.mem_cons_of_mem _ List.mem_cons_self

/-- A refresh has revoked the row of its token, to exchange it. -/
def rotatedLog (token : Token) (stored : RefreshToken) (verified now : ℤ) : Log Op.Ret :=
  ⟨.db (.saveToken (stored.revoked now)), .ok ()⟩ :: foundLog cfg token stored verified now

/-- A row may be exchanged at a time. -/
structure Exchangeable (stored : RefreshToken) (now : ℤ) : Prop where
  unrevoked : stored.revokedAt = none
  unexpired : now ≤ stored.expiresAt
  within : now ≤ stored.absoluteExpiresAt

/-- The call has found a user under a wallet address. -/
def FoundByWallet (L : Log Op.Ret) (walletAddress : String) (user : User) : Prop :=
  ⟨.db (.findUserByWalletAddress walletAddress), .ok (some user)⟩ ∈ L

/-- The call has found a user under a key. -/
def FoundById (L : Log Op.Ret) (id : Uuid) (user : User) : Prop :=
  ⟨.db (.findUserById id), .ok (some user)⟩ ∈ L

/-- **The token version that a call puts into its tokens**: a login the one that it has read, a
refresh the one that it has written. -/
inductive Obtained : Call → Log Op.Ret → Payload → Prop
  | login (loginDto : LoginDto) (opts : StoreTokenOptions) {L : Log Op.Ret} {user : User}
      {payload : Payload} (hfound : FoundByWallet L payload.sub user)
      (huser : payload.userId = user.id) (hversion : payload.tokenVersion = user.tokenVersion) :
      Obtained (.login loginDto opts) L payload
  | refresh (opts : StoreTokenOptions) {L : Log Op.Ret} {token : Token} {stored : RefreshToken}
      {verified now : ℤ} {owner user : User} {payload : Payload}
      (hrotated : rotatedLog cfg token stored verified now <:+ L) (hstored : Exchangeable stored now)
      (howner : FoundById L stored.userId owner) (hsub : payload.sub = owner.walletAddress)
      (hwritten : ⟨.db (.updateUser owner.id (.tokenVersion payload.tokenVersion)), .ok ()⟩ ∈ L)
      (hfound : FoundByWallet L payload.sub user) (huser : payload.userId = user.id) :
      Obtained (.refreshTokens token opts) L payload

/-- **What a row takes over** from the row whose token is exchanged: its absolute expiry and its
user. -/
inductive Inherits : Call → Log Op.Ret → RefreshToken → Prop
  | login (loginDto : LoginDto) (opts : StoreTokenOptions) (L : Log Op.Ret) (record : RefreshToken) :
      Inherits (.login loginDto opts) L record
  | refresh (opts : StoreTokenOptions) {L : Log Op.Ret} {token : Token} {stored record : RefreshToken}
      {verified now : ℤ} {owner : User} (hrotated : rotatedLog cfg token stored verified now <:+ L)
      (hstored : Exchangeable stored now) (howner : FoundById L stored.userId owner)
      (huser : record.userId = owner.id) (hcap : record.absoluteExpiresAt = stored.absoluteExpiresAt) :
      Inherits (.refreshTokens token opts) L record

/-- The operation inserts a row. -/
def Op.inserts : Op → Bool
  | db (.insertToken _) => true
  | _ => false

/-- The operation saves a row that was loaded before. -/
def Op.saves : Op → Bool
  | db (.saveToken _) => true
  | _ => false

/-- The operation revokes all rows of a user. -/
def Op.sweeps : Op → Bool
  | db (.revokeTokens _ _) => true
  | _ => false

/-- The call has not saved a row. -/
def Unsaved (L : Log Op.Ret) : Prop := ∀ e ∈ L, e.1.saves = false

/-- The call has not inserted a row. -/
def Uninserted (L : Log Op.Ret) : Prop := ∀ e ∈ L, e.1.inserts = false

theorem Uninserted.cons {L : Log Op.Ret} (hL : Uninserted L) {e : Entry Op.Ret}
    (he : e.1.inserts = false) : Uninserted (e :: L) :=
  List.forall_mem_cons.mpr ⟨he, hL⟩

/-- **Why a call revokes all rows of a user**: it was asked to, or it presents a token whose row it
has found revoked or expired. -/
def Detects : Call → Log Op.Ret → Prop
  | .refreshTokens token _, L => ∃ stored verified now later,
      L = ⟨.now, later⟩ :: foundLog cfg token stored verified now ∧
        (stored.revokedAt ≠ none ∨ stored.expiresAt < now)
  | .logout _ _, _ | .revokeAllUserTokens _, _ => True
  | .login _ _, _ | .revokeSession _ _, _ | .validate _, _ => False

/-- The call may count a token version up. -/
def Call.counts : Call → Bool
  | refreshTokens _ _ | logout _ _ | revokeAllUserTokens _ => true
  | login _ _ | revokeSession _ _ | validate _ => false

/-- **What a call does next.** -/
inductive Acting : Call → Log Op.Ret → Op → Prop
  | read (c : Call) (L : Log Op.Ret) {q : Query} (hq : q.reads = true) : Acting c L (.db q)
  | now (c : Call) (L : Log Op.Ret) : Acting c L .now
  | comparePassword (c : Call) (L : Log Op.Ret) (password hash : String) :
      Acting c L (.comparePassword password hash)
  | getVersion (c : Call) (L : Log Op.Ret) (userId : Uuid) : Acting c L (.getVersion userId)
  | invalidateVersion (c : Call) (L : Log Op.Ret) (userId : Uuid) :
      Acting c L (.invalidateVersion userId)
  | sendMail (c : Call) (L : Log Op.Ret) (recipient : String) : Acting c L (.sendMail recipient)
  | setVersion {payload : Payload} {L : Log Op.Ret} {user : User}
      (hfound : FoundByWallet L payload.sub user) :
      Acting (.validate payload) L (.setVersion user.id user.tokenVersion)
  /-- a refresh revokes the row that it exchanges -/
  | rotate (opts : StoreTokenOptions) {token : Token} {stored : RefreshToken} {verified now : ℤ}
      (hstored : Exchangeable stored now) :
      Acting (.refreshTokens token opts) (foundLog cfg token stored verified now)
        (.db (.saveToken (stored.revoked now)))
  /-- a refresh revokes the row of a session that is too old -/
  | close (opts : StoreTokenOptions) {token : Token} {stored : RefreshToken} {verified now : ℤ}
      (hunrevoked : stored.revokedAt = none) (hlate : stored.absoluteExpiresAt < now) :
      Acting (.refreshTokens token opts) (foundLog cfg token stored verified now)
        (.db (.saveToken (stored.revoked now)))
  | revokeSession {userId sessionId : Uuid} {token : RefreshToken} (now : ℤ) {L : Log Op.Ret}
      (hfound : ⟨.db (.findTokenById sessionId), .ok (some token)⟩ ∈ L)
      (howner : token.userId = userId) :
      Acting (.revokeSession userId sessionId) L (.db (.saveToken (token.revoked now)))
  | insert {c : Call} {L : Log Op.Ret} {payload : Payload} (iat : ℤ) {record : RefreshToken}
      (hobtained : Obtained cfg c L payload) (hinherits : Inherits cfg c L record)
      (hhash : record.tokenHash = cfg.digest (.signed .refresh payload iat))
      (hnew : record.revokedAt = none) (huninserted : Uninserted L) :
      Acting c L (.db (.insertToken record))
  | revokeToken (userId : Uuid) (token : Token) (L : Log Op.Ret) (now : ℤ) :
      Acting (.logout userId (some token)) L (.db (.revokeToken (cfg.digest token) now))
  | revokeTokens {c : Call} {L : Log Op.Ret} (hunsaved : Unsaved L) (hdetects : Detects cfg c L)
      (userId : Uuid) (now : ℤ) : Acting c L (.db (.revokeTokens userId now))
  | updateUser {c : Call} (hc : c.counts = true) {L : Log Op.Ret} {id : Uuid} {user : User}
      {x : UserUpdate} (hx : x.version = user.tokenVersion + 1) :
      Acting c (⟨.db (.findUserById id), .ok (some user)⟩ :: L) (.db (.updateUser id x))

/-- A pair of tokens is issued when the row of its refresh token has been inserted. -/
def Issued (c : Call) (tokens : Tokens) (L : Log Op.Ret) : Prop :=
  ∃ payload iat iat' record L₀, L = ⟨.db (.insertToken record), .ok ()⟩ :: L₀ ∧
    Obtained cfg c L₀ payload ∧
    tokens = ⟨.signed .access payload iat, .signed .refresh payload iat'⟩ ∧
    record.tokenHash = cfg.digest tokens.refreshToken

/-- What the log says when a call has returned. -/
def Returned (c : Call) : Except Exc Reply → Log Op.Ret → Prop
  | .ok (.tokens tokens), L => Issued cfg c tokens L
  | _, _ => True

/-! ### The bodies follow it -/

section Obeys

variable {cfg} {c : Call} {L : Log Op.Ret}

theorem obeys_query {q : Query} {Q : q.Ret → Unit → Log Op.Ret → Prop} (hD : Acting cfg c L (.db q))
    (hok : ∀ a, Q a () (⟨.db q, .ok a⟩ :: L)) : Obeys (Acting cfg c) (query q) Q Anyhow () L := by
  refine Obeys.call hD fun r => ?_
  cases r with
  | error e => trivial
  | ok a => exact hok a

theorem obeys_findById (id : Uuid) : Obeys (Acting cfg c) (findById id)
    (fun user _ L' => L' = ⟨.db (.findUserById id), .ok (some user)⟩ :: L) Anyhow () L := by
  refine Obeys.bind (obeys_query (.read c L rfl) fun found => ?_)
  refine Obeys.valueOr (fun user hfound => ?_) fun _ => trivial
  rw [hfound]

theorem obeys_incrementTokenVersion (hc : c.counts = true) (id : Uuid) :
    Obeys (Acting cfg c) (incrementTokenVersion id) (fun version _ L' => L <:+ L' ∧ (Uninserted L → Uninserted L') ∧
      ⟨.db (.updateUser id (.tokenVersion version)), .ok ()⟩ ∈ L') Anyhow () L := by
  refine Obeys.bind ((obeys_findById id).mono (fun user _ L' hL' => ?_) fun _ _ _ _ => trivial)
  subst hL'
  refine Obeys.bind (obeys_query (.updateUser hc rfl) fun _ => ?_)
  refine Obeys.bind (Obeys.call (.invalidateVersion c _ id) fun _ => Obeys.pure ⟨?_, ?_, ?_⟩)
  · exact ⟨[_, _, _], rfl⟩
  · exact fun h => ((h.cons rfl).cons rfl).cons rfl
  · exact List.mem_cons_of_mem _ List.mem_cons_self

theorem obeys_revokeAllSessions (hc : c.counts = true) (id : Uuid) :
    Obeys (Acting cfg c) (revokeAllSessions id) Anyhow Anyhow () L := by
  refine Obeys.bind ((obeys_findById id).mono (fun user _ L' hL' => ?_) fun _ _ _ _ => trivial)
  subst hL'
  refine Obeys.bind (obeys_query (.updateUser hc rfl) fun _ => ?_)
  exact Obeys.call (.invalidateVersion c _ id) fun _ => trivial

theorem obeys_revokeAllUserTokens (hc : c.counts = true) (hunsaved : Unsaved L)
    (hdetects : ∀ now : ℤ, Detects cfg c (⟨.now, now⟩ :: L)) (id : Uuid) :
    Obeys (Acting cfg c) (revokeAllUserTokens id) Anyhow Anyhow () L := by
  refine Obeys.bind (Obeys.perform (.now c L) fun now : ℤ => ?_)
  have hunsaved' : Unsaved (⟨.now, now⟩ :: L) := List.forall_mem_cons.mpr ⟨rfl, hunsaved⟩
  exact Obeys.bind (obeys_query (.revokeTokens hunsaved' (hdetects now) id now) fun _ =>
    obeys_revokeAllSessions hc id)

theorem obeys_sendSecurityAlert (id : Uuid) :
    Obeys (Acting cfg c) (sendSecurityAlert id) Anyhow Anyhow () L := by
  refine Obeys.tryCatch (Obeys.bind ((obeys_findById id).mono (fun user _ L' _ => ?_)
    fun _ _ _ _ => Obeys.pure trivial))
  cases user.email with
  | none => exact Obeys.pure trivial
  | some email =>
    change Obeys _ (if _ then _ else _) _ _ _ _
    split
    · exact Obeys.pure trivial
    · refine Obeys.call (.sendMail c _ email) fun r => ?_
      cases r with
      | error e => exact Obeys.pure trivial
      | ok a => trivial

/-- The pair that is generated: both tokens say the same. -/
theorem obeys_generateTokens (sub email : String) (role : UserRole) (version : Option ℤ) :
    Obeys (Acting cfg c) (generateTokens sub email role version)
      (fun tokens _ L' => L <:+ L' ∧ (Uninserted L → Uninserted L') ∧
        ∃ user iat iat', FoundByWallet L' sub user ∧
          let payload : Payload :=
            { sub, userId := user.id, email, role, tokenVersion := version.getD user.tokenVersion }
          tokens = ⟨.signed .access payload iat, .signed .refresh payload iat'⟩) Anyhow () L := by
  refine Obeys.bind (obeys_query (.read c L rfl) fun found => ?_)
  refine Obeys.bind (Obeys.valueOr (fun user hfound => ?_) fun _ => trivial)
  subst hfound
  refine Obeys.bind (Obeys.bind (Obeys.perform (.now c _) fun now : ℤ => Obeys.pure ?_))
  refine Obeys.bind (Obeys.bind (Obeys.perform (.now c _) fun now' : ℤ => Obeys.pure ?_))
  refine Obeys.pure ⟨⟨[_, _, _], rfl⟩, fun h => ((h.cons rfl).cons rfl).cons rfl,
    user, _, _, ?_, rfl⟩
  exact List.mem_cons_of_mem _ (List.mem_cons_of_mem _ List.mem_cons_self)

/-- The row that is inserted for a refresh token. -/
theorem obeys_storeRefreshToken {userId : Uuid} {token : Token} {opts : StoreTokenOptions}
    (hinsert : ∀ L' record, L <:+ L' → (Uninserted L → Uninserted L') → record.userId = userId →
      record.tokenHash = cfg.digest token → record.revokedAt = none →
      (∀ cap, opts.absoluteExpiresAt = some cap → record.absoluteExpiresAt = cap) →
      Acting cfg c L' (.db (.insertToken record))) :
    Obeys (Acting cfg c) (storeRefreshToken cfg userId token opts)
      (fun _ _ L' => ∃ record L₀, L' = ⟨.db (.insertToken record), .ok ()⟩ :: L₀ ∧ L <:+ L₀ ∧
        record.tokenHash = cfg.digest token) Anyhow () L := by
  refine Obeys.bind (Obeys.perform (.now c L) fun now : ℤ => ?_)
  cases hopts : opts.absoluteExpiresAt with
  | some cap =>
    refine Obeys.bind (Obeys.pure (obeys_query (hinsert _ _ ⟨[_], rfl⟩ (fun h => h.cons rfl) rfl rfl
      rfl fun cap' hcap' => ?_) fun _ => ⟨_, _, rfl, ⟨[_], rfl⟩, rfl⟩))
    exact Option.some.inj (hopts.symm.trans hcap')
  | none =>
    refine Obeys.bind (Obeys.bind (Obeys.perform (.now c _) fun now' : ℤ => Obeys.pure ?_))
    refine obeys_query (hinsert _ _ ⟨[_, _], rfl⟩ (fun h => (h.cons rfl).cons rfl) rfl rfl rfl
      fun cap hcap => ?_) fun _ => ⟨_, _, rfl, ⟨[_, _], rfl⟩, rfl⟩
    exact absurd (hopts.symm.trans hcap) nofun

/-- A session is opened, once the version for its tokens is obtained. -/
theorem obeys_openSession {user : User} {version : Option ℤ} {opts : StoreTokenOptions}
    (hnone : Uninserted L)
    (hobtained : ∀ L' found payload, L <:+ L' → FoundByWallet L' user.walletAddress found →
      payload.sub = user.walletAddress → payload.userId = found.id →
      payload.tokenVersion = version.getD found.tokenVersion → Obtained cfg c L' payload)
    (hinherits : ∀ L' record, L <:+ L' → record.userId = user.id →
      (∀ cap, opts.absoluteExpiresAt = some cap → record.absoluteExpiresAt = cap) →
      Inherits cfg c L' record) :
    Obeys (Acting cfg c) (openSession cfg user version opts) (fun tokens _ L' => Issued cfg c tokens L')
      Anyhow () L := by
  refine Obeys.bind ((obeys_generateTokens user.walletAddress (user.email.getD "") user.role version).mono
    (fun tokens _ L₁ h => ?_) fun _ _ _ _ => trivial)
  obtain ⟨hL₁, hkeeps, found, iat, iat', hfound, rfl⟩ := h
  have hwallet : ∀ L', L₁ <:+ L' → FoundByWallet L' user.walletAddress found := fun L' hL' =>
    hL'.subset hfound
  refine Obeys.bind ((obeys_storeRefreshToken fun L' record hL' hkeeps' huser hhash hnew hcap =>
    .insert iat' (hobtained L' found _ (hL₁.trans hL') (hwallet L' hL') rfl rfl rfl)
      (hinherits L' record (hL₁.trans hL') huser hcap) hhash hnew (hkeeps' (hkeeps hnone))).mono
    (fun _ _ L₂ h => Obeys.pure ?_) fun _ _ _ _ => trivial)
  obtain ⟨record, L₃, rfl, hL₃, hhash⟩ := h
  exact ⟨_, iat, iat', record, L₃, rfl,
    hobtained L₃ found _ (hL₁.trans hL₃) (hwallet L₃ hL₃) rfl rfl rfl, rfl, hhash⟩

theorem obeys_login (loginDto : LoginDto) (opts : StoreTokenOptions) :
    Obeys (Acting cfg (.login loginDto opts)) (login cfg loginDto opts)
      (fun tokens _ L' => Issued cfg (.login loginDto opts) tokens L') Anyhow () [] := by
  refine Obeys.bind (obeys_query (.read _ [] rfl) fun found => ?_)
  refine Obeys.bind (Obeys.valueOr (fun user _ => ?_) fun _ => trivial)
  refine Obeys.bind (Obeys.valueOr (fun password _ => ?_) fun _ => trivial)
  refine Obeys.bind (Obeys.perform (.comparePassword _ _ _ _) fun valid : Bool => ?_)
  refine Obeys.bind (Obeys.throwWhen (fun _ => trivial) fun _ => ?_)
  refine Obeys.bind (Obeys.throwWhen (fun _ => trivial) fun _ => ?_)
  refine obeys_openSession ?_ (fun L' found payload _ hfound hsub huser hversion => ?_)
    fun L' record _ _ _ => .login loginDto opts L' record
  · exact List.forall_mem_cons.mpr ⟨rfl, List.forall_mem_singleton.mpr rfl⟩
  · exact .login loginDto opts (hsub ▸ hfound) huser hversion

theorem uninserted_rotatedLog (token : Token) (stored : RefreshToken) (verified now : ℤ) :
    Uninserted (rotatedLog cfg token stored verified now) := by
  intro e he
  simp only [rotatedLog, foundLog, List.mem_cons, List.not_mem_nil, or_false] at he
  rcases he with rfl | rfl | rfl | rfl <;> rfl

/-- An exchange. -/
theorem obeys_rotate {token : Token} {stored : RefreshToken} {verified now : ℤ}
    (hstored : Exchangeable stored now) (opts : StoreTokenOptions) :
    Obeys (Acting cfg (.refreshTokens token opts)) (rotate cfg stored now opts)
      (fun tokens _ L' => Issued cfg (.refreshTokens token opts) tokens L') Anyhow ()
      (foundLog cfg token stored verified now) := by
  refine Obeys.bind (obeys_query (.rotate opts hstored) fun _ => ?_)
  change Obeys _ _ _ _ _ (rotatedLog cfg token stored verified now)
  refine Obeys.bind ((obeys_findById stored.userId).mono (fun owner _ L₁ hL₁ => ?_)
    fun _ _ _ _ => trivial)
  refine Obeys.bind ((obeys_incrementTokenVersion rfl owner.id).mono (fun version _ L₂ h => ?_)
    fun _ _ _ _ => trivial)
  obtain ⟨hL₂, hkeeps, hwritten⟩ := h
  subst hL₁
  have hrotated : rotatedLog cfg token stored verified now <:+ L₂ := (List.suffix_cons _ _).trans hL₂
  have howner : FoundById L₂ stored.userId owner := hL₂.subset List.mem_cons_self
  have hnone : Uninserted L₂ := hkeeps ((uninserted_rotatedLog token stored verified now).cons rfl)
  refine obeys_openSession hnone (fun L' found payload hL' hfound hsub huser hversion => ?_)
    fun L' record hL' huser hcap => ?_
  · exact .refresh opts (hrotated.trans hL') hstored (hL'.subset howner) hsub
      (hversion ▸ hL'.subset hwritten) (hsub ▸ hfound) huser
  · exact .refresh opts (hrotated.trans hL') hstored (hL'.subset howner) huser (hcap _ rfl)

theorem obeys_refreshTokens (token : Token) (opts : StoreTokenOptions) :
    Obeys (Acting cfg (.refreshTokens token opts)) (refreshTokens cfg token opts)
      (fun tokens _ L' => Issued cfg (.refreshTokens token opts) tokens L') Anyhow () [] := by
  refine Obeys.bind (Obeys.perform (.now _ []) fun verified : ℤ => ?_)
  refine Obeys.bind (Obeys.throwWhen (fun _ => trivial) fun _ => ?_)
  refine Obeys.bind (obeys_query (.read _ _ rfl) fun found => ?_)
  refine Obeys.bind (Obeys.perform (.now _ _) fun now : ℤ => ?_)
  cases found with
  | none => exact Obeys.throw trivial
  | some stored =>
  change Obeys _ (if _ then _ else _) _ _ _ (foundLog cfg token stored verified now)
  have hunsaved : Unsaved (foundLog cfg token stored verified now) := by
    intro e he
    simp only [foundLog, List.mem_cons, List.not_mem_nil, or_false] at he
    rcases he with rfl | rfl | rfl <;> rfl
  split
  next hrevoked =>
    have hdetects : ∀ later : ℤ, Detects cfg (.refreshTokens token opts)
        (⟨.now, later⟩ :: foundLog cfg token stored verified now) := fun later =>
      ⟨stored, verified, now, later, rfl, .inl hrevoked⟩
    refine Obeys.bind ((obeys_revokeAllUserTokens rfl hunsaved hdetects _).mono (fun _ _ _ _ => ?_)
      fun _ _ _ _ => trivial)
    exact Obeys.bind ((obeys_sendSecurityAlert _).mono (fun _ _ _ _ => Obeys.throw trivial)
      fun _ _ _ _ => trivial)
  next hrevoked =>
  have hunrevoked : stored.revokedAt = none := not_not.mp hrevoked
  split
  next hexpired =>
    have hdetects : ∀ later : ℤ, Detects cfg (.refreshTokens token opts)
        (⟨.now, later⟩ :: foundLog cfg token stored verified now) := fun later =>
      ⟨stored, verified, now, later, rfl, .inr hexpired⟩
    exact Obeys.bind ((obeys_revokeAllUserTokens rfl hunsaved hdetects _).mono
      (fun _ _ _ _ => Obeys.throw trivial) fun _ _ _ _ => trivial)
  next hexpired =>
  split
  next hlate =>
    exact Obeys.bind (obeys_query (.close opts hunrevoked hlate) fun _ => Obeys.throw trivial)
  next hlate => exact obeys_rotate ⟨hunrevoked, Int.not_lt.mp hexpired, Int.not_lt.mp hlate⟩ opts

theorem obeys_revokeSession (userId sessionId : Uuid) :
    Obeys (Acting cfg (.revokeSession userId sessionId)) (revokeSession userId sessionId)
      Anyhow Anyhow () [] := by
  refine Obeys.bind (obeys_query (.read _ [] rfl) fun found => ?_)
  refine Obeys.bind (Obeys.valueOr (fun token htoken => ?_) fun _ => trivial)
  obtain ⟨hfound, howner⟩ := Option.filter_eq_some_iff.mp htoken
  subst hfound
  refine Obeys.bind (Obeys.perform (.now _ _) fun now : ℤ => ?_)
  exact obeys_query (.revokeSession now (List.mem_cons_of_mem _ List.mem_cons_self)
    (of_decide_eq_true howner)) fun _ => trivial

theorem obeys_logout (userId : Uuid) (refreshToken : Option Token) :
    Obeys (Acting cfg (.logout userId refreshToken)) (logout cfg userId refreshToken)
      Anyhow Anyhow () [] := by
  have hrest : ∀ L, Obeys (Acting cfg (.logout userId refreshToken)) (revokeAllSessions userId)
      Anyhow Anyhow () L := fun L => obeys_revokeAllSessions rfl userId
  refine Obeys.bind ?_
  cases hpresented : refreshToken.filter (· ≠ .other "") with
  | some token =>
    obtain ⟨rfl, -⟩ := Option.filter_eq_some_iff.mp hpresented
    refine Obeys.bind (Obeys.perform (.now _ []) fun now : ℤ => ?_)
    exact obeys_query (.revokeToken userId token _ now) fun _ => hrest _
  | none =>
    have hdetects : ∀ now : ℤ, Detects cfg (.logout userId refreshToken) [⟨.now, now⟩] := fun _ => trivial
    exact (obeys_revokeAllUserTokens rfl (fun _ he => absurd he List.not_mem_nil) hdetects userId).mono
      (fun _ _ L _ => hrest L) fun _ _ _ _ => trivial

theorem obeys_validate (payload : Payload) :
    Obeys (Acting cfg (.validate payload)) (validate payload) Anyhow Anyhow () [] := by
  refine Obeys.bind (Obeys.perform (.getVersion _ [] _) fun cached : Option ℤ => ?_)
  refine Obeys.bind (Obeys.throwWhen (fun _ => trivial) fun _ => ?_)
  refine Obeys.bind (obeys_query (.read _ _ rfl) fun found => ?_)
  refine Obeys.bind (Obeys.valueOr (fun user hfound => ?_) fun _ => trivial)
  subst hfound
  refine Obeys.bind (Obeys.throwWhen (fun _ => trivial) fun _ => ?_)
  exact Obeys.bind (Obeys.call (.setVersion List.mem_cons_self) fun _ => Obeys.pure trivial)

/-- **Every call follows the discipline.** -/
theorem follows_acting (cfg : Config) (c : Call) :
    Follows (Acting cfg c) (Returned cfg c) ((system cfg).body c) [] := by
  suffices h : Obeys (Acting cfg c) (c.body cfg)
      (fun reply _ L => Returned cfg c (.ok reply) L) Anyhow () [] by
    refine h.follows.bind fun x L hx => ?_
    obtain ⟨x, t⟩ := x
    cases x with
    | error e => trivial
    | ok reply => exact hx
  have hmono : ∀ {α : Type} {m : Service α} {f : α → Reply} {Q : α → Unit → Log Op.Ret → Prop},
      Obeys (Acting cfg c) m Q Anyhow () [] → (∀ a L, Q a () L → Returned cfg c (.ok (f a)) L) →
      Obeys (Acting cfg c) (do let a ← m; pure (f a))
        (fun reply _ L => Returned cfg c (.ok reply) L) Anyhow () [] := fun hm hQ =>
    Obeys.bind (hm.mono (fun a _ L h => Obeys.pure (hQ a L h)) fun _ _ _ _ => trivial)
  cases c with
  | login loginDto opts => exact hmono (obeys_login loginDto opts) fun _ _ h => h
  | refreshTokens token opts => exact hmono (obeys_refreshTokens token opts) fun _ _ h => h
  | revokeSession userId sessionId => exact hmono (obeys_revokeSession _ _) fun _ _ _ => trivial
  | logout userId token => exact hmono (obeys_logout _ _) fun _ _ _ => trivial
  | revokeAllUserTokens userId =>
    have hdetects : ∀ now : ℤ, Detects cfg (.revokeAllUserTokens userId) [⟨.now, now⟩] := fun _ => trivial
    exact hmono (obeys_revokeAllUserTokens rfl (fun _ he => absurd he List.not_mem_nil) hdetects _)
      fun _ _ _ => trivial
  | validate payload => exact hmono (obeys_validate payload) fun _ _ _ => trivial

end Obeys

/-! ### What the calls know of the rows -/

/-- The row that an operation has read. -/
def seen : Entry Op.Ret → Option RefreshToken
  | ⟨.db (.findToken _), .ok found⟩ => found
  | ⟨.db (.findTokenById _), .ok found⟩ => found
  | _ => none

/-- **What the calls know** of the rows: the hashes are distinct, and the rows that were read or
saved are in the table, and as much revoked as they were then. -/
structure Informed (h : History) : Prop where
  distinct : Distinct h.world.refreshTokens
  sighted : ∀ pid e stored, e ∈ log pid h.trace → seen e = some stored → Sighted h.world stored
  hashed : ∀ pid hash stored, ⟨.db (.findToken hash), .ok (some stored)⟩ ∈ log pid h.trace →
    stored.tokenHash = hash
  saved : ∀ pid row, ⟨.db (.saveToken row), .ok ()⟩ ∈ log pid h.trace → Sighted h.world row
  inserted : ∀ pid record, ⟨.db (.insertToken record), .ok ()⟩ ∈ log pid h.trace →
    ∃ t i, h.world.refreshTokens.row i = some t ∧ t.terms = record.terms
  identified : ∀ pid id user, FoundById (log pid h.trace) id user → user.id = id

section Informed

variable {cfg} {h h' : History} {Q : Call → Except Exc Reply → Log Op.Ret → Prop} {pid : ℕ} {c : Call}
  {o : Op} {choice : Choice} {r : o.Ret} {w : World}

/-- A row that is saved is a known row, revoked. -/
theorem Informed.saves (hi : Informed h) (hD : Acting cfg c (log pid h.trace) o) {row : RefreshToken}
    (ho : o = .db (.saveToken row)) : ∃ stored now, row = stored.revoked now ∧ Sighted h.world stored := by
  generalize hL : log pid h.trace = L at hD
  have hseen : ∀ e stored, e ∈ L → seen e = some stored → Sighted h.world stored := fun e stored he =>
    hi.sighted pid e stored (hL ▸ he)
  cases hD with
  | read c L hq =>
    cases ho
    cases hq
  | rotate opts hstored =>
    cases ho
    exact ⟨_, _, rfl, hseen _ _ (List.mem_cons_of_mem _ List.mem_cons_self) rfl⟩
  | close opts hunrevoked hlate =>
    cases ho
    exact ⟨_, _, rfl, hseen _ _ (List.mem_cons_of_mem _ List.mem_cons_self) rfl⟩
  | revokeSession now hfound howner =>
    cases ho
    exact ⟨_, _, rfl, hseen _ _ hfound rfl⟩
  | _ => cases ho

theorem Informed.advances (hi : Informed h) (hD : Acting cfg c (log pid h.trace) o)
    (hexec : exec cfg o pid choice h.world = some (r, w)) : Advances h.world w :=
  advances_of_exec hi.distinct (fun _ ho => hi.saves hD ho) hexec

/-- What a query has read was in the table. -/
theorem sighted_of_exec (hexec : exec cfg o pid choice h.world = some (r, w))
    {stored : RefreshToken} (hseen : seen ⟨o, r⟩ = some stored) :
    Sighted h.world stored ∧ ∀ hash, o = .db (.findToken hash) → stored.tokenHash = hash := by
  cases o with
  | db q =>
    have hr : ∀ {found : Except Exc q.Ret}, (∃ e, found = .error e) →
        seen ⟨.db q, found⟩ = none := by
      rintro _ ⟨e, rfl⟩
      cases q <;> rfl
    rcases exec_db hexec with ⟨-, rfl | he⟩ | ⟨-, he⟩
    · cases q with
      | findToken hash =>
        obtain ⟨hrow, hhash⟩ := Table.of_find?_eq_some hseen
        refine ⟨sighted_of_row hrow, fun hash' ho => ?_⟩
        cases ho
        exact of_decide_eq_true hhash
      | findTokenById id => exact ⟨sighted_of_row (i := id) hseen, nofun⟩
      | _ => cases hseen
    · exact absurd ((hr he).symm.trans hseen) nofun
    · exact absurd ((hr he).symm.trans hseen) nofun
  | _ => cases hseen

/-- A row that has been inserted is in the table. -/
theorem inserted_of_exec {record : RefreshToken}
    (hexec : exec cfg (.db (.insertToken record)) pid choice h.world = some (.ok (), w)) :
    ∃ t i, w.refreshTokens.row i = some t ∧ t.terms = record.terms := by
  rcases exec_db hexec with ⟨hw, hr⟩ | ⟨-, e, he⟩
  · rcases eval_insertToken cfg h.world record with ⟨-, heval⟩ | ⟨-, heval⟩ <;> rw [heval] at hw hr
    · rcases hr with hr | ⟨e, hr⟩ <;> cases hr
    · subst hw
      exact ⟨Entity.withId h.world.refreshTokens.next record, _, Table.row_put_self _ _, rfl⟩
  · cases he

theorem id_of_exec {id : Uuid} {user : User}
    (hexec : exec cfg (.db (.findUserById id)) pid choice h.world = some (.ok (some user), w)) :
    user.id = id := by
  rcases exec_db hexec with ⟨-, hr | ⟨e, hr⟩⟩ | ⟨-, e, he⟩
  · exact h.world.users.id_of_row (Except.ok.inj hr).symm
  · cases hr
  · cases he

/-- **Every step keeps what is known.** -/
theorem Informed.step (hi : Informed h) (hs : HistStep (system cfg) (Acting cfg) h h') : Informed h' := by
  cases hs with
  | idle e he hlive =>
    refine ⟨hi.distinct, fun p e' stored hmem => ?_, fun p hash stored hmem => ?_, fun p row hmem => ?_,
      fun p record hmem => ?_, fun p id user hmem => ?_⟩
    · exact hi.sighted p e' stored (he p h.trace ▸ hmem)
    · exact hi.hashed p hash stored (he p h.trace ▸ hmem)
    · exact hi.saved p row (he p h.trace ▸ hmem)
    · exact hi.inserted p record (he p h.trace ▸ hmem)
    · exact hi.identified p id user (he p h.trace ▸ hmem)
  | did pid c o choice r w hstart hD hexec hlive =>
    have hadvances := hi.advances hD hexec
    have hlog : ∀ {p e}, e ∈ log p (h.push (.did pid o r h.world) w).trace →
        e ∈ log p h.trace ∨ e = ⟨o, r⟩ := by
      intro p e he
      by_cases hp : pid = p
      · subst hp
        rw [Hist.push_trace, log_did_self] at he
        exact (List.mem_cons.mp he).symm
      · rw [Hist.push_trace, log_cons_of_ne (e := .did pid o r h.world) hp] at he
        exact .inl he
    refine ⟨hadvances.distinct, fun p e stored he hseen => ?_, fun p hash stored he => ?_,
      fun p row he => ?_, fun p record he => ?_, fun p id user he => ?_⟩
    · rcases hlog he with he | rfl
      · exact (hi.sighted p e stored he hseen).advance hadvances
      · exact (sighted_of_exec hexec hseen).1.advance hadvances
    · rcases hlog he with he | heq
      · exact hi.hashed p hash stored he
      · cases heq
        have hseen : seen ⟨.db (.findToken hash), .ok (some stored)⟩ = some stored := rfl
        exact (sighted_of_exec hexec hseen).2 hash rfl
    · rcases hlog he with he | heq
      · exact (hi.saved p row he).advance hadvances
      · cases heq
        rcases exec_db hexec with ⟨rfl, -⟩ | ⟨-, e, he⟩
        · exact sighted_of_row (Table.row_put_self _ row)
        · cases he
    · rcases hlog he with he | heq
      · obtain ⟨t, i, ht, hterms⟩ := hi.inserted p record he
        obtain ⟨t', ht', hterms', -⟩ := hadvances.rows i t ht
        exact ⟨t', i, ht', hterms'.trans hterms⟩
      · cases heq
        exact inserted_of_exec hexec
    · rcases hlog he with he | heq
      · exact hi.identified p id user he
      · cases heq
        exact id_of_exec hexec

/-- **The rule for runs on sessions**: an invariant of the history, which may rely on what is known
of the rows. -/
theorem invariant_of_informed {ok : History → History → Prop} {I : History → Prop} {w₀ : World}
    (hd : Distinct w₀.refreshTokens) (h₀ : I ⟨w₀, []⟩)
    (hstep : ∀ h h', Disciplined (Acting cfg) (Returned cfg) h →
      Disciplined (Acting cfg) (Returned cfg) h' → Informed h → I h →
      HistStep (system cfg) (Acting cfg) h h' → ok h h' → I h')
    {s : AuthState} (hs : (system cfg).ReachableWhen ok (.init w₀) s) : Informed s.hist ∧ I s.hist :=
  hist_invariant (follows_acting cfg) (I := fun h => Informed h ∧ I h)
    ⟨⟨hd, fun _ _ _ he => absurd he List.not_mem_nil, fun _ _ _ he => absurd he List.not_mem_nil,
      fun _ _ he => absurd he List.not_mem_nil, fun _ _ he => absurd he List.not_mem_nil,
      fun _ _ _ he => absurd he List.not_mem_nil⟩, h₀⟩
    (fun h h' hd hd' hI hk hok => ⟨hI.1.step hk, hstep h h' hd hd' hI.1 hI.2 hk hok⟩) hs

end Informed

/-! ### Exchanges -/

/-- The call `pid` has exchanged the token: it has stored a successor. -/
def Exchanges (h : History) (pid : ℕ) (token : Token) (successor : RefreshToken) : Prop :=
  ∃ opts, Event.start pid (.refreshTokens token opts) ∈ h.trace ∧
    ⟨.db (.insertToken successor), .ok ()⟩ ∈ log pid h.trace

/-- **The rotation is linear**: a token is exchanged once, for one successor, and no other call that
presents it ever returns tokens. -/
structure Linear (h : History) : Prop where
  once : ∀ token p q a b, Exchanges h p token a → Exchanges h q token b → p = q ∧ a = b
  silent : ∀ token p q a opts tokens, Exchanges h p token a →
    Event.start q (.refreshTokens token opts) ∈ h.trace →
    Event.returned q (.ok (.tokens tokens)) ∈ h.trace → q = p

/-- The call is a refresh. -/
def isRefresh (pid : ℕ) (es : Events) : Bool :=
  es.any fun
    | .start p (.refreshTokens _ _) => p = pid
    | _ => false

/-- Whether a refresh that exchanges a token finds the row still unrevoked when it saves it. -/
def findsUnrevoked (h h' : History) : Bool :=
  match h'.trace with
  | .did pid (.db (.saveToken row)) (.ok ()) _ :: _ =>
      !isRefresh pid h.trace || row.revokedAt.any (row.absoluteExpiresAt < ·) ||
        (h.world.refreshTokens.row row.id).any (·.revokedAt = none)
  | _ => true

theorem isRefresh_of_start {pid : ℕ} {token : Token} {opts : StoreTokenOptions} {es : Events}
    (h : Event.start pid (.refreshTokens token opts) ∈ es) : isRefresh pid es = true :=
  List.any_eq_true.mpr ⟨_, h, decide_eq_true rfl⟩

/-- The call has revoked the row, to exchange its token. -/
def Rotates (h : History) (pid : ℕ) (stored : RefreshToken) : Prop :=
  ∃ token opts verified now, Event.start pid (.refreshTokens token opts) ∈ h.trace ∧
    Exchangeable stored now ∧ rotatedLog cfg token stored verified now <:+ log pid h.trace

section Exchanges

variable {cfg} {h h' : History} {pid p q : ℕ} {token : Token} {a b : RefreshToken}

variable (cfg) in
/-- What is behind an exchange: the row of the token, which was found exchangeable at `now`, and has
handed its terms on. -/
structure Exchanged (h : History) (pid : ℕ) (token : Token) (successor stored : RefreshToken)
    (now : ℤ) : Prop where
  rotates : Rotates cfg h pid stored
  found : ∃ verified, foundLog cfg token stored verified now <:+ log pid h.trace
  exchangeable : Exchangeable stored now
  hash : stored.tokenHash = cfg.digest token
  sighted : Sighted h.world stored
  user : successor.userId = stored.userId
  cap : successor.absoluteExpiresAt = stored.absoluteExpiresAt

theorem exchanged_of_exchanges (hd : Disciplined (Acting cfg) (Returned cfg) h) (hi : Informed h)
    (hp : Exchanges h p token a) : ∃ stored now, Exchanged cfg h p token a stored now := by
  obtain ⟨opts, hstart, hinsert⟩ := hp
  obtain ⟨L, hL, hacting⟩ := (hd.lawful p _ hstart).allowed hinsert
  cases hacting with
  | read _ _ hq => cases hq
  | insert iat hobtained hinherits hhash hnew huninserted =>
  cases hinherits with
  | @refresh _ _ _ stored _ verified now owner hrotated hstored howner huser hcap =>
  have hlog : L <:+ log p h.trace := (List.suffix_cons _ _).trans hL
  have hsuffix : rotatedLog cfg token stored verified now <:+ log p h.trace := hrotated.trans hlog
  have hfound : ⟨.db (.findToken (cfg.digest token)), .ok (some stored)⟩ ∈ log p h.trace :=
    hsuffix.subset (List.mem_cons_of_mem _ (mem_foundLog cfg token stored verified now))
  exact ⟨stored, now, ⟨token, opts, verified, now, hstart, hstored, hsuffix⟩,
    ⟨verified, (List.suffix_cons _ _).trans hsuffix⟩, hstored, hi.hashed p _ _ hfound,
    hi.sighted p _ _ hfound rfl, huser.trans (hi.identified p _ _ (hlog.subset howner)), hcap⟩

/-- A call inserts one row at most. -/
theorem eq_of_insert (hd : Disciplined (Acting cfg) (Returned cfg) h) {c : Call}
    (hstart : Event.start p c ∈ h.trace)
    (ha : ⟨.db (.insertToken a), .ok ()⟩ ∈ log p h.trace)
    (hb : ⟨.db (.insertToken b), .ok ()⟩ ∈ log p h.trace) : a = b := by
  have hearlier : ∀ {a : RefreshToken}, (⟨.db (.insertToken a), .ok ()⟩ : Entry Op.Ret) ∈ log p h.trace →
      ∃ L, ⟨.db (.insertToken a), .ok ()⟩ :: L <:+ log p h.trace ∧ Uninserted L := by
    intro a ha
    obtain ⟨L, hL, hacting⟩ := (hd.lawful p _ hstart).allowed ha
    cases hacting with
    | read _ _ hq => cases hq
    | insert iat hobtained hinherits hhash hnew huninserted => exact ⟨L, hL, huninserted⟩
  obtain ⟨L, hL, hnone⟩ := hearlier ha
  obtain ⟨L', hL', hnone'⟩ := hearlier hb
  rcases List.suffix_or_suffix_of_suffix hL hL' with hsub | hsub
  · rcases List.suffix_cons_iff.mp hsub with heq | hsub
    · cases heq
      rfl
    · exact absurd (hnone' _ (hsub.subset List.mem_cons_self)) nofun
  · rcases List.suffix_cons_iff.mp hsub with heq | hsub
    · cases heq
      rfl
    · exact absurd (hnone _ (hsub.subset List.mem_cons_self)) nofun

variable (cfg) in
/-- No row is rotated twice. -/
def RotatedOnce (h : History) : Prop :=
  ∀ p q a b, Rotates cfg h p a → Rotates cfg h q b → a.id = b.id → p = q

/-- A rotation that a step adds is its own `save`. -/
theorem rotates_of_did {o : Op} {r : o.Ret} {w : World} {stored : RefreshToken}
    (hrotates : Rotates cfg (h.push (.did pid o r h.world) w) p stored) :
    Rotates cfg h p stored ∨ (p = pid ∧ ∃ now, Exchangeable stored now ∧
      (⟨o, r⟩ : Entry Op.Ret) = ⟨.db (.saveToken (stored.revoked now)), .ok ()⟩ ∧
      isRefresh pid h.trace = true) := by
  obtain ⟨token, opts, verified, now, hstart, hstored, hlog⟩ := hrotates
  have hstart' : Event.start p (.refreshTokens token opts) ∈ h.trace :=
    (List.mem_cons.mp hstart).resolve_left nofun
  by_cases hp : pid = p
  · subst hp
    rw [Hist.push_trace, log_did_self] at hlog
    rcases List.suffix_cons_iff.mp hlog with heq | hlog
    · exact .inr ⟨rfl, now, hstored, (List.cons.inj heq).1.symm, isRefresh_of_start hstart'⟩
    · exact .inl ⟨token, opts, verified, now, hstart', hstored, hlog⟩
  · rw [Hist.push_trace, log_cons_of_ne (e := .did pid o r h.world) hp] at hlog
    exact .inl ⟨token, opts, verified, now, hstart', hstored, hlog⟩

theorem sighted_of_rotates (hi : Informed h) (hrotates : Rotates cfg h p a) :
    ∃ t, h.world.refreshTokens.row a.id = some t ∧ t.revokedAt ≠ none := by
  obtain ⟨token, opts, verified, now, -, -, hlog⟩ := hrotates
  obtain ⟨t, ht, -, hrevoked⟩ := hi.saved p (a.revoked now) (hlog.subset List.mem_cons_self)
  exact ⟨t, ht, hrevoked nofun⟩

/-- **Every step keeps rotations apart**, if a row is found unrevoked when it is rotated. -/
theorem RotatedOnce.step (hone : RotatedOnce cfg h) (hi : Informed h)
    (hd : Disciplined (Acting cfg) (Returned cfg) h) (hd' : Disciplined (Acting cfg) (Returned cfg) h')
    (hs : HistStep (system cfg) (Acting cfg) h h') (hok : findsUnrevoked h h' = true) :
    RotatedOnce cfg h' := by
  cases hs with
  | idle e he hlive =>
    have hkept : ∀ {p stored}, Rotates cfg (h.push e h.world) p stored → Rotates cfg h p stored := by
      rintro p stored ⟨token, opts, verified, now, hstart, hstored, hlog⟩
      rw [Hist.push_trace, he] at hlog
      refine ⟨token, opts, verified, now, ?_, hstored, hlog⟩
      obtain ⟨c, hc⟩ : ∃ c, Event.start p c ∈ h.trace := by
        obtain ⟨w, hw⟩ := mem_log.mp (hlog.subset List.mem_cons_self)
        exact hd.start_mem _ hw
      exact hd'.start_unique p _ _ (List.mem_cons_of_mem e hc) hstart ▸ hc
    exact fun p q a b ha hb hid => hone p q a b (hkept ha) (hkept hb) hid
  | did pid c o choice r w hstart hD hexec hlive =>
    -- a row that was rotated is revoked, so that nobody rotates it again
    have hnew : ∀ {p a b now}, Rotates cfg h p a → Exchangeable b now →
        (⟨o, r⟩ : Entry Op.Ret) = ⟨.db (.saveToken (b.revoked now)), .ok ()⟩ →
        isRefresh pid h.trace = true → a.id ≠ b.id := by
      rintro p a b now ha hb heq hrefresh hid
      cases heq
      obtain ⟨t, ht, hrevoked⟩ := sighted_of_rotates hi ha
      have hfound : (!isRefresh pid h.trace || (b.revoked now).revokedAt.any (b.absoluteExpiresAt < ·) ||
          (h.world.refreshTokens.row b.id).any (·.revokedAt = none)) = true := hok
      have hwithin : (b.revoked now).revokedAt.any (b.absoluteExpiresAt < ·) = false :=
        decide_eq_false (Int.not_lt.mpr hb.within)
      rw [hrefresh, hwithin, ← hid, ht] at hfound
      exact hrevoked (of_decide_eq_true hfound)
    intro p q a b ha hb hid
    rcases rotates_of_did ha with ha | ⟨rfl, now, ha', heq, hrefresh⟩ <;>
      rcases rotates_of_did hb with hb | ⟨hq, now', hb', heq', hrefresh'⟩
    · exact hone p q a b ha hb hid
    · exact absurd hid (hnew ha hb' heq' hrefresh')
    · exact absurd hid.symm (hnew hb ha' heq hrefresh)
    · exact hq.symm

/-- Who returns tokens has stored a successor. -/
theorem exchanges_of_returned (hd : Disciplined (Acting cfg) (Returned cfg) h) {opts : StoreTokenOptions}
    (hstart : Event.start p (.refreshTokens token opts) ∈ h.trace) {tokens : Tokens}
    (hreturned : Event.returned p (.ok (.tokens tokens)) ∈ h.trace) : ∃ a, Exchanges h p token a := by
  obtain ⟨payload, iat, iat', record, L, hL, -⟩ := hd.returned p _ _ hstart hreturned
  exact ⟨record, opts, hstart, hL ▸ List.mem_cons_self⟩

/-- Where no row is rotated twice, the rotation is linear. -/
theorem RotatedOnce.linear (hone : RotatedOnce cfg h) (hi : Informed h)
    (hd : Disciplined (Acting cfg) (Returned cfg) h) : Linear h := by
  have hcalls : ∀ token p q a b, Exchanges h p token a → Exchanges h q token b → p = q := by
    intro token p q a b ha hb
    obtain ⟨stored, now, hp⟩ := exchanged_of_exchanges hd hi ha
    obtain ⟨stored', now', hq⟩ := exchanged_of_exchanges hd hi hb
    obtain ⟨t, ht, hterms, -⟩ := hp.sighted
    obtain ⟨t', ht', hterms', -⟩ := hq.sighted
    refine hone p q stored stored' hp.rotates hq.rotates (hi.distinct ht ht' ?_)
    rw [tokenHash_of_terms hterms, tokenHash_of_terms hterms', hp.hash, hq.hash]
  refine ⟨fun token p q a b ha hb => ?_, fun token p q a opts tokens ha hstart hreturned => ?_⟩
  · obtain rfl := hcalls token p q a b ha hb
    obtain ⟨opts, hstart, ha⟩ := ha
    obtain ⟨-, -, hb⟩ := hb
    exact ⟨rfl, eq_of_insert hd hstart ha hb⟩
  · obtain ⟨b, hb⟩ := exchanges_of_returned hd hstart hreturned
    exact hcalls token q p b a hb ha

/-- **The rotation is linear in every run** in which each refresh that exchanges a token finds its
row still unrevoked when it saves it. -/
theorem linear_of_findsUnrevoked (cfg : Config) (w₀ : World) (hd : Distinct w₀.refreshTokens)
    (s : AuthState)
    (hs : (system cfg).ReachableWhen (fun h h' => findsUnrevoked h h' = true) (.init w₀) s) :
    Linear s.hist := by
  have hdisc := disciplined_of_reachable (follows_acting cfg) hs
  obtain ⟨hi, hone⟩ := invariant_of_informed (I := RotatedOnce cfg) hd
    (fun p q a b ⟨_, _, _, _, hstart, _⟩ => absurd hstart List.not_mem_nil)
    (fun h h' hd hd' hi hone hk hok => hone.step hi hd hd' hk hok) hs
  exact hone.linear hi hdisc

end Exchanges

/-! ### Two refreshes with one token -/

namespace Sample

/-- Digests that tell versions and seconds apart. -/
def config : Config where
  digest
    | .signed _ payload iat =>
        String.ofList (List.replicate payload.tokenVersion.toNat 'v' ++ List.replicate iat.toNat 's')
    | .other text => text
  blindIndex email := email

/-- A user. -/
def user : User where
  id := 0
  walletAddress := "G0"
  email := some "user"
  emailBlindIndex := some "user"
  password := some "hash"

/-- What the tokens of the user say. -/
def payload (tokenVersion : ℤ) : Payload where
  sub := "G0"
  userId := 0
  email := "user"
  role := .user
  tokenVersion := tokenVersion

/-- The user has logged in at second 0. -/
def loggedIn (absoluteExpiresAt : ℤ) : World where
  users := Table.empty.put user
  refreshTokens := Table.empty.put
    { id := 0, userId := 0, tokenHash := "", expiresAt := 7 * day, absoluteExpiresAt }

theorem distinct_loggedIn (absoluteExpiresAt : ℤ) :
    Distinct (loggedIn absoluteExpiresAt).refreshTokens := by
  have hrow : ∀ i a, (loggedIn absoluteExpiresAt).refreshTokens.row i = some a → i = 0 := by
    intro i a ha
    by_contra hi
    exact absurd (ha.symm.trans (Table.row_put_of_ne Table.empty hi)) nofun
  exact fun i j a b ha hb _ => (hrow i a ha).trans (hrow j b hb).symm

/-- The refresh token of the login. -/
def token : Token := .signed .refresh (payload 0) 0

/-- A refresh begins, and reads the row of its token, and the time. -/
def reading (pid : ℕ) (now : ℤ) : List (Move Choice Call) :=
  [.start (.refreshTokens token {}), .run pid (.time now), .run pid .done, .run pid (.time now)]

/-- It exchanges the token. -/
def exchanging (pid : ℕ) (now : ℤ) : List (Move Choice Call) :=
  List.replicate 6 (.run pid .done : Move Choice Call) ++
    List.replicate 3 (.run pid (.time now) : Move Choice Call) ++
    ([.run pid .done, .finish pid] : List (Move Choice Call))

/-- The call presents the token and has returned tokens. -/
def exchanged (pid : ℕ) (es : Events) : Bool :=
  (es.any fun
    | .start p (.refreshTokens token' _) => p = pid ∧ token' = token
    | _ => false) &&
  es.any fun
    | .returned p (.ok (.tokens _)) => p = pid
    | _ => false

/-- A refresh with a revoked row: it revokes the sessions of the user, and sends the alert. -/
def refusing (pid : ℕ) (now : ℤ) : List (Move Choice Call) :=
  [.run pid (.time now), .run pid .done, .run pid .done, .run pid .done, .run pid .done,
    .run pid .done, .run pid .done, .finish pid]

/-- The call presents the token and has been refused. -/
def refused (pid : ℕ) (es : Events) : Bool :=
  (es.any fun
    | .start p (.refreshTokens token' _) => p = pid ∧ token' = token
    | _ => false) &&
  es.any fun
    | .returned p (.error e) => p = pid ∧ e = unauthorized "Access Denied"
    | _ => false

theorem of_exchanged {pid : ℕ} {es : Events} (h : exchanged pid es = true) :
    ∃ opts tokens, Event.start pid (.refreshTokens token opts) ∈ es ∧
      Event.returned pid (.ok (.tokens tokens)) ∈ es := by
  obtain ⟨hstart, hreturned⟩ := Bool.and_eq_true_iff.mp h
  obtain ⟨e, he, hpresents⟩ := List.any_eq_true.mp hstart
  obtain ⟨e', he', hreturns⟩ := List.any_eq_true.mp hreturned
  split at hpresents
  next p token' opts =>
    obtain ⟨rfl, rfl⟩ := of_decide_eq_true hpresents
    split at hreturns
    next p' tokens =>
      obtain rfl := of_decide_eq_true hreturns
      exact ⟨opts, tokens, he, he'⟩
    next => cases hreturns
  next => cases hpresents

end Sample

/-- One refresh exchanges the token, and a second one with it is refused. -/
theorem linear_sample : ∃ s : AuthState, Sample.exchanged 0 s.hist.trace = true ∧
    Sample.refused 1 s.hist.trace = true ∧ Linear s.hist := by
  obtain ⟨s, hs, hdone⟩ := System.exists_of_replay (system Sample.config)
    (fun h h' => findsUnrevoked h h' = true) (.init (Sample.loggedIn (30 * day)))
    (Sample.reading 0 0 ++ Sample.exchanging 0 0 ++ Sample.reading 1 1000 ++ Sample.refusing 1 1000)
    (fun s => Sample.exchanged 0 s.hist.trace && Sample.refused 1 s.hist.trace) (by decide +kernel)
  obtain ⟨hfirst, hsecond⟩ := Bool.and_eq_true_iff.mp hdone
  exact ⟨s, hfirst, hsecond, linear_of_findsUnrevoked Sample.config _ (Sample.distinct_loggedIn _) s hs⟩

/-- Two refreshes read the row before either saves it: both return tokens. -/
theorem not_linear : ¬ ∀ (cfg : Config) (w₀ : World), Distinct w₀.refreshTokens →
    ∀ s, (system cfg).Reachable (.init w₀) s → Linear s.hist := by
  intro hall
  obtain ⟨s, hs, hdone⟩ := System.exists_of_replay (system Sample.config) (fun _ _ => True)
    (.init (Sample.loggedIn (30 * day)))
    (Sample.reading 0 0 ++ Sample.reading 1 0 ++ Sample.exchanging 0 0 ++ Sample.exchanging 1 0)
    (fun s => Sample.exchanged 0 s.hist.trace && Sample.exchanged 1 s.hist.trace) (by decide +kernel)
  obtain ⟨hfirst, hsecond⟩ := Bool.and_eq_true_iff.mp hdone
  obtain ⟨opts, tokens, hstart, hreturned⟩ := Sample.of_exchanged hfirst
  obtain ⟨opts', tokens', hstart', hreturned'⟩ := Sample.of_exchanged hsecond
  have hdisc := disciplined_of_reachable (follows_acting Sample.config) hs
  obtain ⟨a, ha⟩ := exchanges_of_returned hdisc hstart hreturned
  exact absurd ((hall _ _ (Sample.distinct_loggedIn _) s hs).silent _ _ _ a _ _ ha hstart' hreturned') nofun

end Ahjoor.Auth
