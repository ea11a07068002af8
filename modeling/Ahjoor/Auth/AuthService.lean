import Ahjoor.Auth.World

/-!
# `AuthService` and `JwtStrategy`

Logins, the rotation of refresh tokens and the revocation of sessions, and the check of an access
token. Logs are left out. The JSON Web Tokens of a pair are signed one after the other.
-/

namespace Ahjoor.Auth

open Async

/-- The body of an asynchronous method. -/
abbrev Service (α : Type) := Routine Op.Ret Unit Exc α

variable (cfg : Config)

/-- An awaited query. -/
def query (q : Query) : Service q.Ret := Routine.call (.db q) fun r => r

/-- `new UnauthorizedException(message)`. -/
def unauthorized (message : String) : Exc := .http 401 message

/-! ### `UsersService` -/

/-- `findById(id)`. -/
def findById (id : Uuid) : Service User := do
  let user ← query (.findUserById id)
  Routine.valueOr user (notFound "User not found")

/-- `incrementTokenVersion(userId)`. -/
def incrementTokenVersion (userId : Uuid) : Service ℤ := do
  let user ← findById userId
  query (.updateUser userId (.tokenVersion (user.tokenVersion + 1)))
  Routine.call (.invalidateVersion userId) fun _ => .ok ()
  pure (user.tokenVersion + 1)

/-- `revokeAllSessions(userId)`. -/
def revokeAllSessions (userId : Uuid) : Service Unit := do
  let user ← findById userId
  query (.updateUser userId (.sessions (user.tokenVersion + 1)))
  Routine.call (.invalidateVersion userId) fun _ => .ok ()

/-! ### Issuing tokens -/

/-- `jwtService.signAsync(payload, { secret, expiresIn })`. -/
def signAsync (secret : Secret) (payload : Payload) : Service Token := do
  let now : ℤ ← Routine.perform Op.now
  pure (.signed secret payload (now / 1000))

/-- `generateTokens(sub, email, role, tokenVersion)`. -/
def generateTokens (sub email : String) (role : UserRole) (tokenVersion : Option ℤ) :
    Service Tokens := do
  let found ← query (.findUserByWalletAddress sub)
  let user ← Routine.valueOr found (.error "Cannot read properties of null")
  let payload : Payload :=
    { sub, userId := user.id, email, role, tokenVersion := tokenVersion.getD user.tokenVersion }
  let accessToken ← signAsync .access payload
  let refreshToken ← signAsync .refresh payload
  pure { accessToken, refreshToken }

/-- `StoreTokenOptions`. -/
structure StoreTokenOptions where
  deviceId : Option String := none
  deviceName : Option String := none
  ipAddress : Option String := none
  /-- carried forward from the previous token on rotation -/
  absoluteExpiresAt : Option ℤ := none
  deriving DecidableEq, Repr

/-- A day in milliseconds. -/
def day : ℤ := 24 * 60 * 60 * 1000

/-- `storeRefreshToken(userId, refreshToken, opts)`. -/
def storeRefreshToken (userId : Uuid) (refreshToken : Token) (opts : StoreTokenOptions) :
    Service Unit := do
  let now : ℤ ← Routine.perform Op.now
  let absoluteExpiresAt : ℤ ←
    match opts.absoluteExpiresAt with
    | some absoluteExpiresAt => pure absoluteExpiresAt
    | none => do
        let now : ℤ ← Routine.perform Op.now
        pure (now + cfg.refreshTokenAbsoluteExpiryDays * day)
  query (.insertToken
    { id := 0, userId, tokenHash := cfg.digest refreshToken, expiresAt := now + 7 * day,
      absoluteExpiresAt, deviceId := opts.deviceId, deviceName := opts.deviceName,
      ipAddress := opts.ipAddress })

/-- The tokens of a session of a user, the refresh token stored. -/
def openSession (user : User) (tokenVersion : Option ℤ) (opts : StoreTokenOptions) :
    Service Tokens := do
  let tokens ← generateTokens user.walletAddress (user.email.getD "") user.role tokenVersion
  storeRefreshToken cfg user.id tokens.refreshToken opts
  pure tokens

/-! ### `AuthService` -/

/-- `revokeAllUserTokens(userId)`. -/
def revokeAllUserTokens (userId : Uuid) : Service Unit := do
  let now : ℤ ← Routine.perform Op.now
  query (.revokeTokens userId now)
  revokeAllSessions userId

/-- `sendSecurityAlert(userId)`. -/
def sendSecurityAlert (userId : Uuid) : Service Unit :=
  tryCatch
    (do
      let user ← findById userId
      match user.email with
      | some email =>
          if email = "" then pure () else Routine.call (.sendMail email) fun r => r
      | none => pure ())
    fun _ => pure ()

/-- `LoginDto`. -/
structure LoginDto where
  email : String
  password : String
  deriving DecidableEq, Repr

/-- `login(loginDto, opts)`. -/
def login (loginDto : LoginDto) (opts : StoreTokenOptions) : Service Tokens := do
  let found ← query (.findUserByEmail loginDto.email)
  let user ← Routine.valueOr found (unauthorized "Invalid credentials")
  let password ← Routine.valueOr (user.password.filter (· ≠ "")) (unauthorized "Invalid credentials")
  let isPasswordValid : Bool ← Routine.perform
    (Op.comparePassword loginDto.password password)
  Routine.throwWhen (!isPasswordValid) (unauthorized "Invalid credentials")
  Routine.throwWhen user.twoFactorEnabled (forbidden "2FA verification required")
  openSession cfg user none opts

/-- What `refreshTokens` does with the row of a token that may be exchanged. -/
def rotate (stored : RefreshToken) (now : ℤ) (opts : StoreTokenOptions) : Service Tokens := do
  query (.saveToken (stored.revoked now))
  let user ← findById stored.userId
  let newTokenVersion ← incrementTokenVersion user.id
  openSession cfg user (some newTokenVersion)
    { opts with absoluteExpiresAt := some stored.absoluteExpiresAt }

/-- `refreshTokens(incomingRefreshToken, opts)`. -/
def refreshTokens (incomingRefreshToken : Token) (opts : StoreTokenOptions) : Service Tokens := do
  let now : ℤ ← Routine.perform Op.now
  Routine.throwWhen (!incomingRefreshToken.verifies .refresh now)
    (unauthorized "Invalid refresh token")
  let found ← query (.findToken (cfg.digest incomingRefreshToken))
  let now : ℤ ← Routine.perform Op.now
  match found with
  | none => throw (unauthorized "Access Denied")
  | some stored =>
      if stored.revokedAt ≠ none then do
        revokeAllUserTokens stored.userId
        sendSecurityAlert stored.userId
        throw (unauthorized "Access Denied")
      else if stored.expiresAt < now then do
        revokeAllUserTokens stored.userId
        throw (unauthorized "Access Denied")
      else if stored.absoluteExpiresAt < now then do
        query (.saveToken (stored.revoked now))
        throw (unauthorized "Session has expired. Please log in again.")
      else rotate cfg stored now opts

/-- `revokeSession(userId, sessionId)`. -/
def revokeSession (userId sessionId : Uuid) : Service Unit := do
  let found ← query (.findTokenById sessionId)
  let token ← Routine.valueOr (found.filter (·.userId = userId)) (notFound "Session not found")
  let now : ℤ ← Routine.perform Op.now
  query (.saveToken (token.revoked now))

/-- `logout(userId, refreshToken)`. -/
def logout (userId : Uuid) (refreshToken : Option Token) : Service Unit := do
  (match refreshToken.filter (· ≠ .other "") with
    | some token => do
        let now : ℤ ← Routine.perform Op.now
        query (.revokeToken (cfg.digest token) now)
    | none => revokeAllUserTokens userId)
  revokeAllSessions userId

/-! ### `JwtStrategy` -/

/-- What `validate` makes of the user. -/
structure Principal where
  id : Uuid
  email : Option String
  role : UserRole
  walletAddress : String
  deriving DecidableEq, Repr

/-- `validate(payload)`. -/
def validate (payload : Payload) : Service Principal := do
  let cachedVersion : Option ℤ ← Routine.perform (Op.getVersion payload.userId)
  Routine.throwWhen (cachedVersion.any (· ≠ payload.tokenVersion))
    (unauthorized "Token version mismatch - session revoked")
  let found ← query (.findUserByWalletAddress payload.sub)
  let user ← Routine.valueOr found (unauthorized "Unauthorized")
  Routine.throwWhen (payload.tokenVersion ≠ user.tokenVersion)
    (unauthorized "Token version mismatch - session revoked")
  Routine.call (.setVersion user.id user.tokenVersion) fun _ => .ok ()
  pure { id := user.id, email := user.email, role := user.role, walletAddress := user.walletAddress }

/-! ### The system -/

/-- The calls. -/
inductive Call
  | login (loginDto : LoginDto) (opts : StoreTokenOptions)
  | refreshTokens (incomingRefreshToken : Token) (opts : StoreTokenOptions)
  | revokeSession (userId sessionId : Uuid)
  | logout (userId : Uuid) (refreshToken : Option Token)
  | revokeAllUserTokens (userId : Uuid)
  | validate (payload : Payload)
  deriving DecidableEq

/-- What a call returns. -/
inductive Reply
  | tokens (tokens : Tokens)
  | done
  | principal (user : Principal)
  deriving DecidableEq

/-- The body of a call. -/
def Call.body : Call → Service Reply
  | login loginDto opts => do
      let tokens ← Auth.login cfg loginDto opts
      pure (.tokens tokens)
  | refreshTokens incomingRefreshToken opts => do
      let tokens ← Auth.refreshTokens cfg incomingRefreshToken opts
      pure (.tokens tokens)
  | revokeSession userId sessionId => do
      Auth.revokeSession userId sessionId
      pure .done
  | logout userId refreshToken => do
      Auth.logout cfg userId refreshToken
      pure .done
  | revokeAllUserTokens userId => do
      Auth.revokeAllUserTokens userId
      pure .done
  | validate payload => do
      let user ← Auth.validate payload
      pure (.principal user)

/-- The requests on sessions. -/
def system : System Op.Ret Choice World Call (Except Exc Reply) where
  exec := exec cfg
  body c := (c.body cfg ()).bind fun x => .ret x.1

/-- The state of a run. -/
abbrev AuthState := State Op.Ret World Call (Except Exc Reply)

/-- The history of a run. -/
abbrev History := Hist Op.Ret World Call (Except Exc Reply)

/-- The events of a run, newest first. -/
abbrev Events := List (Event Op.Ret World Call (Except Exc Reply))

end Ahjoor.Auth
