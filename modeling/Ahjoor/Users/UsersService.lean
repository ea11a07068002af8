import Ahjoor.Async.Discipline
import Ahjoor.Groups.Entities

/-!
# `UsersService` and `UserRepository`

The rows of the users and what writes them. The e-mail address is kept encrypted; what is read back
is what was written, so the model keeps the address itself. A second column holds its blind index, a
keyed hash of the address in lower case, and the address is looked up through that column only.

What the calls do besides, to tokens, their cached versions and notification preferences, is left
out: none of it reads or writes a user.
-/

namespace Ahjoor.Users

open Async Store

/-! ### Rows -/

inductive UserRole
  | admin | user | guest
  deriving DecidableEq, Repr

/-- The columns of a user that these calls write. -/
structure User where
  id : Uuid := 0
  walletAddress : String
  email : Option String := none
  emailBlindIndex : Option String := none
  username : Option String := none
  password : Option String := none
  role : UserRole := .user
  refreshTokenHash : Option String := none
  tokenVersion : ℤ := 0
  twoFactorSecret : Option String := none
  twoFactorEnabled : Bool := false
  backupCodes : Option (List String) := none
  firstName : Option String := none
  lastName : Option String := none
  avatarUrl : Option String := none
  bio : Option String := none
  isActive : Bool := true
  bannedAt : Option ℤ := none
  banReason : Option String := none
  deriving DecidableEq, Repr

instance : Entity User := ⟨User.id, fun i u => { u with id := i }, fun _ _ => rfl⟩

/-- `update2FA`'s fields. -/
structure TwoFactorFields where
  twoFactorSecret : Option (Option String) := none
  twoFactorEnabled : Option Bool := none
  backupCodes : Option (Option (List String)) := none
  deriving DecidableEq, Repr

/-- `update(userId, fields)`. -/
inductive UserUpdate
  /-- `{ refreshTokenHash }` -/
  | refreshToken (hash : Option String)
  /-- `{ tokenVersion }` -/
  | tokenVersion (version : ℤ)
  /-- `{ refreshTokenHash: null, tokenVersion }` -/
  | sessions (version : ℤ)
  | twoFactor (fields : TwoFactorFields)
  /-- the fields of `anonymizeUser` -/
  | anonymized (email walletAddress : String)
  deriving DecidableEq, Repr

/-- The row after an update. -/
def UserUpdate.apply : UserUpdate → User → User
  | refreshToken hash, u => { u with refreshTokenHash := hash }
  | tokenVersion version, u => { u with tokenVersion := version }
  | sessions version, u => { u with refreshTokenHash := none, tokenVersion := version }
  | twoFactor fields, u => { u with
      twoFactorSecret := fields.twoFactorSecret.getD u.twoFactorSecret
      twoFactorEnabled := fields.twoFactorEnabled.getD u.twoFactorEnabled
      backupCodes := fields.backupCodes.getD u.backupCodes }
  | anonymized email walletAddress, u => { u with
      email := some email
      walletAddress
      firstName := some "DELETED"
      lastName := some "DELETED"
      username := none
      bio := none
      avatarUrl := none
      isActive := false }

/-- The users. -/
abbrev World := Table User

/-- The unique index that a row would violate beside the rows under other keys. -/
def violated (w : World) (u : User) : Option String :=
  if w.rows.any fun v => v.id ≠ u.id && v.walletAddress = u.walletAddress then
    some "UQ_users_walletAddress"
  else if u.emailBlindIndex.isSome &&
      w.rows.any fun v => v.id ≠ u.id && v.emailBlindIndex = u.emailBlindIndex then
    some "IDX_users_emailBlindIndex"
  else none

/-- Write a row unless a unique index is violated. -/
def write (w : World) (u : User) : Except Exc Unit × World :=
  match violated w u with
  | some constraint => (.error (.uniqueViolation constraint), w)
  | none => (.ok (), w.put u)

/-! ### Operations -/

inductive Op
  /-- `Date.now()` -/
  | dateNow
  | hashPassword (password : String)
  | findById (id : Uuid)
  | findByWalletAddress (walletAddress : String)
  /-- `findOne({ where: { emailBlindIndex } })` -/
  | findByBlindIndex (blindIndex : String)
  /-- `save` of a user that has just been created -/
  | insert (user : User)
  /-- `save` of a user that was loaded before -/
  | save (user : User)
  | update (id : Uuid) (fields : UserUpdate)
  deriving DecidableEq

/-- What an operation yields when it is done. -/
abbrev Op.Val : Op → Type
  | dateNow => ℤ
  | hashPassword _ => String
  | findById _ | findByWalletAddress _ | findByBlindIndex _ => Option User
  | insert _ => User
  | save _ | update _ _ => Unit

/-- Replies. -/
abbrev Op.Ret (o : Op) : Type := Except Exc o.Val

/-- The freedom of the environment: an operation is done, fails, or is done although its reply is
lost; the clock shows a time, and a password gets a hash. -/
inductive Choice
  | done
  | fails (message : String)
  | lost (message : String)
  | time (now : ℤ)
  | hash (text : String)
  deriving DecidableEq

/-- What an operation does when it does not fail. -/
def Op.run : (o : Op) → Choice → World → Option (o.Ret × World)
  | dateNow, .time now, w => some (.ok now, w)
  | hashPassword _, .hash text, w => some (.ok text, w)
  | findById id, .done, w => some (.ok (w.row id), w)
  | findByWalletAddress walletAddress, .done, w =>
      some (.ok (w.find? fun u => u.walletAddress = walletAddress), w)
  | findByBlindIndex blindIndex, .done, w =>
      some (.ok (w.find? fun u => u.emailBlindIndex = some blindIndex), w)
  | insert user, .done, w =>
      let user := { user with id := w.next }
      some ((write w user).1.map fun _ => user, (write w user).2)
  | save user, .done, w => some (write w user)
  | update id fields, .done, w =>
      match w.row id with
      | none => some (.ok (), w)
      | some user => some (write w (fields.apply user))
  | _, _, _ => none

/-- What an operation does. -/
def exec (o : Op) (_ : ℕ) (choice : Choice) (w : World) : Option (o.Ret × World) :=
  match choice with
  | .fails message => some (.error (.error message), w)
  | .lost message => (o.run .done w).map fun x => (.error (.error message), x.2)
  | choice => o.run choice w

/-! ### The calls -/

/-- What the module takes from elsewhere: `toLowerCase`, HMAC-SHA-256 under the configured key and
SHA-256, both in hexadecimal, and the digits of a key. -/
structure Config where
  toLowerCase : String → String
  hmac : String → String
  sha256 : String → String
  digits : Uuid → String

/-- The body of an asynchronous method. -/
abbrev Service (α : Type) := Routine Op.Ret Unit Exc α

/-- Await an operation that may fail. -/
def await (o : Op) : Service o.Val := Routine.call o fun r => r

variable (cfg : Config)

/-- `hmacBlindIndex(value)`. -/
def hmacBlindIndex (value : String) : String := cfg.hmac (cfg.toLowerCase value)

/-! ### `UsersService` -/

/-- `findById(id)`. -/
def findById (id : Uuid) : Service User := do
  let user ← await (.findById id)
  Routine.valueOr user (notFound "User not found")

/-- `findByEmail(email)`. -/
def findByEmail (email : String) : Service (Option User) :=
  await (.findByBlindIndex (hmacBlindIndex cfg email))

/-- `create(userData)`. -/
def create (userData : User) : Service User := await (.insert userData)

/-- `updateRefreshToken(userId, refreshTokenHash)`. -/
def updateRefreshToken (userId : Uuid) (refreshTokenHash : Option String) : Service Unit :=
  await (.update userId (.refreshToken refreshTokenHash))

/-- `incrementTokenVersion(userId)`. -/
def incrementTokenVersion (userId : Uuid) : Service Unit := do
  let user ← findById userId
  await (.update userId (.tokenVersion (user.tokenVersion + 1)))

/-- `revokeAllSessions(userId)`. -/
def revokeAllSessions (userId : Uuid) : Service Unit := do
  let user ← findById userId
  await (.update userId (.sessions (user.tokenVersion + 1)))

/-- `banUser(userId, reason)`. -/
def banUser (userId : Uuid) (reason : Option String) : Service Unit := do
  let found ← await (.findById userId)
  let user ← Routine.valueOr found (.error "User not found")
  let now ← await .dateNow
  await (.save { user with
    bannedAt := some now
    banReason := some (reason.getD "No reason provided")
    isActive := false
    tokenVersion := user.tokenVersion + 1 })

/-- `upsertByWalletAddress(walletAddress)`. -/
def upsertByWalletAddress (walletAddress : String) : Service Unit := do
  let user ← await (.findByWalletAddress walletAddress)
  match user with
  | some _ => pure ()
  | none => do
      let _ ← create { walletAddress }
      pure ()

/-- `update2FA(userId, fields)`. -/
def update2FA (userId : Uuid) (fields : TwoFactorFields) : Service Unit :=
  await (.update userId (.twoFactor fields))

/-! ### Its callers -/

/-- `RegisterDto`. -/
structure RegisterDto where
  email : String
  password : String
  firstName : Option String := none
  lastName : Option String := none
  deriving DecidableEq, Repr

/-- `register(registerDto)`, up to the tokens. -/
def register (registerDto : RegisterDto) : Service Unit := do
  let existingUser ← findByEmail cfg registerDto.email
  Routine.throwWhen existingUser.isSome (conflict "Email already exists")
  let hashedPassword ← await (.hashPassword registerDto.password)
  let now ← await .dateNow
  let _ ← create {
    email := some registerDto.email
    password := some hashedPassword
    firstName := registerDto.firstName
    lastName := registerDto.lastName
    walletAddress := s!"internal-{now}"
    role := .user }
  pure ()

/-- `registerWithWallet(walletAddress, signature, challenge)`, up to the tokens. -/
def registerWithWallet (walletAddress : String) (isValid : Bool) : Service Unit := do
  Routine.throwWhen (!isValid) (.http 401 "Invalid signature")
  let user ← await (.findByWalletAddress walletAddress)
  match user with
  | some _ => pure ()
  | none => do
      let _ ← create { walletAddress, role := .user, isActive := true }
      pure ()

/-- The first characters of a text. -/
def slice (text : String) (n : ℕ) : String := String.ofList (text.toList.take n)

/-- `anonymizeUser(userId)`. -/
def anonymizeUser (userId : Uuid) : Service Unit := do
  let found ← await (.findById userId)
  match found with
  | none => pure ()
  | some user =>
      let emailHash :=
        if truthy user.email then slice (cfg.sha256 (user.email.getD "")) 16
        else slice (cfg.digits userId) 16
      await (.update userId (.anonymized s!"deleted_{emailHash}@erased.invalid"
        s!"ERASED_{slice (cfg.digits userId) 8}"))

/-! ### The system -/

inductive Call
  | create (userData : User)
  | updateRefreshToken (userId : Uuid) (refreshTokenHash : Option String)
  | incrementTokenVersion (userId : Uuid)
  | revokeAllSessions (userId : Uuid)
  | banUser (userId : Uuid) (reason : Option String)
  | upsertByWalletAddress (walletAddress : String)
  | update2FA (userId : Uuid) (fields : TwoFactorFields)
  | register (registerDto : RegisterDto)
  | registerWithWallet (walletAddress : String) (isValid : Bool)
  | anonymizeUser (userId : Uuid)

/-- The body of a call. -/
def Call.body : Call → Service Unit
  | create userData => do
      let _ ← Users.create userData
      pure ()
  | updateRefreshToken userId refreshTokenHash => Users.updateRefreshToken userId refreshTokenHash
  | incrementTokenVersion userId => Users.incrementTokenVersion userId
  | revokeAllSessions userId => Users.revokeAllSessions userId
  | banUser userId reason => Users.banUser userId reason
  | upsertByWalletAddress walletAddress => Users.upsertByWalletAddress walletAddress
  | update2FA userId fields => Users.update2FA userId fields
  | register registerDto => Users.register cfg registerDto
  | registerWithWallet walletAddress isValid => Users.registerWithWallet walletAddress isValid
  | anonymizeUser userId => Users.anonymizeUser cfg userId

/-- Calls on the users. -/
def system : System Op.Ret Choice World Call (Except Exc Unit) where
  exec := exec
  body c := (c.body cfg ()).bind fun x => .ret x.1

/-- The history of a run. -/
abbrev History := Hist Op.Ret World Call (Except Exc Unit)

end Ahjoor.Users
