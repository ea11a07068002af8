import Ahjoor.Async.Discipline
import Ahjoor.Auth.AuthService

/-!
# `TwoFactorService`: logins with a second factor

A login with a backup code reads the list of hashed codes, looks the code up, and writes the list
back without it. Nothing keeps another login from doing so in between.

The hash, and what a pre-auth token says, are parameters. Whether a pre-auth token is still good, and
whether a code is a valid TOTP at the moment, is up to the environment.
-/

namespace Ahjoor.TwoFactor

open Async Store

/-! ### Rows -/

/-- The columns of a user that a second factor needs. -/
structure User where
  id : Uuid
  twoFactorSecret : Option String := none
  twoFactorEnabled : Bool := false
  backupCodes : Option (List String) := none
  deriving DecidableEq

instance : Entity User := ⟨User.id, fun i u => { u with id := i }, fun _ _ => rfl⟩

/-- The payload of a pre-auth token. -/
structure PreAuthPayload where
  sub : Uuid
  email : String
  role : String
  deriving DecidableEq

/-- SHA-256 in hexadecimal, and the payload of a pre-auth token that was issued. -/
structure Config where
  sha256 : String → String
  payload : String → Option PreAuthPayload

/-! ### Operations -/

inductive Op
  | verifyPreAuthToken (token : String)
  | findById2FA (userId : Uuid)
  | verifyToken (token secret : String)
  /-- `update2FA(userId, { backupCodes })` -/
  | update2FA (userId : Uuid) (backupCodes : List String)
  deriving DecidableEq

/-- Replies. -/
abbrev Op.Ret : Op → Type
  | verifyPreAuthToken _ => Except Exc PreAuthPayload
  | findById2FA _ => Except Exc (Option User)
  | verifyToken _ _ => Bool
  | update2FA _ _ => Except Exc Unit

/-- What the requests share. -/
structure World where
  users : Table User

/-- The freedom of the environment: an operation is done, fails, or is done and its reply lost; and
a code is a valid TOTP or not. -/
inductive Choice
  | done
  | fails (message : String)
  | replyLost (message : String)
  | totp (valid : Bool)
  deriving DecidableEq

/-- The list of codes of a user is replaced. -/
def World.setCodes (w : World) (userId : Uuid) (backupCodes : List String) : World :=
  { w with users := w.users.modify (·.id = userId) fun u => { u with backupCodes := some backupCodes } }

variable (cfg : Config)

/-- What an operation does. -/
def exec : (o : Op) → ℕ → Choice → World → Option (o.Ret × World)
  | .verifyPreAuthToken token, _, .done, w =>
      some (match cfg.payload token with
        | some payload => .ok payload
        | none => .error (Auth.unauthorized "Invalid or expired pre-auth token"), w)
  | .verifyPreAuthToken _, _, .fails _, w =>
      some (.error (Auth.unauthorized "Invalid or expired pre-auth token"), w)
  | .findById2FA userId, _, .done, w => some (.ok (w.users.row userId), w)
  | .findById2FA _, _, .fails message, w => some (.error (.error message), w)
  | .verifyToken _ _, _, .totp valid, w => some (valid, w)
  | .update2FA userId backupCodes, _, .done, w => some (.ok (), w.setCodes userId backupCodes)
  | .update2FA _ _, _, .fails message, w => some (.error (.error message), w)
  | .update2FA userId backupCodes, _, .replyLost message, w =>
      some (.error (.error message), w.setCodes userId backupCodes)
  | _, _, _, _ => none

/-! ### The service -/

/-- The body of an asynchronous method. -/
abbrev Service (α : Type) := Routine Op.Ret Unit Exc α

/-- `completeTwoFactorLogin(preAuthToken, token)`. An index that is not found is the length of the
list. -/
def completeTwoFactorLogin (preAuthToken token : String) : Service Uuid := do
  let payload ← Routine.call (.verifyPreAuthToken preAuthToken) fun r => r
  let found ← Routine.call (.findById2FA payload.sub) fun r => r
  let user ← Routine.valueOr found (notFound "User not found")
  let secret ← Routine.valueOr
    (if user.twoFactorEnabled then user.twoFactorSecret.filter (· ≠ "") else none)
    (forbidden "2FA is not enabled for this account")
  let valid ← Routine.call (.verifyToken token secret) .ok
  if valid then
    pure user.id
  else
    let hashedCodes := user.backupCodes.getD []
    let codeIndex := hashedCodes.idxOf (cfg.sha256 token)
    if codeIndex = hashedCodes.length then
      throw (Auth.unauthorized "Invalid TOTP token or backup code")
    else
      Routine.call (.update2FA user.id (hashedCodes.eraseIdx codeIndex)) fun r => r
      pure user.id

/-! ### The system -/

/-- A request. -/
structure Login where
  preAuthToken : String
  token : String
  deriving DecidableEq

/-- Logins. -/
def system : System Op.Ret Choice World Login (Except Exc Uuid) where
  exec := exec cfg
  body c := (completeTwoFactorLogin cfg c.preAuthToken c.token ()).bind fun x => .ret x.1

/-- The history of a run. -/
abbrev History := Hist Op.Ret World Login (Except Exc Uuid)

/-- The events of a run, newest first. -/
abbrev Events := List (Event Op.Ret World Login (Except Exc Uuid))

/-! ### What is claimed -/

/-- The hashed codes of a user. -/
def World.codes (w : World) (userId : Uuid) : List String :=
  ((w.users.row userId).bind User.backupCodes).getD []

/-- The request presents the code for the user. -/
def Presents (h : History) (userId : Uuid) (code : String) (pid : ℕ) : Prop :=
  ∃ preAuthToken payload, Event.start pid ⟨preAuthToken, code⟩ ∈ h.trace ∧
    ⟨.verifyPreAuthToken preAuthToken, .ok payload⟩ ∈ log pid h.trace ∧ payload.sub = userId

/-- The request **logs in with the backup code**. -/
def Accepted (h : History) (userId : Uuid) (code : String) (pid : ℕ) : Prop :=
  ∃ preAuthToken codes, Event.start pid ⟨preAuthToken, code⟩ ∈ h.trace ∧
    ⟨.update2FA userId codes, .ok ()⟩ ∈ log pid h.trace ∧ Event.returned pid (.ok userId) ∈ h.trace

/-- **A backup code logs in at most once**: no more requests log in with a code than it was issued
times, and a code that has not been presented is still there. -/
structure OnceOnly (w₀ : World) (h : History) : Prop where
  once : ∀ userId (issued : List String) code (pids : List ℕ),
    w₀.codes userId = issued.map cfg.sha256 → pids.Nodup → (∀ pid ∈ pids, Accepted h userId code pid) → pids.length ≤ issued.count code
  kept : ∀ userId (issued : List String) code, w₀.codes userId = issued.map cfg.sha256 →
    (∀ pid, ¬ Presents h userId code pid) →
      (h.world.codes userId).count (cfg.sha256 code) = issued.count code

/-! ### When it holds -/

/-- A step that writes the list of codes back finds **the list that the request has read**. -/
def writesUnchanged (_ h' : History) : Bool :=
  match h'.trace with
  | .did pid (.update2FA userId _) _ before :: es =>
      (log pid es).any fun e =>
        match e with
        | ⟨.findById2FA _, .ok (some user)⟩ => user.backupCodes.getD [] = before.codes userId
        | _ => false
  | _ => true

end Ahjoor.TwoFactor
