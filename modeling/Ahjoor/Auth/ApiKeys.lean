import Ahjoor.Async.Executions
import Ahjoor.Async.Moments
import Ahjoor.Auth.AuthService

/-!
# API keys

A key is shown once, when it is created; the table keeps its digest. A request presents the key, and
is let in as its owner if the table has a row with the digest that is neither revoked nor expired.
Revoking reads the row and saves it whole. The time of the last use is written by an update that
nobody waits for, and that touches no other column, so that it takes no revocation back. The audit
record of a request is left out.

A request that is let in has presented a key as it was issued (`issued_of_accepted`), and none is let
in with a key whose revocation has returned before (`ne_of_revoked`).
-/

namespace Ahjoor.ApiKeys

open Async Auth Store

/-! ### Rows -/

inductive KeyScope
  | READ_GROUPS
  | WRITE_GROUPS
  | READ_CONTRIBUTIONS
  | WRITE_CONTRIBUTIONS
  | READ_MEMBERS
  | WRITE_MEMBERS
  | ADMIN
  deriving DecidableEq, Repr

/-- `ApiKey`. -/
structure ApiKey where
  id : Uuid := 0
  keyHash : String
  name : String
  ownerId : Uuid
  scopes : List KeyScope
  lastUsedAt : Option ℤ := none
  expiresAt : Option ℤ
  revokedAt : Option ℤ := none
  deriving DecidableEq

instance : Entity ApiKey := ⟨ApiKey.id, fun i k => { k with id := i }, fun _ _ => rfl⟩

structure CreateApiKeyDto where
  name : String
  scopes : Option (List KeyScope) := none
  expiresAt : Option ℤ := none
  deriving DecidableEq

/-- `req.user`, as the guard sets it. -/
structure RequestUser where
  id : Uuid
  apiKeyId : Uuid
  scopes : List KeyScope
  deriving DecidableEq

/-- The user that a key stands for. -/
def ApiKey.user (k : ApiKey) : RequestUser := ⟨k.ownerId, k.id, k.scopes⟩

/-! ### Operations -/

/-- The table, the clock, and the updates of the last use that are still under way. -/
structure World where
  keys : Table ApiKey := .empty
  clock : ℤ := 0
  touches : List (Uuid × ℤ) := []

inductive Op
  /-- `randomBytes(32).toString('hex')` -/
  | randomBytes
  | dateNow
  /-- `repo.save` of an entity just created -/
  | insertKey (key : ApiKey)
  | findById (id : Uuid)
  | findByHash (keyHash : String)
  /-- `repo.save` of an entity with an id -/
  | saveKey (key : ApiKey)
  /-- `repo.update(id, { lastUsedAt })`, not awaited -/
  | touch (id : Uuid) (lastUsedAt : ℤ)
  /-- an update of the last use reaches the table, or fails -/
  | settle
  deriving DecidableEq

abbrev Op.Ret : Op → Type
  | randomBytes => String
  | dateNow => ℤ
  | insertKey _ => Except Exc ApiKey
  | findById _ | findByHash _ => Except Exc (Option ApiKey)
  | saveKey _ => Except Exc Unit
  | touch _ _ | settle => Unit

/-- The freedom of the environment. -/
inductive Choice
  | done
  | fails (message : String)
  /-- done, and the answer lost -/
  | lost (message : String)
  | drawn (hex : String)
  | now (ms : ℤ)
  deriving DecidableEq

namespace World

/-- The unique index on `keyHash`. -/
def byHash (w : World) (keyHash : String) : Option ApiKey := w.keys.find? (·.keyHash == keyHash)

/-- The table after a new row, if its digest is free. -/
def inserted (w : World) (key : ApiKey) : World :=
  if (w.byHash key.keyHash).isSome then w else { w with keys := (w.keys.insert key).2 }

/-- What an insert answers. -/
def insertReply (w : World) (key : ApiKey) : Except Exc ApiKey :=
  if (w.byHash key.keyHash).isSome then .error (.uniqueViolation "UQ_api_keys_keyHash")
  else .ok (w.keys.insert key).1

/-- The oldest update of a last use takes effect. -/
def settled (w : World) : World :=
  match w.touches with
  | [] => w
  | (id, lastUsedAt) :: touches =>
      { w with
        keys := w.keys.modify (·.id == id) fun k => { k with lastUsedAt := some lastUsedAt }
        touches := touches }

end World

/-- What an operation does. -/
def exec : (o : Op) → ℕ → Choice → World → Option (o.Ret × World)
  | .randomBytes, _, .drawn hex, w => some (hex, w)
  | .dateNow, _, .now ms, w => if w.clock ≤ ms then some (ms, { w with clock := ms }) else none
  | .insertKey key, _, .done, w => some (w.insertReply key, w.inserted key)
  | .insertKey _, _, .fails message, w => some (.error (.error message), w)
  | .insertKey key, _, .lost message, w => some (.error (.error message), w.inserted key)
  | .findById id, _, .done, w => some (.ok (w.keys.row id), w)
  | .findById _, _, .fails message, w => some (.error (.error message), w)
  | .findByHash keyHash, _, .done, w => some (.ok (w.byHash keyHash), w)
  | .findByHash _, _, .fails message, w => some (.error (.error message), w)
  | .saveKey key, _, .done, w => some (.ok (), { w with keys := w.keys.put key })
  | .saveKey _, _, .fails message, w => some (.error (.error message), w)
  | .saveKey key, _, .lost message, w =>
      some (.error (.error message), { w with keys := w.keys.put key })
  | .touch id lastUsedAt, _, .done, w =>
      some ((), { w with touches := w.touches ++ [(id, lastUsedAt)] })
  | .settle, _, .done, w => some ((), w.settled)
  | .settle, _, .fails _, w => some ((), { w with touches := w.touches.tail })
  | _, _, _, _ => none

/-! ### The service -/

abbrev Service (α : Type) := Routine Op.Ret Unit Exc α

/-- Await an operation that cannot throw. -/
def await (o : Op) : Service o.Ret := Routine.perform o

section

variable (sha256 : String → String)

/-- The plaintext of a key. -/
def plaintextOf (hex : String) : String := "ak_live_" ++ hex

/-- `repo.create({ … })` -/
def newKey (dto : CreateApiKeyDto) (ownerId : Uuid) (plaintext : String) : ApiKey where
  keyHash := sha256 plaintext
  name := dto.name
  ownerId := ownerId
  scopes := dto.scopes.getD []
  expiresAt := dto.expiresAt

/-- `create(dto, ownerId)`. -/
def create (dto : CreateApiKeyDto) (ownerId : Uuid) : Service (String × ApiKey) := do
  let hex : String ← await .randomBytes
  let plaintext := plaintextOf hex
  let apiKey : ApiKey ← Routine.call (.insertKey (newKey sha256 dto ownerId plaintext)) fun r => r
  pure (plaintext, apiKey)

/-- `revoke(id)`. -/
def revoke (id : Uuid) : Service Unit := do
  let key? : Option ApiKey ← Routine.call (.findById id) fun r => r
  let key ← Routine.valueOr key? (notFound "API key not found")
  let now : ℤ ← await .dateNow
  Routine.call (.saveKey { key with revokedAt := some now }) fun r => r

/-- `if (apiKey.expiresAt && apiKey.expiresAt < new Date()) throw …` -/
def refuseExpired (apiKey : ApiKey) : Service Unit :=
  match apiKey.expiresAt with
  | none => pure ()
  | some expiresAt => do
      let now : ℤ ← await .dateNow
      Routine.throwWhen (expiresAt < now) (unauthorized "API key expired")

/-- `validateAndTouch(plaintext, request)`. -/
def validateAndTouch (plaintext : String) : Service ApiKey := do
  let apiKey? : Option ApiKey ← Routine.call (.findByHash (sha256 plaintext)) fun r => r
  let apiKey ← Routine.valueOr apiKey? (unauthorized "Invalid API key")
  Routine.throwWhen apiKey.revokedAt.isSome (unauthorized "API key revoked")
  refuseExpired apiKey
  let now : ℤ ← await .dateNow
  await (.touch apiKey.id now)
  pure apiKey

/-- `canActivate(context)` of `ApiKeyAuthGuard`, for the header `x-api-key`. -/
def canActivate (header : Option String) : Service RequestUser := do
  Routine.throwWhen (header.getD "" == "") (unauthorized "Missing X-Api-Key header")
  let apiKey ← validateAndTouch sha256 (header.getD "")
  pure apiKey.user

/-! ### The system -/

/-- The calls, and the updates that nobody waits for. -/
inductive Call
  | create (dto : CreateApiKeyDto) (ownerId : Uuid)
  | revoke (id : Uuid)
  | canActivate (header : Option String)
  | settle
  deriving DecidableEq

/-- What a call returns. -/
inductive Reply
  | created (plaintext : String) (apiKey : ApiKey)
  | done
  | user (user : RequestUser)
  deriving DecidableEq

/-- The body of a call. -/
def request : Call → Service Reply
  | .create dto ownerId => do
      let (plaintext, apiKey) ← create sha256 dto ownerId
      pure (.created plaintext apiKey)
  | .revoke id => do
      revoke id
      pure .done
  | .canActivate header => do
      let user ← canActivate sha256 header
      pure (.user user)
  | .settle => do
      await .settle
      pure .done

/-- Any number of calls. -/
def system : System Op.Ret Choice World Call (Except Exc Reply) where
  exec := exec
  body c := (request sha256 c ()).bind fun x => .ret x.1

end

/-- The history of a run. -/
abbrev History := Hist Op.Ret World Call (Except Exc Reply)

/-- The state of a run. -/
abbrev RunState := State Op.Ret World Call (Except Exc Reply)

/-! ### What a call may write -/

section Disciplines

variable {sha256 : String → String}

/-- What the calls write: `create` inserts a key that it has drawn, `revoke` saves the row that it
has read, revoked. -/
def May (sha256 : String → String) (c : Call) (L : Log Op.Ret) : Op → Prop
  | .insertKey key => ∃ dto ownerId hex, c = .create dto ownerId ∧ ⟨.randomBytes, hex⟩ ∈ L ∧
      key = newKey sha256 dto ownerId (plaintextOf hex)
  | .saveKey key => ∃ id row now, c = .revoke id ∧ ⟨.findById id, .ok (some row)⟩ ∈ L ∧
      key = { row with revokedAt := some now }
  | _ => True

/-- The key was good when the request looked at it. -/
def Good (key : ApiKey) (L : Log Op.Ret) : Prop :=
  key.revokedAt = none ∧
    ∀ expiresAt, key.expiresAt = some expiresAt → ∃ now : ℤ, ⟨.dateNow, now⟩ ∈ L ∧ now ≤ expiresAt

/-- What holds when a call returns. -/
def Returned (sha256 : String → String) : Call → Except Exc Reply → Log Op.Ret → Prop
  | .revoke id, a, L => a = .ok .done → ∃ row now, ⟨.findById id, .ok (some row)⟩ ∈ L ∧
      ⟨.saveKey { row with revokedAt := some now }, .ok ()⟩ ∈ L
  | .canActivate header, a, L => ∀ user, a = .ok (.user user) → ∃ key,
      ⟨.findByHash (sha256 (header.getD "")), .ok (some key)⟩ ∈ L ∧ user = key.user ∧ Good key L
  | _, _, _ => True

theorem Good.mono {key : ApiKey} {L L' : Log Op.Ret} (h : Good key L) (hL : L ⊆ L') : Good key L' :=
  ⟨h.1, fun expiresAt he => by
    obtain ⟨now, hmem, hle⟩ := h.2 expiresAt he
    exact ⟨now, hL hmem, hle⟩⟩

theorem obeys_refuseExpired {c : Call} {key : ApiKey} {L : Log Op.Ret}
    (hrevoked : key.revokedAt = none) {Q : Unit → Unit → Log Op.Ret → Prop}
    (hQ : ∀ L', L ⊆ L' → Good key L' → Q () () L') :
    Obeys (May sha256 c) (refuseExpired key) Q Anyhow () L := by
  unfold refuseExpired
  split
  · next hnone =>
    exact .pure (hQ L (fun _ h => h) ⟨hrevoked, fun _ he => by rw [hnone] at he; cases he⟩)
  · next expiresAt hexpires =>
    refine .bind (.perform trivial fun now => .throwWhen (fun _ => trivial) fun hpass => ?_)
    refine hQ _ (fun _ h => List.mem_cons_of_mem _ h) ⟨hrevoked, fun e he => ?_⟩
    obtain rfl : expiresAt = e := Option.some.inj (hexpires.symm.trans he)
    exact ⟨now, List.mem_cons_self, not_lt.mp (of_decide_eq_false hpass)⟩

/-- A request looks for the digest of what it presents, and lets in the user of a good key. -/
theorem obeys_validateAndTouch {c : Call} (plaintext : String) :
    Obeys (May sha256 c) (validateAndTouch sha256 plaintext)
      (fun key _ L => ⟨.findByHash (sha256 plaintext), .ok (some key)⟩ ∈ L ∧ Good key L) Anyhow () [] := by
  refine .bind (.call trivial fun r => ?_)
  cases r with
  | error e => trivial
  | ok key? =>
    refine .bind (.valueOr (fun key hkey => ?_) fun _ => trivial)
    subst hkey
    refine .bind (.throwWhen (fun _ => trivial) fun hrevoked => ?_)
    have hnone : key.revokedAt = none := by simpa using hrevoked
    refine .bind (obeys_refuseExpired hnone fun L hL hgood => ?_)
    refine .bind (.perform trivial fun now => .bind (.perform trivial fun _ => .pure ⟨?_, ?_⟩))
    · exact List.mem_cons_of_mem _ (List.mem_cons_of_mem _ (hL List.mem_cons_self))
    · exact hgood.mono fun _ h => List.mem_cons_of_mem _ (List.mem_cons_of_mem _ h)

theorem obeys_revoke (id : Uuid) :
    Obeys (May sha256 (.revoke id)) (revoke id)
      (fun _ _ L => ∃ row now, ⟨.findById id, .ok (some row)⟩ ∈ L ∧
        ⟨.saveKey { row with revokedAt := some now }, .ok ()⟩ ∈ L) Anyhow () [] := by
  refine .bind (.call trivial fun r => ?_)
  cases r with
  | error e => trivial
  | ok key? =>
    refine .bind (.valueOr (fun row hrow => ?_) fun _ => trivial)
    subst hrow
    refine .bind (.perform trivial fun now => ?_)
    have hread : (⟨.findById id, .ok (some row)⟩ : Entry Op.Ret) ∈
        (⟨.dateNow, now⟩ :: ⟨.findById id, .ok (some row)⟩ :: [] : Log Op.Ret) :=
      List.mem_cons_of_mem _ List.mem_cons_self
    refine .call ⟨id, row, now, rfl, hread, rfl⟩ fun r => ?_
    cases r with
    | error e => trivial
    | ok _ => exact ⟨row, now, List.mem_cons_of_mem _ hread, List.mem_cons_self⟩

theorem obeys_create (dto : CreateApiKeyDto) (ownerId : Uuid) :
    Obeys (May sha256 (.create dto ownerId)) (create sha256 dto ownerId) Anyhow Anyhow () [] := by
  refine .bind (.perform trivial fun hex => ?_)
  refine .bind (.call ⟨dto, ownerId, hex, rfl, List.mem_cons_self, rfl⟩ fun r => ?_)
  cases r with
  | error e => trivial
  | ok key => exact .pure trivial

theorem follows_body (c : Call) :
    Follows (May sha256 c) (Returned sha256 c) ((system sha256).body c) [] := by
  cases c with
  | create dto ownerId =>
    suffices h : Obeys (May sha256 (.create dto ownerId)) (request sha256 (.create dto ownerId))
        Anyhow Anyhow () [] from h.follows.bind fun _ _ _ => trivial
    exact .bind ((obeys_create dto ownerId).mono (fun _ _ _ _ => .pure trivial) fun _ _ _ h => h)
  | revoke id =>
    have h := Obeys.bind (f := fun _ => (pure .done : Service Reply))
      (Q := fun _ _ L => ∃ row now, ⟨.findById id, .ok (some row)⟩ ∈ L ∧
        ⟨.saveKey { row with revokedAt := some now }, .ok ()⟩ ∈ L)
      ((@obeys_revoke sha256 id).mono (fun _ _ _ h => Obeys.pure h) fun _ _ _ h => h)
    refine h.follows.bind fun x L hx => ?_
    obtain ⟨e | reply, t⟩ := x
    · exact fun heq => by cases heq
    · exact fun _ => hx
  | canActivate header =>
    have h := Obeys.bind (f := fun user => (pure (.user user) : Service Reply))
      (Q := fun reply _ L => ∀ user, reply = .user user → ∃ key,
        ⟨.findByHash (sha256 (header.getD "")), .ok (some key)⟩ ∈ L ∧ user = key.user ∧ Good key L)
      (m := canActivate sha256 header) (X := Anyhow) (s := ()) (L := []) (D := May sha256 (.canActivate header))
      (.bind (.throwWhen (fun _ => trivial) fun _ => .bind
        ((obeys_validateAndTouch (header.getD "")).mono
          (fun key _ L h => .pure (.pure fun user heq => by
            cases heq
            exact ⟨key, h.1, rfl, h.2⟩)) fun _ _ _ h => h)))
    refine h.follows.bind fun x L hx => ?_
    obtain ⟨e | reply, t⟩ := x
    · exact fun user heq => by cases heq
    · exact fun user heq => hx user (Except.ok.inj heq)
  | settle =>
    suffices h : Obeys (May sha256 .settle) (request sha256 .settle) Anyhow Anyhow () [] from
      h.follows.bind fun _ _ _ => trivial
    exact .bind (.perform trivial fun _ => .pure trivial)

end Disciplines

/-! ### What an operation does to a row -/

/-- The rows are the same, except perhaps for the time of the last use. -/
def SameKey (key key' : ApiKey) : Prop := ∃ lastUsedAt, key' = { key with lastUsedAt := lastUsedAt }

theorem SameKey.rfl {key : ApiKey} : SameKey key key := ⟨key.lastUsedAt, by cases key; trivial⟩

section Rows

variable {w w' : World} {i : ℕ} {key key' : ApiKey}

theorem row_inserted (hrow : (w.inserted key).keys.row i = some key') :
    w.keys.row i = some key' ∨ w.keys.row i = none ∧ key' = { key with id := i } := by
  rw [World.inserted] at hrow
  split at hrow
  · exact .inl hrow
  · by_cases hi : i = w.keys.next
    · subst hi
      exact .inr ⟨Table.row_next _, Option.some.inj (hrow.symm.trans (Table.row_put_self _ _))⟩
    · exact .inl ((Table.row_put_of_ne w.keys hi).symm.trans hrow)

theorem row_inserted_of_row (hrow : w.keys.row i = some key') :
    (w.inserted key).keys.row i = some key' := by
  rw [World.inserted]
  split
  · exact hrow
  · exact Table.row_insert_of_row _ _ hrow

theorem row_settled (hrow : w.keys.row i = some key) :
    ∃ key', w.settled.keys.row i = some key' ∧ SameKey key key' := by
  rw [World.settled]
  split
  · exact ⟨key, hrow, .rfl⟩
  · next id lastUsedAt touches _ =>
    rw [Table.row_modify, hrow]
    have hid : key.id = i := w.keys.id_of_row hrow
    by_cases htouched : (key.id == id) = true
    · refine ⟨_, congrArg some (if_pos htouched), some lastUsedAt, ?_⟩
      subst hid
      rfl
    · exact ⟨key, congrArg some (if_neg htouched), .rfl⟩

theorem row_of_settled (hrow : w.settled.keys.row i = some key') :
    ∃ key, w.keys.row i = some key ∧ SameKey key key' := by
  cases hkey : w.keys.row i with
  | none =>
    rw [World.settled] at hrow
    split at hrow
    · rw [hkey] at hrow
      cases hrow
    · rw [Table.row_modify, hkey] at hrow
      cases hrow
  | some key =>
    obtain ⟨key'', hrow', hsame⟩ := row_settled hkey
    obtain rfl := Option.some.inj (hrow.symm.trans hrow')
    exact ⟨key, rfl, hsame⟩

/-- **What an operation does to the table.** -/
theorem keys_exec {o : Op} {pid : ℕ} {choice : Choice} {r : o.Ret}
    (hexec : exec o pid choice w = some (r, w')) :
    w'.keys = w.keys ∨ (∃ key, o = .insertKey key ∧ w'.keys = (w.inserted key).keys) ∨
      (∃ key, o = .saveKey key ∧ w'.keys = w.keys.put key) ∨ w'.keys = w.settled.keys := by
  cases o with
  | insertKey key =>
    cases choice <;> simp only [exec, Option.some.injEq, Prod.mk.injEq, reduceCtorEq] at hexec
    case done | lost => exact .inr (.inl ⟨key, rfl, by rw [hexec.2]⟩)
    case fails => exact .inl (by rw [hexec.2])
  | saveKey key =>
    cases choice <;> simp only [exec, Option.some.injEq, Prod.mk.injEq, reduceCtorEq] at hexec
    case done | lost => exact .inr (.inr (.inl ⟨key, rfl, by rw [← hexec.2]⟩))
    case fails => exact .inl (by rw [hexec.2])
  | settle =>
    cases choice <;> simp only [exec, Option.some.injEq, Prod.mk.injEq, reduceCtorEq] at hexec
    case done => exact .inr (.inr (.inr (by rw [hexec.2])))
    case fails => exact .inl (by rw [← hexec.2])
  | dateNow =>
    cases choice <;> simp only [exec, reduceCtorEq] at hexec
    split at hexec <;> cases hexec
    exact .inl rfl
  | _ => cases choice <;> cases hexec <;> exact .inl rfl

/-- Where a row comes from: it was there, up to the time of its last use, or it has been inserted or
saved. -/
theorem row_exec {o : Op} {pid : ℕ} {choice : Choice} {r : o.Ret}
    (hexec : exec o pid choice w = some (r, w')) (hrow : w'.keys.row i = some key') :
    (∃ key, w.keys.row i = some key ∧ SameKey key key') ∨
      (∃ key, o = .insertKey key ∧ w.keys.row i = none ∧ key' = { key with id := i }) ∨
      o = .saveKey key' ∧ key'.id = i := by
  rcases keys_exec hexec with heq | ⟨new, rfl, heq⟩ | ⟨new, rfl, heq⟩ | heq <;> rw [heq] at hrow
  · exact .inl ⟨key', hrow, .rfl⟩
  · rcases row_inserted hrow with hold | hnew
    · exact .inl ⟨key', hold, .rfl⟩
    · exact .inr (.inl ⟨new, rfl, hnew⟩)
  · by_cases hi : i = new.id
    · subst hi
      obtain rfl : new = key' := Option.some.inj ((Table.row_put_self w.keys new).symm.trans hrow)
      exact .inr (.inr ⟨rfl, rfl⟩)
    · exact .inl ⟨key', (Table.row_put_of_ne w.keys hi).symm.trans hrow, .rfl⟩
  · exact .inl (row_of_settled hrow)

/-- What becomes of a row: it stays, up to the time of its last use, or it has been saved. -/
theorem row_kept {o : Op} {pid : ℕ} {choice : Choice} {r : o.Ret}
    (hexec : exec o pid choice w = some (r, w')) (hrow : w.keys.row i = some key) :
    ∃ key', w'.keys.row i = some key' ∧ (SameKey key key' ∨ o = .saveKey key' ∧ key'.id = i) := by
  rcases keys_exec hexec with heq | ⟨new, rfl, heq⟩ | ⟨new, rfl, heq⟩ | heq <;> rw [heq]
  · exact ⟨key, hrow, .inl .rfl⟩
  · exact ⟨key, row_inserted_of_row hrow, .inl .rfl⟩
  · by_cases hi : i = new.id
    · subst hi
      exact ⟨new, Table.row_put_self w.keys new, .inr ⟨rfl, rfl⟩⟩
    · exact ⟨key, (Table.row_put_of_ne w.keys hi).trans hrow, .inl .rfl⟩
  · obtain ⟨key', hrow', hsame⟩ := row_settled hrow
    exact ⟨key', hrow', .inl hsame⟩

end Rows

/-! ### What a run keeps -/

/-- The key is as a call has created it, up to its id and the times of its last use and its
revocation. -/
def Issued (sha256 : String → String) (h : History) (key : ApiKey) : Prop :=
  ∃ pid dto hex, Event.start pid (.create dto key.ownerId) ∈ h.trace ∧
    ⟨.randomBytes, hex⟩ ∈ log pid h.trace ∧
    key = { newKey sha256 dto key.ownerId (plaintextOf hex) with
      id := key.id, lastUsedAt := key.lastUsedAt, revokedAt := key.revokedAt }

/-- Every row, and every row that a call has read, was issued. -/
structure AllIssued (sha256 : String → String) (h : History) : Prop where
  rows : ∀ i key, h.world.keys.row i = some key → Issued sha256 h key
  read : ∀ pid id key, ⟨.findById id, .ok (some key)⟩ ∈ log pid h.trace → Issued sha256 h key
  found : ∀ pid keyHash key, ⟨.findByHash keyHash, .ok (some key)⟩ ∈ log pid h.trace →
    Issued sha256 h key ∧ key.keyHash = keyHash

/-- The row is revoked. -/
def Revoked (w : World) (id : Uuid) : Prop :=
  ∃ key, w.keys.row id = some key ∧ key.revokedAt ≠ none

/-- A row is revoked from its acknowledged save with a revocation on, and a call that revokes a row
has read it under the id that it was given. -/
structure RevokesLast (h : History) : Prop where
  read : ∀ pid id key, ⟨.findById id, .ok (some key)⟩ ∈ log pid h.trace → key.id = id
  saved : ∀ pid key, ⟨.saveKey key, .ok ()⟩ ∈ log pid h.trace → key.revokedAt ≠ none →
    Revoked h.world key.id

section Steps

variable {sha256 : String → String} {h h' : History}

theorem Issued.step (hs : HistStep (system sha256) (May sha256) h h') {key : ApiKey}
    (hi : Issued sha256 h key) : Issued sha256 h' key := by
  obtain ⟨pid, dto, hex, hstart, hdrawn, heq⟩ := hi
  refine ⟨pid, dto, hex, ?_, (hs.log_suffix pid).subset hdrawn, heq⟩
  cases hs <;> exact List.mem_cons_of_mem _ hstart

theorem Issued.same {key key' : ApiKey} (hi : Issued sha256 h key) (hsame : SameKey key key') :
    Issued sha256 h key' := by
  obtain ⟨pid, dto, hex, hstart, hdrawn, heq⟩ := hi
  obtain ⟨lastUsedAt, rfl⟩ := hsame
  exact ⟨pid, dto, hex, hstart, hdrawn, congrArg (fun k => { k with lastUsedAt := lastUsedAt }) heq⟩

theorem exec_findById {id : Uuid} {pid : ℕ} {choice : Choice} {w w' : World} {key : ApiKey}
    (hexec : exec (.findById id) pid choice w = some (.ok (some key), w')) :
    w.keys.row id = some key := by
  cases choice <;> simp only [exec, Option.some.injEq, Prod.mk.injEq, Except.ok.injEq,
    reduceCtorEq, false_and] at hexec
  exact hexec.1

theorem exec_findByHash {keyHash : String} {pid : ℕ} {choice : Choice} {w w' : World}
    {key : ApiKey} (hexec : exec (.findByHash keyHash) pid choice w = some (.ok (some key), w')) :
    w.keys.row key.id = some key ∧ key.keyHash = keyHash := by
  cases choice <;> simp only [exec, Option.some.injEq, Prod.mk.injEq, Except.ok.injEq,
    reduceCtorEq, false_and] at hexec
  obtain ⟨hrow, hhash⟩ := Table.of_find?_eq_some hexec.1
  exact ⟨hrow, by simpa using hhash⟩

theorem AllIssued.step (ha : AllIssued sha256 h)
    (hs : HistStep (system sha256) (May sha256) h h') : AllIssued sha256 h' := by
  have stays : ∀ {key}, Issued sha256 h key → Issued sha256 h' key := fun hi => hi.step hs
  refine ⟨fun i key hrow => ?_, fun pid id key hmem => ?_, fun pid keyHash key hmem => ?_⟩
  · cases hs with
    | idle e he hlive => exact stays (ha.rows i key hrow)
    | did pid c o choice r w hstart hD hexec hlive =>
      rcases row_exec hexec hrow with ⟨old, hold, hsame⟩ | ⟨new, rfl, -, rfl⟩ | ⟨rfl, -⟩
      · exact (stays (ha.rows i old hold)).same hsame
      · obtain ⟨dto, ownerId, hex, rfl, hdrawn, rfl⟩ := hD
        refine ⟨pid, dto, hex, List.mem_cons_of_mem _ hstart, ?_, rfl⟩
        rw [Hist.push_trace, log_did_self]
        exact List.mem_cons_of_mem _ hdrawn
      · obtain ⟨id, row, now, rfl, hread, rfl⟩ := hD
        obtain ⟨q, dto, hex, hq, hdrawn, heq⟩ := stays (ha.read pid id row hread)
        exact ⟨q, dto, hex, hq, hdrawn, congrArg (fun k => { k with revokedAt := some now }) heq⟩
  · rcases hs.mem_log hmem with hold | ⟨choice, hexec⟩
    · exact stays (ha.read pid id key hold)
    · exact stays (ha.rows _ key (exec_findById hexec))
  · rcases hs.mem_log hmem with hold | ⟨choice, hexec⟩
    · obtain ⟨hi, hhash⟩ := ha.found pid keyHash key hold
      exact ⟨stays hi, hhash⟩
    · obtain ⟨hrow, hhash⟩ := exec_findByHash hexec
      exact ⟨stays (ha.rows _ key hrow), hhash⟩

/-- **A revocation is not taken back.** -/
theorem Revoked.step (hs : HistStep (system sha256) (May sha256) h h') {id : Uuid}
    (hr : Revoked h.world id) : Revoked h'.world id := by
  obtain ⟨key, hrow, hrevoked⟩ := hr
  cases hs with
  | idle e he hlive => exact ⟨key, hrow, hrevoked⟩
  | did pid c o choice r w hstart hD hexec hlive =>
    obtain ⟨key', hrow', ⟨lastUsedAt, rfl⟩ | ⟨rfl, -⟩⟩ := row_kept hexec hrow
    · exact ⟨_, hrow', hrevoked⟩
    · obtain ⟨_, _, now, -, -, rfl⟩ := hD
      exact ⟨_, hrow', Option.some_ne_none now⟩

theorem RevokesLast.step (hl : RevokesLast h)
    (hs : HistStep (system sha256) (May sha256) h h') : RevokesLast h' := by
  refine ⟨fun pid id key hmem => ?_, fun pid key hmem hrevoked => ?_⟩
  · rcases hs.mem_log hmem with hold | ⟨choice, hexec⟩
    · exact hl.read pid id key hold
    · exact h.world.keys.id_of_row (exec_findById hexec)
  · rcases hs.mem_log hmem with hold | ⟨choice, hexec⟩
    · exact (hl.saved pid key hold hrevoked).step hs
    · have hexec : exec (.saveKey key) pid choice h.world = some (.ok (), h'.world) := hexec
      cases choice <;> simp only [exec, Option.some.injEq, Prod.mk.injEq, reduceCtorEq,
        false_and] at hexec
      refine ⟨key, ?_, hrevoked⟩
      rw [← hexec.2]
      exact Table.row_put_self _ _

end Steps

/-! ### Who is let in -/

/-- **A request is let in with a key as it was issued**, in every run that begins without keys: the
table held a row during the request that was not revoked and had not expired, with the owner, the
scopes and the expiry that a call of `create` was given, and the digest of the key that this call
has drawn is the one of the header. -/
theorem issued_of_accepted (sha256 : String → String) {w : World} (hw : w.keys = .empty)
    {s : RunState} (hr : (system sha256).Reachable (.init w) s) {pid : ℕ} {header : Option String}
    (hstart : Event.start pid (.canActivate header) ∈ s.hist.trace) {user : RequestUser}
    (hret : Event.returned pid (.ok (.user user)) ∈ s.hist.trace) :
    ∃ key, user = key.user ∧ (∃ w, Moment s.hist pid w ∧ w.keys.row key.id = some key) ∧
      Good key (log pid s.hist.trace) ∧
      ∃ q dto hex, Event.start q (.create dto key.ownerId) ∈ s.hist.trace ∧
        ⟨.randomBytes, hex⟩ ∈ log q s.hist.trace ∧
        sha256 (header.getD "") = sha256 (plaintextOf hex) ∧
        key.scopes = dto.scopes.getD [] ∧ key.expiresAt = dto.expiresAt := by
  have hd := disciplined_of_reachable follows_body hr
  have hall : AllIssued sha256 s.hist := hist_invariant follows_body (I := AllIssued sha256)
    ⟨fun i key hrow => by simp [hw, Table.empty] at hrow,
      fun _ _ _ hmem => absurd hmem List.not_mem_nil, fun _ _ _ hmem => absurd hmem List.not_mem_nil⟩
    (fun _ _ _ _ ha hs _ => ha.step hs) hr
  obtain ⟨key, hfound, rfl, hgood⟩ := hd.returned pid _ _ hstart hret user rfl
  obtain ⟨before, hdid⟩ := mem_log.mp hfound
  have hperformed := performed_of_reachable hr
  obtain ⟨choice, after, hexec⟩ := hperformed.exec hdid
  obtain ⟨⟨q, dto, hex, hq, hdrawn, heq⟩, hhash⟩ := hall.found pid _ key hfound
  refine ⟨key, rfl, ⟨before, hperformed.moment hdid, (exec_findByHash hexec).1⟩, hgood, q, dto, hex,
    hq, hdrawn, ?_, ?_, ?_⟩
  · rw [← hhash, heq]
    rfl
  · exact congrArg ApiKey.scopes heq
  · exact congrArg ApiKey.expiresAt heq

/-- **A revoked key lets nobody in**: once `revoke(id)` has returned, no request that comes later is
let in with the key. -/
theorem ne_of_revoked (sha256 : String → String) {w : World} {s₁ s : RunState}
    (hr₁ : (system sha256).Reachable (.init w) s₁) (hr : (system sha256).Reachable s₁ s)
    {r : ℕ} {id : Uuid} (hrevoke : Event.start r (.revoke id) ∈ s₁.hist.trace)
    (hdone : Event.returned r (.ok .done) ∈ s₁.hist.trace) {pid : ℕ} (hlater : s₁.started ≤ pid)
    {header : Option String} (hstart : Event.start pid (.canActivate header) ∈ s.hist.trace)
    {user : RequestUser} (hret : Event.returned pid (.ok (.user user)) ∈ s.hist.trace) :
    user.apiKeyId ≠ id := by
  have hlast : RevokesLast s₁.hist := hist_invariant follows_body (I := RevokesLast)
    ⟨fun _ _ _ hmem => absurd hmem List.not_mem_nil, fun _ _ hmem => absurd hmem List.not_mem_nil⟩
    (fun _ _ _ _ hl hs _ => hl.step hs) hr₁
  have hrevoked : Revoked s₁.hist.world id := by
    obtain ⟨row, now, hread, hsaved⟩ :=
      (disciplined_of_reachable follows_body hr₁).returned r _ _ hrevoke hdone rfl
    rw [← hlast.read r id row hread]
    exact hlast.saved r { row with revokedAt := some now } hsaved (Option.some_ne_none now)
  have hl : System.Lifecycle s₁ := (hr₁.rule (J := fun _ => True) trivial fun _ _ _ _ _ _ _ => trivial).1
  obtain ⟨-, hreads⟩ : Revoked s.hist.world id ∧ ∀ p, s₁.started ≤ p → ∀ keyHash key,
      ⟨.findByHash keyHash, .ok (some key)⟩ ∈ log p s.hist.trace → key.id = id →
      key.revokedAt ≠ none := by
    refine hist_invariant_from follows_body (I := fun h => Revoked h.world id ∧
      ∀ p, s₁.started ≤ p → ∀ keyHash key, ⟨.findByHash keyHash, .ok (some key)⟩ ∈ log p h.trace →
        key.id = id → key.revokedAt ≠ none) hr₁ ⟨hrevoked, fun p hp keyHash key hmem => ?_⟩ ?_ hr
    · rw [log_eq_nil_of_le hl hp] at hmem
      cases hmem
    · rintro h h' - - ⟨hrev, hold⟩ hs -
      refine ⟨hrev.step hs, fun p hp keyHash key hmem hid => ?_⟩
      rcases hs.mem_log hmem with hmem | ⟨choice, hexec⟩
      · exact hold p hp keyHash key hmem hid
      · obtain ⟨row, hrow, hnone⟩ := hrev
        obtain rfl : key = row :=
          Option.some.inj ((exec_findByHash hexec).1.symm.trans (hid ▸ hrow))
        exact hnone
  have hd := disciplined_of_reachable follows_body (hr₁.trans hr)
  obtain ⟨key, hfound, rfl, hgood⟩ := hd.returned pid _ _ hstart hret user rfl
  exact fun hid => hreads pid hlater _ key hfound hid hgood.1

/-! ### Two keys -/

namespace Sample

def dto : CreateApiKeyDto := { name := "a", scopes := some [.READ_GROUPS], expiresAt := some 10 }

/-- Two keys are created for one owner, and the first is revoked. -/
def setUp : List (Move Choice Call) :=
  [.start (.create dto 7), .run 0 (.drawn "00"), .run 0 .done, .finish 0,
    .start (.create dto 7), .run 1 (.drawn "01"), .run 1 .done, .finish 1,
    .start (.revoke 0), .run 2 .done, .run 2 (.now 3), .run 2 .done, .finish 2]

/-- The second key is presented. -/
def present : List (Move Choice Call) :=
  [.start (.canActivate (some "ak_live_01")), .run 3 .done, .run 3 (.now 4), .run 3 (.now 4),
    .run 3 .done, .finish 3]

/-- The user whom the second key stands for. -/
def user : RequestUser := ⟨7, 1, [.READ_GROUPS]⟩

end Sample

theorem issued_of_accepted_second : ∃ (s : RunState) (key : ApiKey),
    (system id).Reachable (.init {}) s ∧ Sample.user = key.user ∧
    ∃ q dto hex, Event.start q (.create dto key.ownerId) ∈ s.hist.trace ∧
      ⟨.randomBytes, hex⟩ ∈ log q s.hist.trace ∧ "ak_live_01" = plaintextOf hex ∧
      key.scopes = dto.scopes.getD [] ∧ key.expiresAt = dto.expiresAt := by
  obtain ⟨s, hr, hs⟩ := System.exists_of_replay (system id) (fun _ _ => True) (.init {})
    (Sample.setUp ++ Sample.present)
    (fun s => s.hist.trace.any (Event.isStart 3 (.canActivate (some "ak_live_01"))) &&
      s.hist.trace.any (Event.isReturned 3 (.ok (.user Sample.user)))) (by decide +kernel)
  obtain ⟨hstart, hret⟩ := Bool.and_eq_true_iff.mp hs
  obtain ⟨key, huser, -, -, hissued⟩ := issued_of_accepted id rfl hr (mem_of_isStart hstart)
    (mem_of_isReturned hret)
  exact ⟨s, key, hr, huser, hissued⟩

theorem ne_of_revoked_second : ∃ s : RunState, (system id).Reachable (.init {}) s ∧
    Event.returned 3 (.ok (.user Sample.user)) ∈ s.hist.trace ∧ Sample.user.apiKeyId ≠ 0 := by
  obtain ⟨s₁, s, hr₁, hr, hs₁, hs⟩ := System.exists_of_replay₂ (system id) (fun _ _ => True)
    (.init {}) Sample.setUp Sample.present
    (fun s => s.started == 3 && s.hist.trace.any (Event.isStart 2 (.revoke 0)) &&
      s.hist.trace.any (Event.isReturned 2 (.ok .done)))
    (fun s => s.hist.trace.any (Event.isStart 3 (.canActivate (some "ak_live_01"))) &&
      s.hist.trace.any (Event.isReturned 3 (.ok (.user Sample.user)))) (by decide +kernel)
  simp only [Bool.and_eq_true, beq_iff_eq] at hs₁ hs
  obtain ⟨⟨hstarted, hrevoke⟩, hdone⟩ := hs₁
  have hret := mem_of_isReturned hs.2
  exact ⟨s, hr₁.trans hr, hret, ne_of_revoked id hr₁ hr (mem_of_isStart hrevoke)
    (mem_of_isReturned hdone) hstarted.le (mem_of_isStart hs.1) hret⟩

end Ahjoor.ApiKeys
