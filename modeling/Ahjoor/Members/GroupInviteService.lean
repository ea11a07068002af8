import Ahjoor.Members.Alone

/-!
# `GroupInviteService`

An invite is a further way into a group, beside the additions by `MembershipsService` and the
admissions from the waitlist. The world has the invites of the group beside its members; a
transaction may write both, and its commit applies both.

`SELECT … FOR UPDATE` on an invite makes others wait that lock it too, or that update it.
-/

namespace Ahjoor.Members.Invites

open Async

/-! ### Rows -/

inductive InviteStatus
  | active | expired | exhausted
  deriving DecidableEq, Repr

/-- An invite into the group. -/
structure GroupInvite where
  id : Uuid
  code : String
  maxUses : ℤ := 1
  usedCount : ℤ := 0
  expiresAt : ℤ
  status : InviteStatus := .active
  deriving DecidableEq, Repr

/-- An update of an invite. -/
inductive InviteWrite
  /-- `increment(GroupInvite, { id }, 'usedCount', 1)` -/
  | incrementUsedCount (id : Uuid)
  /-- `update(GroupInvite, id, { status })` -/
  | updateStatus (id : Uuid) (status : InviteStatus)
  deriving DecidableEq

/-- The key of the invite that is updated. -/
def InviteWrite.id : InviteWrite → Uuid
  | incrementUsedCount id | updateStatus id _ => id

/-- Apply an update to an invite. -/
def InviteWrite.apply : InviteWrite → GroupInvite → GroupInvite
  | incrementUsedCount id, invite =>
      if invite.id = id then { invite with usedCount := invite.usedCount + 1 } else invite
  | updateStatus id status, invite => if invite.id = id then { invite with status } else invite

/-- The invites after the updates of a transaction. -/
def applyAll (invites : List GroupInvite) (xs : List InviteWrite) : List GroupInvite :=
  xs.foldl (fun invites x => invites.map x.apply) invites

/-! ### The world -/

/-- The members of the group and its invites; the updates of the open transactions, who has locked
an invite, and the time. -/
structure World where
  members : Members.World
  invites : List GroupInvite := []
  pendingInvites : ℕ → List InviteWrite := fun _ => []
  inviteHolder : Uuid → Option ℕ := fun _ => none
  clock : ℤ := 0

/-- A world in which no call has started. -/
def started (d : Tables) (invites : List GroupInvite) : World where
  members := Members.started d
  invites

/-- An awaited operation. -/
inductive Op
  /-- an operation on the members -/
  | members (o : Members.Op)
  /-- `SELECT … FOR UPDATE` of the invite with a code -/
  | lockInvite (code : String)
  /-- an update of an invite inside the transaction of the call -/
  | updateInvite (x : InviteWrite)
  /-- `UPDATE … SET status = 'EXPIRED'` of the active invites that have expired at an instant -/
  | expireInvites (now : ℤ)
  /-- `new Date()` -/
  | now

/-- What an operation returns. -/
def Op.Ret : Op → Type
  | members o => o.Ret
  | lockInvite _ => Except Exc (Option GroupInvite)
  | updateInvite _ => Except Exc Unit
  | expireInvites _ => Except Exc ℕ
  | now => ℤ

/-- What the environment decides about one operation. -/
inductive Choice
  | members (choice : Members.Choice)
  | time (t : ℤ)

namespace World

/-- Somebody else has locked the invite. -/
def inviteHeld (w : World) (pid : ℕ) (id : Uuid) : Bool := (w.inviteHolder id).any (· ≠ pid)

/-- Drop the updates of `pid` and its locks of invites. -/
def releaseInvites (w : World) (pid : ℕ) : World :=
  { w with
    pendingInvites := Function.update w.pendingInvites pid []
    inviteHolder := fun id => if w.inviteHolder id = some pid then none else w.inviteHolder id }

/-- Apply the updates of `pid`. -/
def commitInvites (w : World) (pid : ℕ) : World :=
  { w with invites := applyAll w.invites (w.pendingInvites pid) }

/-- What an operation on the members does to the invites: a transaction begins, applies its
updates, or drops them. -/
def settle (w : World) (pid : ℕ) : Members.Op → Members.Choice → World
  | .commitTransaction, .fails _ => w.releaseInvites pid
  | .commitTransaction, _ => (w.commitInvites pid).releaseInvites pid
  | .startTransaction, .done | .rollbackTransaction, .done => w.releaseInvites pid
  | .dropSession p, _ => w.releaseInvites p
  | _, _ => w

end World

/-- The invite is active, and its time has run out at an instant. -/
def GroupInvite.isStale (now : ℤ) (invite : GroupInvite) : Bool :=
  invite.status = .active ∧ invite.expiresAt < now

/-- What an operation of call `pid` does. -/
def exec (missing : OnMissing) : (o : Op) → ℕ → Choice → World → Option (o.Ret × World)
  | .members o, pid, .members choice, w =>
      (Members.exec missing o pid choice w.members).map fun x =>
        (x.1, { w.settle pid o choice with members := x.2 })
  | .lockInvite code, pid, .members .done, w =>
      (w.members.pending pid).bind fun _ =>
        match (applyAll w.invites (w.pendingInvites pid)).find? (·.code = code) with
        | none => some (.ok none, w)
        | some invite =>
            if w.inviteHeld pid invite.id then none
            else some (.ok (some invite),
              { w with inviteHolder := Function.update w.inviteHolder invite.id (some pid) })
  | .lockInvite _, _, .members (.fails msg), w => some (.error (.error msg), w)
  | .updateInvite x, pid, .members .done, w =>
      (w.members.pending pid).bind fun _ =>
        if w.inviteHeld pid x.id then none
        else some (.ok (), { w with
          pendingInvites := Function.update w.pendingInvites pid (w.pendingInvites pid ++ [x]) })
  | .updateInvite _, _, .members (.fails msg), w => some (.error (.error msg), w)
  | .expireInvites now, pid, .members .done, w =>
      if w.invites.any fun invite => invite.isStale now && w.inviteHeld pid invite.id then none
      else some (.ok (w.invites.filter (·.isStale now)).length, { w with
        invites := w.invites.map fun invite =>
          if invite.isStale now then { invite with status := .expired } else invite })
  | .expireInvites _, _, .members (.fails msg), w => some (.error (.error msg), w)
  | .now, _, .time t, w => if w.clock ≤ t then some (t, { w with clock := t }) else none
  | _, _, _, _ => none

/-! ### The service -/

/-- The body of an asynchronous method. -/
abbrev Service (α : Type) := Routine Op.Ret Unit Exc α

/-- A part of a body that is concerned with the members only. -/
def onMembers {α : Type} (m : Members.Service α) : Service α :=
  Routine.via Op.members (fun _ r => r) m

/-- `dataSource.transaction(body)`. -/
def transaction {α : Type} (body : Service α) : Service α := do
  Routine.call (.members .startTransaction) fun r => r
  tryCatch
    (do
      let result ← body
      Routine.call (.members .commitTransaction) fun r => r
      pure result)
    fun err => do
      Routine.call (.members .rollbackTransaction) fun _ => .ok ()
      throw err

/-- `new GoneException(message)`. -/
def gone (message : String) : Exc := .http 410 message

/-- The membership that `joinByCode` returns: one that was there, or the new one. -/
inductive Joined
  | existing (membership : Member)
  | created
  deriving DecidableEq, Repr

/-- The transaction of `joinByCode`. -/
def joinByInvite (code : String) (userId : Uuid) (walletAddress : String) : Service Joined := do
  let found ← Routine.call (.lockInvite code) fun r => r
  let invite ← Routine.valueOr found (notFound "Invite not found")
  Routine.throwWhen (invite.status ≠ .active) (gone "Invite has expired")
  let now : ℤ ← Routine.perform Op.now
  Routine.throwWhen (invite.expiresAt < now) (gone "Invite has expired")
  Routine.throwWhen (invite.maxUses ≤ invite.usedCount) (gone "Invite has reached maximum uses")
  let existing ← onMembers (tx (.findMember userId))
  match existing with
  | some membership => pure (.existing membership)
  | none => do
      Routine.call (.updateInvite (.incrementUsedCount invite.id)) fun r => r
      (if invite.maxUses ≤ invite.usedCount + 1 then
        Routine.call (.updateInvite (.updateStatus invite.id .exhausted)) fun r => r
      else pure ())
      onMembers (tx (.write (.insertMember { id := 0, userId, walletAddress, payoutOrder := none })))
      pure .created

/-- `joinByCode(code, userId, walletAddress)`. -/
def joinByCode (code : String) (userId : Uuid) (walletAddress : String) : Service Joined :=
  transaction (joinByInvite code userId walletAddress)

/-- `expireStaleInvites()`. -/
def expireStaleInvites : Service ℕ := do
  let now : ℤ ← Routine.perform Op.now
  Routine.call (.expireInvites now) fun r => r

/-! ### The system -/

/-- The calls on the members of a group and on its invites. -/
inductive Call
  | members (c : Members.Call)
  | joinByCode (code : String) (userId : Uuid) (walletAddress : String)
  | expireStaleInvites

/-- What a call returns. -/
inductive Reply
  | members (r : Members.Reply)
  | joined (membership : Joined)
  | expired (n : ℕ)
  deriving DecidableEq

/-- The body of a call. -/
def Call.body (maxWaitlist : ℤ) : Call → Service Reply
  | members c => do
      let r ← onMembers (c.body maxWaitlist)
      pure (.members r)
  | joinByCode code userId walletAddress => do
      let membership ← Invites.joinByCode code userId walletAddress
      pure (.joined membership)
  | expireStaleInvites => do
      let n ← Invites.expireStaleInvites
      pure (.expired n)

/-- The members of a group and its invites. -/
def system (missing : OnMissing) (maxWaitlist : ℤ) :
    System Op.Ret Choice World Call (Except Exc Reply) where
  exec := exec missing
  body c := (c.body maxWaitlist ()).bind fun x => .ret x.1

/-- The state of a run. -/
abbrev InvitesState := State Op.Ret World Call (Except Exc Reply)

/-! ### Calls that nobody disturbs -/

/-- An operation does not fail, and its reply is not lost. -/
def Choice.works : Choice → Bool
  | members choice => choice.works
  | time _ => true

/-- What an operation does when it works. -/
def working (missing : OnMissing) : (o : Op) → ℕ → Choice → World → Option (o.Ret × World) :=
  limited Choice.works (exec missing)

/-- An operation on the members does to them what it does without invites. -/
theorem exec_members {missing : OnMissing} {o : Members.Op} {pid : ℕ} {choice : Choice} {w w' : World}
    {r : o.Ret} (h : exec missing (.members o) pid choice w = some (r, w')) :
    ∃ choice', choice = .members choice' ∧
      Members.exec missing o pid choice' w.members = some (r, w'.members) := by
  cases choice with
  | members choice =>
    obtain ⟨x, hx, heq⟩ := Option.map_eq_some_iff.mp h
    obtain ⟨rfl, rfl⟩ := Prod.mk.inj heq
    exact ⟨choice, rfl, hx⟩
  | time t => cases h

theorem exec_members_of {missing : OnMissing} {o : Members.Op} {pid : ℕ} {choice : Members.Choice}
    {w : World} {r : o.Ret} {v : Members.World}
    (h : Members.exec missing o pid choice w.members = some (r, v)) :
    exec missing (.members o) pid (.members choice) w =
      some (r, { w.settle pid o choice with members := v }) :=
  Option.map_eq_some_iff.mpr ⟨_, h, rfl⟩

/-- What concerns the members only happens on the members as it does without invites. -/
theorem carries_exec (missing : OnMissing) :
    Carries Op.members (fun _ r => r) World.members (Members.exec missing) (exec missing) where
  reflects h := by
    obtain ⟨choice, -, hexec⟩ := exec_members h
    exact ⟨choice, hexec⟩
  carries h := ⟨_, _, _, exec_members_of h, rfl, rfl⟩

/-- So it does when everything works. -/
theorem carries_members (missing : OnMissing) :
    Carries Op.members (fun _ r => r) World.members (Members.working missing) (working missing) where
  reflects h := by
    obtain ⟨hworks, hexec⟩ := limited_eq_some.mp h
    obtain ⟨choice, rfl, hmembers⟩ := exec_members hexec
    exact ⟨choice, limited_eq_some.mpr ⟨hworks, hmembers⟩⟩
  carries {o pid choice w r v} h := by
    obtain ⟨hworks, hexec⟩ := limited_eq_some.mp h
    have hcarried := exec_members_of (w := w) hexec
    exact ⟨.members choice, _, _, limited_eq_some.mpr ⟨hworks, hcarried⟩, rfl, rfl⟩

/-! ### What an operation on an invite can do -/

section Operations

variable {missing : OnMissing} {pid : ℕ} {choice : Choice} {w w' : World}

/-- The lock of an invite is granted when nobody else holds it. -/
theorem exec_lockInvite {code : String} {r : Except Exc (Option GroupInvite)}
    (h : exec missing (.lockInvite code) pid choice w = some (r, w')) :
    (w' = w ∧ ∃ e, r = .error e) ∨
      ∃ xs, w.members.pending pid = some xs ∧
        r = .ok ((applyAll w.invites (w.pendingInvites pid)).find? (·.code = code)) ∧
        ((r = .ok none ∧ w' = w) ∨ ∃ invite, r = .ok (some invite) ∧
          w.inviteHeld pid invite.id = false ∧
          w' = { w with inviteHolder := Function.update w.inviteHolder invite.id (some pid) }) := by
  cases choice with
  | time t => cases h
  | members choice =>
    cases choice with
    | done =>
      obtain ⟨xs, hxs, h⟩ := Option.bind_eq_some_iff.mp h
      split at h
      next hnone =>
        cases h
        exact .inr ⟨xs, hxs, congrArg Except.ok hnone.symm, .inl ⟨rfl, rfl⟩⟩
      next invite hsome =>
        split at h
        · cases h
        next hheld =>
          cases h
          exact .inr ⟨xs, hxs, congrArg Except.ok hsome.symm,
            .inr ⟨invite, rfl, Bool.eq_false_iff.mpr hheld, rfl⟩⟩
    | fails msg =>
      cases h
      exact .inl ⟨rfl, _, rfl⟩
    | _ => cases h

/-- An update of an invite is held back by the transaction. -/
theorem exec_updateInvite {x : InviteWrite} {r : Except Exc Unit}
    (h : exec missing (.updateInvite x) pid choice w = some (r, w')) :
    (w' = w ∧ ∃ e, r = .error e) ∨
      ∃ xs, w.members.pending pid = some xs ∧ w.inviteHeld pid x.id = false ∧ r = .ok () ∧
        w' = { w with
          pendingInvites := Function.update w.pendingInvites pid (w.pendingInvites pid ++ [x]) } := by
  cases choice with
  | time t => cases h
  | members choice =>
    cases choice with
    | done =>
      obtain ⟨xs, hxs, h⟩ := Option.bind_eq_some_iff.mp h
      split at h
      · cases h
      next hheld =>
        cases h
        exact .inr ⟨xs, hxs, Bool.eq_false_iff.mpr hheld, rfl, rfl⟩
    | fails msg =>
      cases h
      exact .inl ⟨rfl, _, rfl⟩
    | _ => cases h

/-- The stale invites expire when nobody else has locked one. -/
theorem exec_expireInvites {now : ℤ} {r : Except Exc ℕ}
    (h : exec missing (.expireInvites now) pid choice w = some (r, w')) :
    (w' = w ∧ ∃ e, r = .error e) ∨
      ((∀ invite ∈ w.invites, invite.isStale now = true → w.inviteHeld pid invite.id = false) ∧
        w' = { w with invites := w.invites.map fun invite =>
          if invite.isStale now then { invite with status := .expired } else invite }) := by
  cases choice with
  | time t => cases h
  | members choice =>
    cases choice with
    | done =>
      rw [exec] at h
      split at h
      · cases h
      next hfree =>
        cases h
        refine .inr ⟨fun invite hinvite hstale => Bool.eq_false_iff.mpr fun hheld => hfree ?_, rfl⟩
        exact List.any_eq_true.mpr ⟨invite, hinvite, Bool.and_eq_true_iff.mpr ⟨hstale, hheld⟩⟩
    | fails msg =>
      cases h
      exact .inl ⟨rfl, _, rfl⟩
    | _ => cases h

/-- Time does not go back. -/
theorem exec_now {t : ℤ} (h : exec missing .now pid choice w = some (t, w')) :
    w.clock ≤ t ∧ w' = { w with clock := t } := by
  cases choice with
  | time t' =>
    rw [exec] at h
    split at h
    next hle =>
      cases h
      exact ⟨hle, rfl⟩
    next => cases h
  | members choice => cases h

end Operations

end Ahjoor.Members.Invites
