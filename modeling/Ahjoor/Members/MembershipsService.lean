import Ahjoor.Members.World

/-!
# `MembershipsService`

The operations on the members of a group. What the source only logs is left out. The admission
that a departure or a suspension schedules with `setImmediate` is a call of its own
(`admitFromWaitlist`), which may start at any time.
-/

namespace Ahjoor.Members

open Async

/-- The body of an asynchronous method. -/
abbrev Service (α : Type) := Routine Op.Ret Unit Exc α

/-- A repository call. -/
def db (q : Query) : Service q.Ret := Routine.call (.db q) fun r => r

/-- A repository call on the transaction's manager. -/
def tx (q : Query) : Service q.Ret := Routine.call (.tx q) fun r => r

/-- `notificationsService.notify(n)`. -/
def notify (n : Notification) : Service Unit := Routine.call (.notify n) fun r => r

/-- `SELECT … FOR UPDATE` of the group. -/
def lockGroup : Service (Option GroupRow) := Routine.call .lockGroup fun r => r

/-- `dataSource.transaction(body)`: an error while rolling back is dropped. -/
def transaction {α : Type} (body : Service α) : Service α := do
  Routine.call .startTransaction fun r => r
  tryCatch
    (do
      let result ← body
      Routine.call .commitTransaction fun r => r
      pure result)
    fun err => do
      Routine.call .rollbackTransaction fun _ => .ok ()
      throw err

/-! ### Joining -/

/-- The position behind the last one, from `MAX(payoutOrder)`. -/
def nextPayoutOrder (maxOrder : Option ℤ) : ℤ :=
  match maxOrder with
  | some maxOrder => maxOrder + 1
  | none => 0

/-- The payout order of a new member, which is left open for some strategies. -/
def newPayoutOrder (strategy : PayoutOrderStrategy) : Service (Option ℤ) :=
  match strategy with
  | .sequential => do
      let maxOrder ← tx .maxPayoutOrder
      pure (some (nextPayoutOrder maxOrder))
  | .random | .adminDefined => pure none

/-- The transaction of `addMember`. -/
def insertMember (userId : Uuid) (walletAddress : String) : Service Unit := do
  let found ← lockGroup
  let group ← Routine.valueOr found (notFound "Group not found")
  Routine.throwWhen (group.status = .active)
    (badRequest "Cannot modify memberships for an active group")
  let memberCount : ℕ ← tx .countMembers
  Routine.throwWhen (group.maxMembers ≤ memberCount)
    (badRequest s!"Group has reached its maximum member capacity of {group.maxMembers}")
  let existingMembership ← tx (.findMember userId)
  Routine.throwWhen existingMembership.isSome
    (conflict "User is already a member of this group")
  let payoutOrder ← newPayoutOrder group.payoutOrderStrategy
  tx (.write (.insertMember { id := 0, userId, walletAddress, payoutOrder }))

/-- `addMember(groupId, { userId, walletAddress })`. -/
def addMember (userId : Uuid) (walletAddress : String) : Service Unit :=
  tryCatch (transaction (insertMember userId walletAddress)) fun error =>
    match error with
    | .uniqueViolation _ => throw (conflict "User is already a member of this group")
    | error => throw error

/-! ### Departures -/

/-- `validateGroupNotActive(groupId)`. -/
def validateGroupNotActive : Service Unit := do
  let found ← db .findGroup
  let group ← Routine.valueOr found (notFound "Group not found")
  Routine.throwWhen (group.status = .active)
    (badRequest "Cannot modify memberships for an active group")

/-- `removeMember(groupId, userId)`. -/
def removeMember (userId : Uuid) : Service Unit := do
  validateGroupNotActive
  let found ← db (.findMember userId)
  let membership ← Routine.valueOr found (notFound "Membership not found")
  db (.write (.removeMember membership))

/-- `a > b`, where `null` counts as zero. -/
def payoutOrderGt (a b : Option ℤ) : Bool := a.getD 0 > b.getD 0

/-- Move the members behind the departed one up, one after another. -/
def resequence (departingPayoutOrder : Option ℤ) : List Member → Service Unit
  | [] => pure ()
  | member :: remainingMembers => do
      if payoutOrderGt member.payoutOrder departingPayoutOrder then
        db (.write (.saveMember { member with payoutOrder := some (member.payoutOrder.getD 0 - 1) }))
        resequence departingPayoutOrder remainingMembers
      else
        resequence departingPayoutOrder remainingMembers

/-- `leaveGroup(groupId, userId)`. -/
def leaveGroup (userId : Uuid) : Service Unit := do
  let found ← db .findGroup
  let group ← Routine.valueOr found (notFound "Group not found")
  Routine.throwWhen (group.status ≠ .pending)
    (badRequest "Cannot leave a group that is ACTIVE or COMPLETED")
  let found ← db (.findMember userId)
  let membership ← Routine.valueOr found (notFound "Membership not found")
  db (.write (.removeMember membership))
  let remainingMembers ← db .findMembers
  resequence membership.payoutOrder remainingMembers
  notify {
    userId
    type := "member_left"
    title := "Left Group"
    body := s!"You have left the group \"{group.name}\""
    metadata := [("groupId", toString group.id), ("groupName", group.name)] }

/-! ### Suspensions -/

/-- The group, if the requesting user is its admin. -/
def asAdmin (requestingUserId : Uuid) (message : String) : Service GroupRow := do
  let found ← db .findGroup
  let group ← Routine.valueOr found (notFound "Group not found")
  let found ← db (.findMember requestingUserId)
  let requestingMembership ← Routine.valueOr found (forbidden "Not a group member")
  Routine.throwWhen (group.adminWallet ≠ requestingMembership.walletAddress) (forbidden message)
  pure group

/-- `suspendMember(groupId, targetUserId, requestingUserId, reason)`. -/
def suspendMember (targetUserId requestingUserId : Uuid) (reason : String) : Service Unit := do
  Routine.throwWhen (targetUserId = requestingUserId)
    (forbidden "Group admin cannot suspend themselves")
  let group ← asAdmin requestingUserId "Only the group admin can suspend members"
  let found ← db (.findMember targetUserId)
  let targetMembership ← Routine.valueOr found (notFound "Membership not found")
  if targetMembership.status = .suspended then
    pure ()
  else do
    db (.write (.saveMember { targetMembership with status := .suspended }))
    notify {
      userId := targetUserId
      type := "member_suspended"
      title := "Your membership has been suspended"
      body := s!"Your membership in group \"{group.name}\" has been suspended. Reason: {reason}"
      metadata := [("groupId", toString group.id), ("reason", reason),
        ("adminId", toString requestingUserId)] }

/-- `reinstateMember(groupId, targetUserId, requestingUserId)`. -/
def reinstateMember (targetUserId requestingUserId : Uuid) : Service Unit := do
  let group ← asAdmin requestingUserId "Only the group admin can reinstate members"
  let found ← db (.findMember targetUserId)
  let targetMembership ← Routine.valueOr found (notFound "Membership not found")
  db (.write (.saveMember { targetMembership with status := .active }))
  notify {
    userId := targetUserId
    type := "member_reinstated"
    title := "Your membership has been reinstated"
    body := s!"Your membership in group \"{group.name}\" has been reinstated."
    metadata := [("groupId", toString group.id), ("adminId", toString requestingUserId)] }

end Ahjoor.Members
