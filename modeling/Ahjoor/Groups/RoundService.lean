import Ahjoor.Groups.PayoutService

/-!
# Advancing a round

The two ways in which a group leaves a round that its members have paid.

`tryAdvanceRound` runs after a contribution: it reads the group and its active members, and when
all have paid it resets their flags, saves the copy of the group it read with the next round,
and starts the payout of the round that is over. On the last round it saves the group as
`COMPLETED` instead, and leaves the flags.

`advanceRound` is the administrator's request: it checks the group, pays the recipient through
the contract, and moves the group in a database transaction of its own.
-/

namespace Ahjoor

open Async StellarService

variable {σ : Type}

namespace RoundService

section

variable (sdk : Sdk) (cfg : Config)

/-- Start the payout of a round that is over; its failure is only logged. -/
def triggerPayout (groupId : Uuid) (round : ℤ) : Service σ Unit :=
  tryCatch
    (do
      let _ ← PayoutService.distributePayout sdk cfg groupId round
      pure ())
    fun _ => pure ()

/-- The group as `tryAdvanceRound` has it once the round is over. -/
def nextRound (group : Group) : Group :=
  { group with currentRound := group.currentRound + 1, staleAt := none }

/-- The last round is over. -/
def completeGroup (groupId : Uuid) (group : Group) : Service σ Bool := do
  query (.saveGroup { nextRound group with status := .completed })
  tryCatch
    (do
      let completedAt ← dateNow
      emit (.dispatchEvent "GROUP_COMPLETED" [("groupId", s!"{groupId}"),
        ("totalRounds", s!"{group.totalRounds}"), ("completedAt", s!"{completedAt}")]))
    fun _ => pure ()
  triggerPayout sdk cfg groupId group.currentRound
  pure true

/-- The notifications of a round that opens. -/
def roundOpened (group : Group) (memberships : List Membership) : List Notification :=
  memberships.map fun m => {
    userId := m.userId
    type := "round_opened"
    title := "New Round Started"
    body := s!"Round {group.currentRound} has started for group \"{group.name}\""
    metadata := [("groupId", s!"{group.id}"), ("round", s!"{group.currentRound}")]
    idempotencyKey := some s!"{group.id}-{group.currentRound}-{m.userId}-ROUND_OPENED" }

/-- A round other than the last is over. -/
def openNextRound (groupId : Uuid) (group : Group) (memberships : List Membership) :
    Service σ Bool := do
  query (.updateHasPaid { groupId := some groupId, status := some .active } false)
  query (.saveGroup (nextRound group))
  triggerPayout sdk cfg groupId group.currentRound
  -- not awaited in the source: nothing after it depends on it
  tryCatch (emit (.notifyBatch (roundOpened (nextRound group) memberships))) fun _ => pure ()
  pure true

/-- `tryAdvanceRound(groupId)`. -/
def tryAdvanceRound (groupId : Uuid) : Service σ Bool := do
  let group? : Option Group ← query (.findGroup groupId)
  match group? with
  | none => pure false
  | some group =>
      if group.status ≠ .active then pure false
      else do
        let memberships : List Membership ← query
          (.findMemberships { groupId := some groupId, status := some .active })
        if memberships.length = 0 then pure false
        else if !memberships.all (·.hasPaidCurrentRound) then pure false
        else if group.totalRounds < group.currentRound + 1 then completeGroup sdk cfg groupId group
        else openNextRound sdk cfg groupId group memberships

end

end RoundService

namespace GroupsService

section

variable (sdk : Sdk) (cfg : Config)

/-- The checks of `advanceRound`; the result is the group with its members. -/
def validateAdvance (groupId : Uuid) (adminWallet : String) :
    Service σ (Group × List Membership) := do
  let group? : Option (Group × List Membership) ← query (.findGroupWithMemberships groupId)
  let (group, memberships) ← orThrow group? (notFound "Group not found")
  throwIf (group.adminWallet != adminWallet) (forbidden "Only the group admin can advance rounds")
  throwIf (group.status != .active) (badRequest "Group must be ACTIVE to advance rounds")
  throwIf (memberships.any fun m => !m.hasPaidCurrentRound)
    (badRequest "All members must pay before advancing to the next round")
  pure (group, memberships)

/-- Pay the recipient of the round, if there is one; the result is the hash. -/
def payRecipient (group : Group) (recipient : Option Membership) : Service σ (Option String) :=
  match recipient, truthy group.contractAddress with
  | some recipient, true => do
      note (.disbursing group.id group.currentRound)
      tryCatch
        (do
          let txHash ← disbursePayout sdk cfg (group.contractAddress.getD "")
            recipient.walletAddress group.contributionAmount none none none
          pure (some txHash))
        fun _ => throw (internalServerError "On-chain payout failed; round not advanced")
  | _, _ => pure none

/-- Store the hash of the payout with the recipient's membership. -/
def storeHash (recipient : Option Membership) (txHash : Option String)
    (memberships : List Membership) : Service σ (List Membership) :=
  match recipient, txHash with
  | some recipient, some txHash =>
      if txHash == "" then pure memberships
      else
        match memberships.find? fun m => m.id == recipient.id with
        | some m => do
            let updated := { m with transactionHash := some txHash }
            txQuery (.saveMembership updated)
            pure (memberships.map fun m => if m.id == recipient.id then updated else m)
        | none => pure memberships
  | _, _ => pure memberships

/-- The body of the database transaction of `advanceRound`. -/
def moveRound (groupId : Uuid) (recipient : Option Membership) (txHash : Option String) :
    Service σ Group := do
  let lockedGroup? : Option (Group × List Membership) ← txQuery (.findGroupWithMemberships groupId)
  let (lockedGroup, memberships) ← orThrow lockedGroup? (notFound "Group not found")
  let memberships ← storeHash recipient txHash memberships
  let advanced :=
    { lockedGroup with currentRound := lockedGroup.currentRound + 1, staleAt := none }
  if advanced.totalRounds < advanced.currentRound then do
    let completed := { advanced with status := .completed }
    txQuery (.saveGroup completed)
    pure completed
  else do
    Routine.forEach memberships fun m =>
      txQuery (.saveMembership { m with hasPaidCurrentRound := false })
    txQuery (.saveGroup advanced)
    pure advanced

/-- `advanceRound(groupId, adminWallet)`. -/
def advanceRound (groupId : Uuid) (adminWallet : String) : Service σ Group := do
  let (group, memberships) ← validateAdvance groupId adminWallet
  -- the recipient of round `N` has `payoutOrder` `N - 1`
  let recipient := memberships.find? fun m => m.payoutOrder == some (group.currentRound - 1)
  let txHash ← payRecipient sdk cfg group recipient
  let savedGroup ← transaction (moveRound groupId recipient txHash)
  performIf (savedGroup.status != .completed)
    (emit (.notifyBatch (RoundService.roundOpened savedGroup memberships)))
  pure savedGroup

end

end GroupsService

end Ahjoor
