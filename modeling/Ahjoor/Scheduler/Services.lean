import Ahjoor.Scheduler.Deadlines
import Ahjoor.Scheduler.World
import Ahjoor.Stellar.Sdk

/-!
# The services that move a group

The requests and jobs that write the row of a group. What the source only logs is left out, and a
text that goes to users is left out where no other code reads it.

`distributePayout` and `disbursePayout` are operations of the environment: `tryAdvanceRound` goes
on whatever becomes of the payout, and `advanceRound` needs only its hash. `advanceStalledRounds`,
`processDeadlinedGroups`, `updateGroupStatuses` and `detectAndFlagStaleGroups` are given as far as
they concern the group.
-/

namespace Ahjoor.Scheduler

open Async

/-- The body of an asynchronous method. -/
abbrev Service (α : Type) := Routine Op.Ret Unit Exc α

/-! ### The operations as the bodies use them -/

def findGroup : Service (Option GroupRow) := Routine.call .findGroup fun r => r

def findGroupWithMembers : Service (Option (GroupRow × List Membership)) :=
  Routine.call .findGroupWithMembers fun r => r

def save (group : GroupRow) : Service Unit := Routine.call (.saveGroup group) fun r => r

def saveMembers (members : List Membership) : Service Unit :=
  Routine.call (.saveMembers members) fun r => r

def notify (ns : List Notification) : Service Unit := Routine.call (.notify ns) fun r => r

def dispatchEvent (event : String) : Service Unit := Routine.call (.dispatchEvent event) fun r => r

def dateNow : Service ℤ := Routine.perform Op.now

/-- What a handler that only logs does with a failure. -/
def ignoreFailure (m : Service Unit) : Service Unit := tryCatch m fun _ => pure ()

/-- The columns from which the deadline is computed. -/
def GroupRow.timing (group : GroupRow) : Timing := ⟨group.updatedAt, group.roundDuration⟩

/-- The notification that a round opens. -/
def roundOpened (group : GroupRow) (members : List Membership) : List Notification :=
  members.map fun m => {
    userId := m.userId
    type := "round_opened"
    title := "New Round Started"
    body := s!"Round {group.currentRound} has started for group \"{group.name}\""
    metadata := [("groupId", s!"{group.id}"), ("round", s!"{group.currentRound}")]
    idempotencyKey := some s!"{group.id}-{group.currentRound}-{m.userId}-ROUND_OPENED" }

/-! ### Activation -/

namespace GroupsService

/-- The places that a strategy assigns or checks when the group is activated. -/
def assignPayoutOrders (strategy : Members.PayoutOrderStrategy) (random : ℕ → ℕ)
    (members : List Membership) : Service Unit :=
  match strategy with
  | .sequential => pure ()
  | .random =>
      Routine.forEach (members.zip (Members.shuffledIndices random members.length)) fun x =>
        saveMembers [{ x.1 with payoutOrder := some x.2 }]
  | .adminDefined => do
      let orders := members.map (·.payoutOrder)
      Routine.throwWhen (orders.any (·.isNone))
        (badRequest "All members must have a payout order for ADMIN_DEFINED strategy")
      let sortedOrders := (orders.map (·.getD 0)).insertionSort (· ≤ ·)
      Routine.throwWhen (sortedOrders ≠ (List.range members.length).map (↑))
        (badRequest "Payout orders must be a continuous sequence starting from 0")

/-- Take the activation back. -/
def rollBackActivation (savedGroup : GroupRow) : Service Unit := do
  save { savedGroup with status := .pending, currentRound := 0 }
  throw (badRequest "Failed to deploy on-chain contract; activation rolled back")

/-- Store the address of the deployed contract. -/
def storeContractAddress (savedGroup : GroupRow) : Service Unit := do
  save savedGroup
  ignoreFailure (dispatchEvent "GROUP_ACTIVATED")

/-- `activateGroup(groupId, adminWallet)`. -/
def activateGroup (adminWallet : String) (random : ℕ → ℕ) : Service Unit := do
  let found ← findGroupWithMembers
  let (group, members) ← Routine.valueOr found (notFound "Group not found")
  Routine.throwWhen (group.adminWallet ≠ adminWallet)
    (forbidden "Only the group admin can activate this group")
  Routine.throwWhen (group.status ≠ .pending) (badRequest "Group is not in a pending state")
  Routine.throwWhen ((members.length : ℤ) < group.minMembers)
    (badRequest "Group does not have enough members")
  assignPayoutOrders group.payoutOrderStrategy random members
  let savedGroup := { group with status := .active, currentRound := 1 }
  save savedGroup
  let deployed ← tryCatch
    (Routine.call (.deployRoscaContract savedGroup) fun r => r.map some) fun _ => pure none
  match deployed with
  | none => rollBackActivation savedGroup
  | some contractAddress =>
      let savedGroup := { savedGroup with contractAddress := some contractAddress }
      tryCatch (storeContractAddress savedGroup) fun _ => rollBackActivation savedGroup

/-! ### Other requests -/

/-- `UpdateGroupDto`. -/
structure UpdateGroupDto where
  name : Option String := none
  adminWallet : Option String := none
  contributionAmount : Option String := none
  roundDuration : Option ℤ := none
  totalRounds : Option ℤ := none
  contractAddress : Option String := none

/-- `Object.assign(group, updateGroupDto)`. -/
def UpdateGroupDto.assign (dto : UpdateGroupDto) (group : GroupRow) : GroupRow :=
  { group with
    name := dto.name.getD group.name
    adminWallet := dto.adminWallet.getD group.adminWallet
    contributionAmount := dto.contributionAmount.getD group.contributionAmount
    roundDuration := dto.roundDuration.getD group.roundDuration
    totalRounds := dto.totalRounds.getD group.totalRounds
    contractAddress := dto.contractAddress.or group.contractAddress }

/-- The status as the source prints it. -/
def statusText : GroupStatus → String
  | .pending => "PENDING"
  | .active => "ACTIVE"
  | .completed => "COMPLETED"

/-- `update(id, updateGroupDto, requestingAdminWallet)`. -/
def update (id : Uuid) (dto : UpdateGroupDto) (requestingAdminWallet : String) : Service Unit := do
  let found ← findGroup
  let group ← Routine.valueOr found (notFound s!"Group with id {id} not found")
  Routine.throwWhen (group.adminWallet ≠ requestingAdminWallet)
    (forbidden "Only the group admin can update this group")
  Routine.throwWhen (group.status ≠ .pending)
    (badRequest s!"Cannot update group metadata after it becomes {statusText group.status}. Only PENDING groups can be updated.")
  save (dto.assign group)

/-- The notification of a transfer of the administration. -/
def adminTransferred (userId : Uuid) (body role : String) : Notification where
  userId
  type := "admin_transferred"
  title := "Group Admin Ownership Transferred"
  body
  metadata := [("role", role)]

/-- `transferAdmin(groupId, adminWallet, transferAdminDto)`. -/
def transferAdmin (adminWallet : String) (newAdminUserId : Uuid) : Service Unit := do
  let found ← findGroup
  let group ← Routine.valueOr found (notFound "Group not found")
  Routine.throwWhen (group.adminWallet ≠ adminWallet)
    (forbidden "Only the current admin can transfer ownership")
  let target : Option Membership ← Routine.call
    (.findMember { userId := some newAdminUserId, status := some .active }) fun r => r
  let newAdminMembership ← Routine.valueOr target
    (badRequest "Target user must be an active member of the group")
  save { group with adminWallet := newAdminMembership.walletAddress }
  Routine.call (.createLog "GROUP_ADMIN_TRANSFER") fun r => r
  let oldAdminMembership : Option Membership ← Routine.call
    (.findMember { walletAddress := some group.adminWallet }) fun r => r
  notify (adminTransferred newAdminUserId s!"You are now the admin of group \"{group.name}\""
      "new_admin" ::
    oldAdminMembership.toList.map fun m => adminTransferred m.userId
      s!"You have transferred admin ownership of group \"{group.name}\" to another member"
      "old_admin")

/-! ### The administrator's advance -/

/-- The group once a round is over. -/
def advanced (group : GroupRow) : GroupRow :=
  { group with
    currentRound := group.currentRound + 1
    staleAt := none
    status := if group.totalRounds < group.currentRound + 1 then .completed else group.status }

/-- Pay the recipient of the round, if there is one; the result is the hash. -/
def payRecipient (group : GroupRow) (recipient : Option Membership) : Service (Option String) :=
  match recipient, truthy group.contractAddress with
  | some recipient, true =>
      tryCatch
        (Routine.call (.disbursePayout (group.contractAddress.getD "") recipient.walletAddress
          group.contributionAmount) fun r => r.map some)
        fun _ => throw (internalServerError "On-chain payout failed; round not advanced")
  | _, _ => pure none

/-- The memberships that the transaction of `advanceRound` saves. -/
def savedMembers (recipient : Option Membership) (txHash : Option String) (group : GroupRow)
    (members : List Membership) : List Membership :=
  let hashed := members.filterMap fun m =>
    if recipient.any (·.id = m.id) ∧ truthy txHash then some { m with transactionHash := txHash }
    else none
  if group.totalRounds < group.currentRound + 1 then hashed
  else members.map fun m =>
    { m with
      hasPaidCurrentRound := false
      transactionHash :=
        if recipient.any (·.id = m.id) ∧ truthy txHash then txHash else m.transactionHash }

/-- `advanceRound(groupId, adminWallet)`. -/
def advanceRound (adminWallet : String) : Service Unit := do
  let found ← findGroupWithMembers
  let (group, members) ← Routine.valueOr found (notFound "Group not found")
  Routine.throwWhen (group.adminWallet ≠ adminWallet)
    (forbidden "Only the group admin can advance rounds")
  Routine.throwWhen (group.status ≠ .active) (badRequest "Group must be ACTIVE to advance rounds")
  Routine.throwWhen (members.any fun m => !m.hasPaidCurrentRound)
    (badRequest "All members must pay before advancing to the next round")
  -- the recipient of round `N` has `payoutOrder` `N - 1`
  let recipient := members.find? fun m => m.payoutOrder = some (group.currentRound - 1)
  let txHash ← payRecipient group recipient
  -- the transaction reads the rows again, without a lock
  let found ← findGroupWithMembers
  let (lockedGroup, lockedMembers) ← Routine.valueOr found (notFound "Group not found")
  Routine.call
    (.commit (savedMembers recipient txHash lockedGroup lockedMembers) (advanced lockedGroup))
    fun r => r
  if (advanced lockedGroup).status = .completed then pure ()
  else notify (roundOpened (advanced lockedGroup) members)

end GroupsService

/-! ### The advance after a contribution -/

namespace RoundService

open GroupsService (advanced)

/-- `tryAdvanceRound(groupId)`. -/
def tryAdvanceRound : Service Bool := do
  let found ← findGroup
  match found with
  | none => pure false
  | some group =>
      if group.status ≠ .active then pure false
      else do
        let memberships : List Membership ← Routine.call .findActiveMembers fun r => r
        if memberships.length = 0 then pure false
        else if !memberships.all (·.hasPaidCurrentRound) then pure false
        else if group.totalRounds < group.currentRound + 1 then do
          save (advanced group)
          ignoreFailure (dispatchEvent "GROUP_COMPLETED")
          ignoreFailure (Routine.call (.distributePayout group.currentRound) fun r => r)
          pure true
        else do
          Routine.call (.resetPaid true) fun r => r
          save (advanced group)
          ignoreFailure (Routine.call (.distributePayout group.currentRound) fun r => r)
          ignoreFailure (notify (roundOpened (advanced group) memberships))
          pure true

end RoundService

/-! ### The jobs -/

namespace RoundAdvanceService

open GroupsService (advanced)

/-- `advanceGroupRound(group)`; the active members of the loaded group are given. -/
def advanceGroupRound (group : GroupRow) (activeMembers : List Membership) : Service Unit :=
  if group.totalRounds < group.currentRound + 1 then save (advanced group)
  else do
    saveMembers (activeMembers.map fun m => { m with hasPaidCurrentRound := false })
    notify (roundOpened (advanced group) activeMembers)
    save (advanced group)

/-- `sendPaymentReminders(group, unpaidMembers)`. -/
def sendPaymentReminders (group : GroupRow) (unpaidMembers : List Membership) : Service Unit :=
  notify (unpaidMembers.map fun m => {
    userId := m.userId
    type := "payment_reminder"
    title := "Payment Reminder"
    body := s!"Your contribution for round {group.currentRound} of group \"{group.name}\" is overdue. Please pay as soon as possible."
    metadata := [("groupId", s!"{group.id}"), ("round", s!"{group.currentRound}"),
      ("groupName", group.name)]
    idempotencyKey := some s!"{group.id}-{group.currentRound}-{m.userId}-PAYMENT_REMINDER" })

/-- `processDeadlinedGroups()`. -/
def processDeadlinedGroups (gracePeriodHours : ℚ) : Service Unit := do
  let now ← dateNow
  let found ← findGroupWithMembers
  match found.filter (·.1.status = .active) with
  | none => pure ()
  | some (group, members) =>
      ignoreFailure
        (if !isDeadlinePassed group.timing now gracePeriodHours then pure ()
        else
          let activeMembers := members.filter (·.status = .active)
          let unpaidMembers := activeMembers.filter fun m => !m.hasPaidCurrentRound
          if unpaidMembers.length = 0 then advanceGroupRound group activeMembers
          else sendPaymentReminders group unpaidMembers)

end RoundAdvanceService

namespace GroupStatusService

/-- `advanceStalledRounds()`. -/
def advanceStalledRounds : Service Unit := do
  let found ← findGroup
  match found.filter (·.status = .active) with
  | none => pure ()
  | some group => do
      let now ← dateNow
      if isStalled group.timing now then do
        let _ ← RoundService.tryAdvanceRound
        pure ()
      else pure ()

/-- The group as `checkAndUpdateGroupStatus` leaves it, when it has `memberCount` members. -/
def activated (memberCount : ℕ) (group : GroupRow) : GroupRow :=
  if group.minMembers ≤ memberCount ∧ truthy group.contractAddress then
    { group with status := .active }
  else group

/-- The group as `checkAndUpdateGroupStatus` leaves it, once its activation is decided. -/
def completed (group : GroupRow) : GroupRow :=
  if group.status = .active ∧ group.totalRounds ≤ group.currentRound then
    { group with status := .completed }
  else group

/-- `checkAndUpdateGroupStatus(group)`. -/
def checkAndUpdateGroupStatus (group : GroupRow) : Service Unit :=
  if group.status = .pending then do
    let memberCount : ℕ ← Routine.call .countMembers fun r => r
    finish (activated memberCount group)
  else finish group
where
  /-- the second check, and the save if a status has changed -/
  finish (checked : GroupRow) : Service Unit :=
    if (completed checked).status ≠ group.status then save (completed checked) else pure ()

/-- `updateGroupStatuses()`. -/
def updateGroupStatuses : Service Unit := do
  let found ← findGroup
  match found.filter (·.status ≠ .completed) with
  | none => pure ()
  | some group => checkAndUpdateGroupStatus group

end GroupStatusService

namespace StaleGroupDetectionService

/-- `detectAndFlagStaleGroups()`. Whether a `null` in a `where` object selects the rows without a
value, or is no condition, is `nullSelects`. A day of the threshold has 24 hours. -/
def detectAndFlagStaleGroups (nullSelects : Bool) (maxStaleDays : ℤ) : Service Unit := do
  let now ← dateNow
  let staleThreshold := now - maxStaleDays * 24 * 60 * 60 * 1000
  let found ← findGroup
  match found.filter fun group => group.status = .active ∧ group.updatedAt < staleThreshold ∧
      (nullSelects → group.staleAt = none) with
  | none => pure ()
  | some group =>
      ignoreFailure (do
        let now ← dateNow
        save { group with staleAt := some now }
        notify [{
          -- the source passes the wallet of the administrator
          userId := 0
          type := "system_alert"
          title := "Stale Group Detected"
          body := s!"Group \"{group.name}\" has not been updated in {maxStaleDays} days. Please review and take action." }])

/-- `clearStaleFlag(groupId)`. -/
def clearStaleFlag : Service Unit :=
  ignoreFailure (do
    let found ← findGroup
    match found.filter (·.staleAt.isSome) with
    | none => pure ()
    | some group => save { group with staleAt := none })

end StaleGroupDetectionService

/-! ### The chain -/

/-- `Object.values(GroupStatus)`. -/
def groupStatus? (s : String) : Option GroupStatus :=
  if s == "PENDING" then some .pending
  else if s == "ACTIVE" then some .active
  else if s == "COMPLETED" then some .completed
  else none

/-- The group with the round and the status that the contract reports. -/
def reconciled (state : GroupState) (group : GroupRow) : GroupRow :=
  { group with
    currentRound := state.current_round.getD group.currentRound
    status := ((state.status.map upperCase).bind groupStatus?).getD group.status }

/-- `EventSyncProcessor.handleSyncOnChainEvent(job)`. -/
def EventSyncProcessor.handleSyncOnChainEvent (contractAddress : String) : Service Unit := do
  let found ← findGroup
  match found.filter (·.contractAddress = some contractAddress) with
  | none => pure ()
  | some group => do
      let state : Option GroupState ← Routine.call (.getGroupState contractAddress) fun r => r
      match state with
      | none => pure ()
      | some state =>
          if reconciled state group ≠ group then save (reconciled state group) else pure ()

/-- The body of the `try` block of `handleSyncGroupState`. -/
def GroupSyncProcessor.sync (groupId : Uuid) (contractAddress : String) : Service Unit := do
  let found ← findGroup
  match found.filter (·.id = groupId) with
  | none => pure ()
  | some group => do
      let state : Option GroupState ← Routine.call (.getGroupState contractAddress) fun r => r
      match state with
      | none => pure ()
      | some state =>
          if reconciled state group ≠ group then
            save { reconciled state group with staleAt := none }
          else pure ()

/-- `GroupSyncProcessor.handleSyncGroupState(job)`. -/
def GroupSyncProcessor.handleSyncGroupState (groupId : Uuid) (contractAddress : String) :
    Service Unit := do
  let lockKey := s!"mediation:group:{groupId}"
  let acquired : Bool ← Routine.perform (Op.acquireLock lockKey)
  if acquired then do
    let result : Except Exc Unit ← tryCatch
      (do
        GroupSyncProcessor.sync groupId contractAddress
        pure (.ok ()))
      fun e => pure (.error e)
    Routine.perform (Op.releaseLock lockKey)
    match result with
    | .ok () => pure ()
    | .error e => throw e
  else pure ()

/-- `EventListenerService.handleRoundCompleted(payload)` for the group. The flags of the recipient
are left to the environment. -/
def EventListenerService.handleRoundCompleted : Service Unit := do
  Routine.call .increment fun r => r
  Routine.call (.resetPaid false) fun r => r

/-! ### The system -/

/-- The requests and jobs that touch the group, what others do to its members and its contract, and
time. -/
inductive Call
  | activateGroup (adminWallet : String) (random : ℕ → ℕ)
  | update (id : Uuid) (dto : GroupsService.UpdateGroupDto) (requestingAdminWallet : String)
  | transferAdmin (adminWallet : String) (newAdminUserId : Uuid)
  | advanceRound (adminWallet : String)
  | tryAdvanceRound
  | processDeadlinedGroups
  | advanceStalledRounds
  | updateGroupStatuses
  | detectAndFlagStaleGroups
  | clearStaleFlag
  | handleSyncOnChainEvent (contractAddress : String)
  | handleSyncGroupState (groupId : Uuid) (contractAddress : String)
  | handleRoundCompleted
  | changeMembers (members : Memberships)
  | changeContract (state : Option GroupState)
  | wait

/-- The configuration of the jobs. -/
structure Config where
  gracePeriodHours : ℚ := 0
  maxStaleDays : ℤ := 7
  nullSelects : Bool := true

/-- The body of a call. -/
def Call.body (cfg : Config) : Call → Service Unit
  | activateGroup adminWallet random => GroupsService.activateGroup adminWallet random
  | update id dto requestingAdminWallet => GroupsService.update id dto requestingAdminWallet
  | transferAdmin adminWallet newAdminUserId =>
      GroupsService.transferAdmin adminWallet newAdminUserId
  | advanceRound adminWallet => GroupsService.advanceRound adminWallet
  | tryAdvanceRound => do
      let _ ← RoundService.tryAdvanceRound
      pure ()
  | processDeadlinedGroups => RoundAdvanceService.processDeadlinedGroups cfg.gracePeriodHours
  | advanceStalledRounds => GroupStatusService.advanceStalledRounds
  | updateGroupStatuses => GroupStatusService.updateGroupStatuses
  | detectAndFlagStaleGroups =>
      StaleGroupDetectionService.detectAndFlagStaleGroups cfg.nullSelects cfg.maxStaleDays
  | clearStaleFlag => StaleGroupDetectionService.clearStaleFlag
  | handleSyncOnChainEvent contractAddress =>
      EventSyncProcessor.handleSyncOnChainEvent contractAddress
  | handleSyncGroupState groupId contractAddress =>
      GroupSyncProcessor.handleSyncGroupState groupId contractAddress
  | handleRoundCompleted => EventListenerService.handleRoundCompleted
  | changeMembers members => Routine.perform (Op.changeMembers members)
  | changeContract state => Routine.perform (Op.changeContract state)
  | wait => do
      let _ ← dateNow
      pure ()

/-- The group and those who move it. -/
def system (cfg : Config) : System Op.Ret Choice World Call (Except Exc Unit) where
  exec := exec
  body c := (c.body cfg ()).bind fun x => .ret x.1

/-- The state of a run. -/
abbrev SchedulerState := State Op.Ret World Call (Except Exc Unit)

/-- The history of a run. -/
abbrev SchedulerHist := Hist Op.Ret World Call (Except Exc Unit)

/-- A group of three rounds of 30 days, as it is created. -/
def Sample.monthly : GroupRow where
  name := "group"
  adminWallet := "admin"
  contributionAmount := "100"
  roundDuration := Sample.month.roundDuration
  totalRounds := 3
  minMembers := 2

end Ahjoor.Scheduler
