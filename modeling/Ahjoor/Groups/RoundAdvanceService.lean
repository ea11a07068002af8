import Ahjoor.Groups.RoundService
import Ahjoor.Scheduler.Deadlines

/-!
# `RoundAdvanceService`

The job that advances the groups whose rounds are late. It is given for one group: the others that
it handles are other rows. The columns from which the deadline is computed are no columns of
`Group`, and are given beside it.
-/

namespace Ahjoor

open Async

namespace RoundAdvanceService

variable {σ : Type}

/-- `advanceGroupRound(group)`, with the active members of the loaded group. -/
def advanceGroupRound (group : Group) (activeMembers : List Membership) : Service σ Unit :=
  let advanced := RoundService.nextRound group
  if group.totalRounds < group.currentRound + 1 then
    query (.saveGroup { advanced with status := .completed })
  else do
    transaction (Routine.forEach activeMembers fun m =>
      txQuery (.saveMembership { m with hasPaidCurrentRound := false }))
    emit (.notifyBatch (RoundService.roundOpened advanced activeMembers))
    query (.saveGroup advanced)

/-- `sendPaymentReminders(group, unpaidMembers)`. -/
def sendPaymentReminders (group : Group) (unpaidMembers : List Membership) : Service σ Unit :=
  emit (.notifyBatch (unpaidMembers.map fun m => {
    userId := m.userId
    type := "payment_reminder"
    title := "Payment Reminder"
    body := s!"Your contribution for round {group.currentRound} of group \"{group.name}\" is overdue. Please pay as soon as possible."
    metadata := [("groupId", s!"{group.id}"), ("round", s!"{group.currentRound}"),
      ("groupName", group.name)]
    idempotencyKey := some s!"{group.id}-{group.currentRound}-{m.userId}-PAYMENT_REMINDER" }))

/-- The loop of `processDeadlinedGroups` for one group. -/
def processGroup (gracePeriodHours : ℚ) (timing : Scheduler.Timing) (now : ℕ) (group : Group)
    (memberships : List Membership) : Service σ Unit :=
  if !Scheduler.isDeadlinePassed timing now gracePeriodHours then pure ()
  else
    let activeMembers := memberships.filter (·.status = .active)
    let unpaidMembers := activeMembers.filter fun m => !m.hasPaidCurrentRound
    if unpaidMembers.length = 0 then advanceGroupRound group activeMembers
    else sendPaymentReminders group unpaidMembers

/-- `processDeadlinedGroups()`. -/
def processDeadlinedGroups (gracePeriodHours : ℚ) (timing : Scheduler.Timing) (groupId : Uuid) :
    Service σ Unit := do
  let now ← dateNow
  let found : Option (Group × List Membership) ← query (.findGroupWithMemberships groupId)
  match found.filter (·.1.status = .active) with
  | none => pure ()
  | some (group, memberships) =>
      tryCatch (processGroup gracePeriodHours timing now group memberships) fun _ => pure ()

end RoundAdvanceService

end Ahjoor
