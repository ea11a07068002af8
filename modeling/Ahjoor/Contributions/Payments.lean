import Ahjoor.Groups.RoundService

/-!
# Payment events

Two components learn of a member's payment from the chain and set the member's
`hasPaidCurrentRound`: the event-sync job for a token transfer, and the listener for the
contract's `ContributionReceived` event. Both record a contribution, in the status a new row
has by default.
-/

namespace Ahjoor

open Async

variable {σ : Type}

/-- The data of a `process-transfer-event` job. -/
structure TransferEvent where
  sender : String
  recipient : String
  amount : String
  transactionHash : String

/-- `EventSyncProcessor.handleTransferEvent(job)`. -/
def EventSyncProcessor.handleTransferEvent (event : TransferEvent) : Service σ Unit := do
  let existing : Option Contribution ← query
    (.findContribution { transactionHash := some event.transactionHash })
  if existing.isSome then pure ()
  else do
    let membership? : Option Membership ← query
      (.findMembership { walletAddress := some event.recipient })
    match membership? with
    | none => pure ()
    | some membership => do
        let group? : Option Group ← query (.findGroup membership.groupId)
        match group? with
        | none => pure ()
        | some group =>
            if group.status ≠ .active then pure ()
            else do
              let timestamp ← dateNow
              let _ ← query (.insertContribution {
                id := 0
                groupId := group.id
                userId := membership.userId
                walletAddress := event.recipient
                roundNumber := group.currentRound
                amount := event.amount
                transactionHash := event.transactionHash
                timestamp })
              query (.saveMembership { membership with
                hasPaidCurrentRound := true
                contributionsMade := membership.contributionsMade + 1 })

/-- The payload of a `ContributionReceived` event as `readString` and `readNumber` find it under
the names they try, with the hash and time of its transaction. -/
structure ContributionReceived where
  groupId : Option Uuid
  userId : Option Uuid
  walletAddress : Option String
  amount : Option String
  roundNumber : Option ℤ
  transactionHash : String
  createdAt : Option ℕ

/-- `tx.created_at ? new Date(tx.created_at) : new Date()` -/
def ContributionReceived.time (payload : ContributionReceived) : Service σ ℕ :=
  match payload.createdAt with
  | some t => pure t
  | none => dateNow

/-- Record the payment: change the contribution of its transaction, or insert one. -/
def EventListenerService.recordReceived (groupId userId : Uuid) (walletAddress amount : String)
    (roundNumber : ℤ) (transactionHash : String) (timestamp : ℕ) : Service σ Unit := do
  let existing : Option Contribution ← query
    (.findContribution { transactionHash := some transactionHash })
  match existing with
  | some existing => query (.updateContribution existing.id {
      groupId := some groupId
      userId := some userId
      walletAddress := some walletAddress
      amount := some amount
      roundNumber := some roundNumber
      timestamp := some timestamp })
  | none => do
      let _ ← query (.insertContribution {
        id := 0
        groupId
        userId
        walletAddress
        roundNumber
        amount
        transactionHash
        timestamp })
      pure ()

/-- `EventListenerService.handleContributionReceived(payload, tx)`. -/
def EventListenerService.handleContributionReceived (payload : ContributionReceived) :
    Service σ Unit :=
  match payload.groupId, payload.userId, payload.walletAddress, payload.amount with
  | some groupId, some userId, some walletAddress, some amount => do
      let timestamp ← payload.time
      recordReceived groupId userId walletAddress amount (payload.roundNumber.getD 1)
        payload.transactionHash timestamp
      query (.updateHasPaid { groupId := some groupId, userId := some userId } true)
  | _, _, _, _ => pure ()

end Ahjoor
