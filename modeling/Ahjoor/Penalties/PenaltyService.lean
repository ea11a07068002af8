import Ahjoor.Groups.PayoutService
import Ahjoor.Scheduler.Deadlines
import Mathlib.Data.List.Sort

/-!
# `PenaltyService`

The penalties for missed rounds, with the services that assess, waive, deduct and dispute them, and
the daily job. What the source only logs is left out. Groups, memberships and contributions belong
to other services, which may change them at any time.

`sendNotification` is not among the methods of the notification service, so that it throws when it
is called; here it may succeed or fail, like everything outside the database.
-/

namespace Ahjoor.Penalties

open Async Store StellarService

/-! ### Rows -/

/-- The columns of a group that the penalties use. -/
structure GroupRow where
  id : Uuid
  name : String
  adminWallet : String
  contributionAmount : String
  assetCode : String := "XLM"
  status : GroupStatus := .pending
  currentRound : ℤ := 0
  penaltyRate : ℚ := 0.05
  roundDuration : ℤ
  gracePeriodHours : ℤ := 24
  updatedAt : ℤ
  deriving DecidableEq, Repr

instance : Entity GroupRow := ⟨GroupRow.id, fun i g => { g with id := i }, fun _ _ => rfl⟩

/-- A penalty. -/
structure Penalty where
  id : Uuid
  groupId : Uuid
  userId : Uuid
  roundNumber : ℤ
  amount : String
  assetCode : String := "XLM"
  dueAt : ℤ
  paidAt : Option ℤ := none
  status : PenaltyStatus := .pending
  waiverReason : Option String := none
  waivedByUserId : Option Uuid := none
  waivedAt : Option ℤ := none
  disputeReason : Option String := none
  disputeTxHash : Option String := none
  disputedAt : Option ℤ := none
  resolutionNotes : Option String := none
  resolvedByUserId : Option Uuid := none
  resolvedAt : Option ℤ := none
  deriving DecidableEq, Repr

instance : Entity Penalty := ⟨Penalty.id, fun i p => { p with id := i }, fun _ _ => rfl⟩

/-- The missed contribution: the user, the group and the round. -/
structure Missed where
  userId : Uuid
  groupId : Uuid
  roundNumber : ℤ
  deriving DecidableEq, Repr

/-- What the penalty is for. -/
def Penalty.missed (p : Penalty) : Missed := ⟨p.userId, p.groupId, p.roundNumber⟩

/-! ### The world -/

/-- What other services keep. -/
structure Rest where
  groups : Table GroupRow := .empty
  memberships : List Membership := []
  contributions : List Contribution := []

/-- The tables and the time. -/
structure World where
  penalties : Table Penalty := .empty
  rest : Rest := {}
  clock : ℤ := 0

/-- A query. -/
inductive Query
  | findGroup (id : Uuid)
  /-- the groups with status `ACTIVE` -/
  | findActiveGroups
  | findMemberships (groupId : Uuid)
  | findMembership (sel : MembershipWhere)
  /-- the contribution of a user to a round -/
  | findContribution (missed : Missed)
  | findPenalty (id : Uuid)
  /-- the penalty of a user for a round -/
  | findPenaltyFor (missed : Missed)
  /-- the `PENDING` penalties of a user in a group, by `dueAt` -/
  | findPending (userId groupId : Uuid)
  /-- `save` of a penalty that has just been created -/
  | insertPenalty (p : Penalty)
  /-- `save` of a penalty that was loaded before -/
  | savePenalty (p : Penalty)

/-- What a query returns. -/
def Query.Ret : Query → Type
  | findGroup _ => Option GroupRow
  | findActiveGroups => List GroupRow
  | findMemberships _ => List Membership
  | findMembership _ => Option Membership
  | findContribution _ => Option Contribution
  | findPenalty _ | findPenaltyFor _ => Option Penalty
  | findPending _ _ => List Penalty
  | insertPenalty _ | savePenalty _ => Unit

/-- The contribution is for the round. -/
def pays (missed : Missed) (c : Contribution) : Bool :=
  c.userId = missed.userId ∧ c.groupId = missed.groupId ∧ c.roundNumber = missed.roundNumber

/-- The pending penalties of a user in a group, by `dueAt`. -/
def pendingPenalties (t : Table Penalty) (userId groupId : Uuid) : List Penalty :=
  (t.filter fun p => p.userId = userId ∧ p.groupId = groupId ∧ p.status = .pending).insertionSort
    fun a b => a.dueAt ≤ b.dueAt

/-- What a query reads. -/
def Query.read : (q : Query) → World → q.Ret
  | findGroup id, w => w.rest.groups.row id
  | findActiveGroups, w => w.rest.groups.filter (·.status = .active)
  | findMemberships groupId, w => w.rest.memberships.filter (·.groupId = groupId)
  | findMembership sel, w => w.rest.memberships.find? sel.selects
  | findContribution missed, w => w.rest.contributions.find? (pays missed)
  | findPenalty id, w => w.penalties.row id
  | findPenaltyFor missed, w => w.penalties.find? (·.missed = missed)
  | findPending userId groupId, w => pendingPenalties w.penalties userId groupId
  | insertPenalty _, _ | savePenalty _, _ => ()

/-- The query changes nothing. -/
def Query.isRead : Query → Bool
  | insertPenalty _ | savePenalty _ => false
  | _ => true

/-- What a query leaves. -/
def Query.write : Query → Table Penalty → Table Penalty
  | insertPenalty p, t => (t.insert p).2
  | savePenalty p, t => t.put p
  | _, t => t

/-! ### Operations -/

/-- An awaited operation. -/
inductive Op
  | db (q : Query)
  /-- `notificationsService.sendNotification(userId, type, metadata)` -/
  | sendNotification (userId : Uuid) (type : String) (metadata : List (String × String))
  | notifyBatch (ns : List Notification)
  /-- `auditService.createLog({ userId, action, resource, metadata })` -/
  | createLog (userId : Uuid) (action resource : String) (metadata : List (String × String))
  | now
  /-- what other services do -/
  | change (rest : Rest)

/-- What an operation returns. -/
def Op.Ret : Op → Type
  | db q => Except Exc q.Ret
  | sendNotification _ _ _ | notifyBatch _ | createLog _ _ _ _ => Except Exc Unit
  | now => ℤ
  | change _ => Unit

/-- What the environment decides about one operation. -/
inductive Choice
  | done
  | fails (message : String)
  /-- it takes effect, and the reply is lost -/
  | lost (message : String)
  | time (t : ℤ)

/-- What an operation does. -/
def exec : (o : Op) → ℕ → Choice → World → Option (o.Ret × World)
  | .db q, _, .done, w => some (.ok (q.read w), { w with penalties := q.write w.penalties })
  | .db _, _, .fails msg, w => some (.error (.error msg), w)
  | .db q, _, .lost msg, w =>
      some (.error (.error msg), { w with penalties := q.write w.penalties })
  | .sendNotification _ _ _, _, .done, w | .notifyBatch _, _, .done, w
  | .createLog _ _ _ _, _, .done, w => some (.ok (), w)
  | .sendNotification _ _ _, _, .fails msg, w | .notifyBatch _, _, .fails msg, w
  | .createLog _ _ _ _, _, .fails msg, w => some (.error (.error msg), w)
  | .now, _, .time t, w => if w.clock ≤ t then some (t, { w with clock := t }) else none
  | .change rest, _, .done, w => some ((), { w with rest })
  | _, _, _, _ => none

/-! ### The service -/

/-- The body of an asynchronous method. -/
abbrev Service (α : Type) := Routine Op.Ret Unit Exc α

def db (q : Query) : Service q.Ret := Routine.call (.db q) fun r => r

def sendNotification (userId : Uuid) (type : String) (metadata : List (String × String)) :
    Service Unit :=
  Routine.call (.sendNotification userId type metadata) fun r => r

def notifyBatch (ns : List Notification) : Service Unit := Routine.call (.notifyBatch ns) fun r => r

def createLog (userId : Uuid) (action resource : String) (metadata : List (String × String)) :
    Service Unit :=
  Routine.call (.createLog userId action resource metadata) fun r => r

def dateNow : Service ℤ := Routine.perform Op.now

/-- An expression that may throw. -/
def evaluate {α : Type} : Except Exc α → Service α
  | .ok a => pure a
  | .error e => throw e

/-- The status as the source prints it. -/
def statusText : PenaltyStatus → String
  | .pending => "PENDING"
  | .paid => "PAID"
  | .waived => "WAIVED"
  | .disputed => "DISPUTED"
  | .rejected => "REJECTED"

/-- `calculatePenaltyAmount(contributionAmount, penaltyRate, daysLate)`. -/
def calculatePenaltyAmount (contributionAmount : String) (penaltyRate : ℚ) (daysLate : ℕ) :
    Except Exc String := do
  let amount ← newDecimal contributionAmount
  pure (Decimal.toFixed 7
    (Decimal.times precision (Decimal.times precision amount penaltyRate) daysLate))

/-- `calculateDaysLate(group, roundNumber)`. -/
def calculateDaysLate (_group : GroupRow) (_roundNumber : ℤ) : ℕ := 1

/-- A week. -/
def weekMs : ℤ := 7 * 24 * 60 * 60 * 1000

/-- The round of the loop of `assessPenaltiesForRound` for one member; also how many penalties it
assesses. -/
def assessMember (group : GroupRow) (groupId : Uuid) (roundNumber : ℤ) (membership : Membership) :
    Service ℕ := do
  let missed : Missed := ⟨membership.userId, groupId, roundNumber⟩
  let contribution ← db (.findContribution missed)
  match contribution with
  | some _ => pure 0
  | none => do
      let daysLate := calculateDaysLate group roundNumber
      let penaltyAmount ← evaluate
        (calculatePenaltyAmount group.contributionAmount group.penaltyRate daysLate)
      let existingPenalty ← db (.findPenaltyFor missed)
      match existingPenalty with
      | some _ => pure 0
      | none => do
          let now ← dateNow
          db (.insertPenalty {
            id := 0
            userId := membership.userId
            groupId
            roundNumber
            amount := penaltyAmount
            assetCode := group.assetCode
            dueAt := now + weekMs
            status := .pending })
          sendNotification membership.userId "PENALTY_ASSESSED"
            [("groupId", s!"{groupId}"), ("groupName", group.name),
              ("roundNumber", s!"{roundNumber}"), ("penaltyAmount", penaltyAmount),
              ("assetCode", group.assetCode)]
          pure 1

/-- The loop of `assessPenaltiesForRound`. -/
def assessMembers (group : GroupRow) (groupId : Uuid) (roundNumber : ℤ) :
    List Membership → Service ℕ
  | [] => pure 0
  | membership :: memberships => do
      let assessed ← assessMember group groupId roundNumber membership
      let penaltyCount ← assessMembers group groupId roundNumber memberships
      pure (assessed + penaltyCount)

/-- `assessPenaltiesForRound(groupId, roundNumber)`. -/
def assessPenaltiesForRound (groupId : Uuid) (roundNumber : ℤ) : Service ℕ := do
  let found ← db (.findGroup groupId)
  let group ← Routine.valueOr found (.error s!"Group {groupId} not found")
  let memberships ← db (.findMemberships groupId)
  assessMembers group groupId roundNumber memberships

/-- `waivePenalty(penaltyId, waiverReason, adminUserId)`. -/
def waivePenalty (penaltyId : Uuid) (waiverReason : String) (adminUserId : Uuid) :
    Service Penalty := do
  let found ← db (.findPenalty penaltyId)
  let penalty ← Routine.valueOr found (badRequest s!"Penalty {penaltyId} not found")
  Routine.throwWhen (penalty.status ≠ .pending)
    (badRequest s!"Cannot waive penalty with status {statusText penalty.status}. Only PENDING penalties can be waived.")
  let now ← dateNow
  let penalty : Penalty := { penalty with
    status := .waived
    waiverReason := some waiverReason
    waivedByUserId := some adminUserId
    waivedAt := some now }
  db (.savePenalty penalty)
  let group ← db (.findGroup penalty.groupId)
  sendNotification penalty.userId "PENALTY_WAIVED"
    [("groupId", s!"{penalty.groupId}"), ("groupName", (group.map (·.name)).getD ""),
      ("roundNumber", s!"{penalty.roundNumber}"), ("penaltyAmount", penalty.amount),
      ("waiverReason", waiverReason)]
  pure penalty

/-- `getPendingPenalties(userId, groupId)`. -/
def getPendingPenalties (userId groupId : Uuid) : Service (List Penalty) :=
  db (.findPending userId groupId)

/-- The loop of `deductPenaltiesFromContribution`: the total, and the penalties applied. -/
def deductPenalties : ℚ → List Penalty → Service (ℚ × List Penalty)
  | totalDeduction, [] => pure (totalDeduction, [])
  | totalDeduction, penalty :: penalties => do
      let penaltyAmount ← evaluate (newDecimal penalty.amount)
      let now ← dateNow
      let penalty : Penalty := { penalty with status := .paid, paidAt := some now }
      db (.savePenalty penalty)
      let (total, appliedPenalties) ←
        deductPenalties (Decimal.plus precision totalDeduction penaltyAmount) penalties
      pure (total, penalty :: appliedPenalties)

/-- `deductPenaltiesFromContribution(userId, groupId, contributionAmount)`. -/
def deductPenaltiesFromContribution (userId groupId : Uuid) (_contributionAmount : String) :
    Service (String × List Penalty) := do
  let pending ← getPendingPenalties userId groupId
  if pending.length = 0 then pure ("0", [])
  else do
    let (totalDeduction, appliedPenalties) ← deductPenalties 0 pending
    pure (Decimal.toFixed 7 totalDeduction, appliedPenalties)

/-- `DisputePenaltyDto`. -/
structure DisputePenaltyDto where
  reason : String
  txHash : Option String := none

/-- The part of `disputePenalty` that tells the admin of the group. -/
def notifyGroupAdmin (penaltyId : Uuid) (group : GroupRow) : Service Unit := do
  let adminMembership ← db (.findMembership
    { groupId := some group.id, walletAddress := some group.adminWallet })
  match adminMembership with
  | none => pure ()
  | some adminMembership => notifyBatch [{
      userId := adminMembership.userId
      type := "PENALTY_DISPUTED"
      title := "Penalty Disputed"
      body := s!"Member has disputed a penalty in group {group.name}"
      metadata := [("penaltyId", s!"{penaltyId}"), ("groupId", s!"{group.id}")] }]

/-- `disputePenalty(penaltyId, userId, dto)`. -/
def disputePenalty (penaltyId userId : Uuid) (dto : DisputePenaltyDto) : Service Penalty := do
  let found ← db (.findPenalty penaltyId)
  let penalty ← Routine.valueOr found (notFound s!"Penalty {penaltyId} not found")
  Routine.throwWhen (penalty.userId ≠ userId)
    (forbidden "You can only dispute your own penalties")
  Routine.throwWhen (penalty.status ≠ .pending)
    (badRequest s!"Cannot dispute penalty with status {statusText penalty.status}")
  let now ← dateNow
  let penalty : Penalty := { penalty with
    status := .disputed
    disputeReason := some dto.reason
    disputeTxHash := dto.txHash
    disputedAt := some now }
  db (.savePenalty penalty)
  createLog userId "PENALTY_DISPUTE_SUBMITTED" "Penalty"
    [("penaltyId", s!"{penaltyId}"), ("reason", dto.reason), ("txHash", dto.txHash.getD "")]
  let group ← db (.findGroup penalty.groupId)
  match group with
  | none => pure penalty
  | some group => do
      notifyGroupAdmin penaltyId group
      pure penalty

inductive PenaltyResolution
  | waive | reject
  deriving DecidableEq, Repr

/-- The resolution as the source prints it. -/
def PenaltyResolution.toString : PenaltyResolution → String
  | waive => "WAIVE"
  | reject => "REJECT"

/-- `resolution.toLowerCase()`. -/
def PenaltyResolution.toLower : PenaltyResolution → String
  | waive => "waive"
  | reject => "reject"

/-- `ResolvePenaltyDto`. -/
structure ResolvePenaltyDto where
  resolution : PenaltyResolution
  notes : String

/-- `resolveDispute(penaltyId, adminUserId, dto)`. The membership of the admin is looked up, and
nothing is made of it. -/
def resolveDispute (penaltyId adminUserId : Uuid) (dto : ResolvePenaltyDto) : Service Penalty := do
  let found ← db (.findPenalty penaltyId)
  let penalty ← Routine.valueOr found (notFound s!"Penalty {penaltyId} not found")
  Routine.throwWhen (penalty.status ≠ .disputed) (badRequest "Penalty is not in DISPUTED status")
  let found ← db (.findGroup penalty.groupId)
  let group ← Routine.valueOr found (notFound "Group not found")
  let _ ← db (.findMembership { groupId := some group.id, userId := some adminUserId })
  let now ← dateNow
  let penalty : Penalty := { penalty with
    status := match dto.resolution with
      | .waive => .waived
      | .reject => .rejected
    resolutionNotes := some dto.notes
    resolvedByUserId := some adminUserId
    resolvedAt := some now }
  db (.savePenalty penalty)
  createLog adminUserId "PENALTY_DISPUTE_RESOLVED" "Penalty"
    [("penaltyId", s!"{penaltyId}"), ("resolution", dto.resolution.toString), ("notes", dto.notes)]
  notifyBatch [{
    userId := penalty.userId
    type := "PENALTY_RESOLVED"
    title := "Penalty Dispute Resolved"
    body := s!"Your penalty dispute in group {group.name} has been {dto.resolution.toLower}d"
    metadata := [("penaltyId", s!"{penaltyId}"), ("resolution", dto.resolution.toString)] }]
  pure penalty

/-! ### The job -/

/-- The loop of `assessPenalties`: the groups processed, and the penalties assessed. -/
def assessGroups : List GroupRow → Service (ℕ × ℕ)
  | [] => pure (0, 0)
  | group :: groups => do
      let outcome ← tryCatch (do
        let penaltyCount ← assessPenaltiesForRound group.id group.currentRound
        pure (1, penaltyCount)) fun _ => pure (0, 0)
      let (groupsProcessed, totalPenalties) ← assessGroups groups
      pure (outcome.1 + groupsProcessed, outcome.2 + totalPenalties)

/-- `PenaltyAssessmentJob.assessPenalties()`. -/
def assessPenalties : Service (ℕ × ℕ) := do
  let activeGroups ← db .findActiveGroups
  assessGroups activeGroups

/-! ### The system -/

/-- A call. -/
inductive Call
  | assessPenaltiesForRound (groupId : Uuid) (roundNumber : ℤ)
  | assessPenalties
  | waivePenalty (penaltyId : Uuid) (waiverReason : String) (adminUserId : Uuid)
  | deductPenaltiesFromContribution (userId groupId : Uuid) (contributionAmount : String)
  | disputePenalty (penaltyId userId : Uuid) (dto : DisputePenaltyDto)
  | resolveDispute (penaltyId adminUserId : Uuid) (dto : ResolvePenaltyDto)
  | change (rest : Rest)

/-- The body of a call. -/
def Call.body : Call → Service Unit
  | assessPenaltiesForRound groupId roundNumber => do
      let _ ← Penalties.assessPenaltiesForRound groupId roundNumber
      pure ()
  | assessPenalties => do
      let _ ← Penalties.assessPenalties
      pure ()
  | waivePenalty penaltyId waiverReason adminUserId => do
      let _ ← Penalties.waivePenalty penaltyId waiverReason adminUserId
      pure ()
  | deductPenaltiesFromContribution userId groupId contributionAmount => do
      let _ ← Penalties.deductPenaltiesFromContribution userId groupId contributionAmount
      pure ()
  | disputePenalty penaltyId userId dto => do
      let _ ← Penalties.disputePenalty penaltyId userId dto
      pure ()
  | resolveDispute penaltyId adminUserId dto => do
      let _ ← Penalties.resolveDispute penaltyId adminUserId dto
      pure ()
  | change rest => Routine.perform (Op.change rest)

/-- The penalties and those who change them. -/
def system : System Op.Ret Choice World Call (Except Exc Unit) where
  exec := exec
  body c := (c.body ()).bind fun x => .ret x.1

/-- The state of a run. -/
abbrev PenaltiesState := State Op.Ret World Call (Except Exc Unit)

/-- The history of a run. -/
abbrev PenaltiesHist := Hist Op.Ret World Call (Except Exc Unit)

end Ahjoor.Penalties
