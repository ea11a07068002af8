import Ahjoor.Groups.Entities

/-!
# The database and its queries

One `Query` for each way a service uses a repository, and what it does to the tables. A
repository's `save` writes every column of the entity it is given, whatever the row holds by
then: an entity read earlier overwrites later changes. Inserts check the unique indexes and
throw where one is violated; no service deletes a row of these tables.

A `where` object selects the rows that agree with all of its given properties, and an update
changes the given columns only.
-/

namespace Ahjoor

open Store

/-! ### Conditions -/

/-- A property of a `where` object: absent, or the value the column has to have. -/
def given {α : Type} [DecidableEq α] (want : Option α) (have' : α) : Bool :=
  want.all (· == have')

/-- `where` on memberships. -/
structure MembershipWhere where
  groupId : Option Uuid := none
  userId : Option Uuid := none
  payoutOrder : Option ℤ := none
  walletAddress : Option String := none
  status : Option MembershipStatus := none

def MembershipWhere.selects (w : MembershipWhere) (m : Membership) : Bool :=
  given w.groupId m.groupId && given w.userId m.userId &&
    (w.payoutOrder.isNone || w.payoutOrder == m.payoutOrder) &&
    given w.walletAddress m.walletAddress && given w.status m.status

/-- `where` on contributions. -/
structure ContributionWhere where
  id : Option Uuid := none
  groupId : Option Uuid := none
  roundNumber : Option ℤ := none
  transactionHash : Option String := none
  idempotencyKey : Option String := none
  status : Option ContributionStatus := none

def ContributionWhere.selects (w : ContributionWhere) (c : Contribution) : Bool :=
  given w.id c.id && given w.groupId c.groupId && given w.roundNumber c.roundNumber &&
    given w.transactionHash c.transactionHash &&
    (w.idempotencyKey.isNone || w.idempotencyKey == c.idempotencyKey) && given w.status c.status

/-- The columns a contribution update changes. -/
structure ContributionPatch where
  groupId : Option Uuid := none
  userId : Option Uuid := none
  walletAddress : Option String := none
  amount : Option String := none
  roundNumber : Option ℤ := none
  timestamp : Option ℕ := none
  status : Option ContributionStatus := none

def ContributionPatch.apply (p : ContributionPatch) (c : Contribution) : Contribution :=
  { c with
    groupId := p.groupId.getD c.groupId
    userId := p.userId.getD c.userId
    walletAddress := p.walletAddress.getD c.walletAddress
    amount := p.amount.getD c.amount
    roundNumber := p.roundNumber.getD c.roundNumber
    timestamp := p.timestamp.getD c.timestamp
    status := p.status.getD c.status }

/-! ### Tables -/

/-- The tables behind the modelled services. -/
structure Database where
  groups : Table Group
  memberships : Table Membership
  payoutTransactions : Table PayoutTransaction
  contributions : Table Contribution
  penalties : Table Penalty

namespace Database

/-- No rows at all. -/
def empty : Database := ⟨.empty, .empty, .empty, .empty, .empty⟩

/-- The unique index on `payoutOrderId`. -/
def payoutByOrderId (d : Database) (key : String) : Option PayoutTransaction :=
  d.payoutTransactions.find? fun p => p.payoutOrderId == key

/-- The unique constraint a contribution would violate, if there is one: those on
`transactionHash`, on `(userId, groupId, roundNumber)` and on a given `idempotencyKey`. -/
def contributionConflict (d : Database) (c : Contribution) : Option String :=
  let others := d.contributions.filter fun c' => c'.id != c.id
  if others.any (fun c' => c'.transactionHash == c.transactionHash) then
    some "UQ_contributions_transactionHash"
  else if others.any (fun c' => c'.userId == c.userId && c'.groupId == c.groupId &&
      c'.roundNumber == c.roundNumber) then
    some "UQ_contributions_userId_groupId_roundNumber"
  else if c.idempotencyKey.isSome && others.any (fun c' => c'.idempotencyKey == c.idempotencyKey) then
    some "IDX_contributions_idempotencyKey"
  else none

end Database

/-! ### Queries -/

/-- The repository calls of the modelled services. -/
inductive Query
  /-- `groupRepository.findOne({ where: { id } })` -/
  | findGroup (id : Uuid)
  /-- `groupRepository.findOne({ where: { id }, relations: ['memberships'] })` -/
  | findGroupWithMemberships (id : Uuid)
  /-- `groupRepository.save(group)` -/
  | saveGroup (group : Group)
  /-- `membershipRepository.findOne({ where })` -/
  | findMembership (sel : MembershipWhere)
  /-- `membershipRepository.find({ where })` -/
  | findMemberships (sel : MembershipWhere)
  /-- `membershipRepository.save(membership)` -/
  | saveMembership (membership : Membership)
  /-- `membershipRepository.update(where, { hasPaidCurrentRound })` -/
  | updateHasPaid (sel : MembershipWhere) (hasPaidCurrentRound : Bool)
  /-- `penaltyRepository.count({ where: { userId, groupId, status: In([…]) } })` -/
  | countPenalties (userId groupId : Uuid) (statuses : List PenaltyStatus)
  /-- `payoutTransactionRepository.findOne({ where: { payoutOrderId } })` -/
  | findPayoutByOrderId (payoutOrderId : String)
  /-- `payoutTransactionRepository.findOne({ where: { id } })` -/
  | findPayout (id : Uuid)
  /-- `payoutTransactionRepository.find({ where: [{ status }, …] })` -/
  | findPayouts (statuses : List PayoutTransactionStatus)
  /-- `payoutTransactionRepository.save(entity)` for an entity just created -/
  | insertPayout (payout : PayoutTransaction)
  /-- `payoutTransactionRepository.save(entity)` for an entity with a key -/
  | savePayout (payout : PayoutTransaction)
  /-- `contributionRepository.findOne({ where })` -/
  | findContribution (sel : ContributionWhere)
  /-- `contributionRepository.find({ where })` -/
  | findContributions (sel : ContributionWhere)
  /-- `contributionRepository.save(entity)` for an entity just created -/
  | insertContribution (contribution : Contribution)
  /-- `insert().into(Contribution).values(…).orIgnore().execute()` -/
  | insertContributionOrIgnore (contribution : Contribution)
  /-- `contributionRepository.update(id, patch)` -/
  | updateContribution (id : Uuid) (patch : ContributionPatch)

namespace Query

/-- What a query returns. -/
def Ret : Query → Type
  | findGroup _ => Option Group
  | findGroupWithMemberships _ => Option (Group × List Membership)
  | findMembership _ => Option Membership
  | findMemberships _ => List Membership
  | countPenalties _ _ _ => ℕ
  | findPayoutByOrderId _ | findPayout _ => Option PayoutTransaction
  | findPayouts _ => List PayoutTransaction
  | insertPayout _ => PayoutTransaction
  | findContribution _ => Option Contribution
  | findContributions _ => List Contribution
  | insertContribution _ => Contribution
  | insertContributionOrIgnore _ => Option Uuid
  | saveGroup _ | saveMembership _ | updateHasPaid _ _ | savePayout _ | updateContribution _ _ => Unit

/-- What a query answers and what it leaves in the tables. -/
def eval : (q : Query) → Database → Except Exc q.Ret × Database
  | findGroup id, d => (.ok (d.groups.row id), d)
  | findGroupWithMemberships id, d =>
      (.ok ((d.groups.row id).map fun g => (g, d.memberships.filter fun m => m.groupId == id)), d)
  | saveGroup g, d => (.ok (), { d with groups := d.groups.put g })
  | findMembership w, d => (.ok (d.memberships.find? w.selects), d)
  | findMemberships w, d => (.ok (d.memberships.filter w.selects), d)
  | saveMembership m, d => (.ok (), { d with memberships := d.memberships.put m })
  | updateHasPaid w paid, d =>
      (.ok (), { d with
        memberships := d.memberships.modify w.selects
          fun m => { m with hasPaidCurrentRound := paid } })
  | countPenalties u g statuses, d =>
      (.ok (d.penalties.filter fun p =>
        p.userId == u && p.groupId == g && statuses.contains p.status).length, d)
  | findPayoutByOrderId key, d => (.ok (d.payoutByOrderId key), d)
  | findPayout id, d => (.ok (d.payoutTransactions.row id), d)
  | findPayouts statuses, d =>
      (.ok (d.payoutTransactions.filter fun p => statuses.contains p.status), d)
  | insertPayout p, d =>
      if (d.payoutByOrderId p.payoutOrderId).isSome then
        (.error (.uniqueViolation "IDX_payout_transactions_payoutOrderId"), d)
      else
        let stored := d.payoutTransactions.insert p
        (.ok stored.1, { d with payoutTransactions := stored.2 })
  | savePayout p, d => (.ok (), { d with payoutTransactions := d.payoutTransactions.put p })
  | findContribution w, d => (.ok (d.contributions.find? w.selects), d)
  | findContributions w, d => (.ok (d.contributions.filter w.selects), d)
  | insertContribution c, d =>
      let stored := d.contributions.insert c
      match d.contributionConflict stored.1 with
      | some constraint => (.error (.uniqueViolation constraint), d)
      | none => (.ok stored.1, { d with contributions := stored.2 })
  | insertContributionOrIgnore c, d =>
      let stored := d.contributions.insert c
      match d.contributionConflict stored.1 with
      | some _ => (.ok none, d)
      | none => (.ok (some stored.1.id), { d with contributions := stored.2 })
  | updateContribution id patch, d =>
      match d.contributions.row id with
      | none => (.ok (), d)
      | some c =>
          match d.contributionConflict (patch.apply c) with
          | some constraint => (.error (.uniqueViolation constraint), d)
          | none => (.ok (), { d with contributions := d.contributions.put (patch.apply c) })

end Query

end Ahjoor
