import Ahjoor.Groups.World
import Mathlib.Data.List.Sort

/-!
# The tables of a group's members

The rows of one group: the group itself, its memberships and its waitlist. Every query of the
services on members names the group, or a row that was selected so, and none reads or writes the
rows of another group.

Keys of memberships are handed out in order and never twice, also when the row is deleted. A
repository's `save` of an entity that was loaded before writes every column of it; what it does
when its key is no longer in the table is a parameter.
-/

namespace Ahjoor.Members

/-! ### Rows -/

inductive PayoutOrderStrategy
  | sequential | random | adminDefined
  deriving DecidableEq, Repr

/-- The columns of the group that the services on members use. -/
structure GroupRow where
  id : Uuid
  name : String
  contractAddress : Option String := none
  adminWallet : String
  status : GroupStatus := .pending
  currentRound : ℤ := 0
  payoutOrderStrategy : PayoutOrderStrategy := .sequential
  minMembers : ℤ
  maxMembers : ℤ
  deriving DecidableEq, Repr

/-- A membership. -/
structure Member where
  id : Uuid
  userId : Uuid
  walletAddress : String
  payoutOrder : Option ℤ := none
  hasReceivedPayout : Bool := false
  hasPaidCurrentRound : Bool := false
  status : MembershipStatus := .active
  deriving DecidableEq, Repr

inductive WaitlistStatus
  | waiting | admitted | cancelled
  deriving DecidableEq, Repr

/-- An entry of the waitlist. -/
structure WaitlistEntry where
  id : Uuid
  userId : Uuid
  walletAddress : String
  position : ℤ
  status : WaitlistStatus := .waiting
  deriving DecidableEq, Repr

/-! ### Tables -/

/-- A write. -/
inductive Write
  /-- `save` of a membership that has just been created -/
  | insertMember (member : Member)
  /-- `save` of a membership that was loaded before -/
  | saveMember (member : Member)
  /-- `remove(membership)` -/
  | removeMember (member : Member)
  /-- `save` of a waitlist entry that has just been created -/
  | insertEntry (entry : WaitlistEntry)
  /-- `save` of a waitlist entry that was loaded before -/
  | saveEntry (entry : WaitlistEntry)
  /-- `UPDATE … SET "position" = "position" - 1` of the entries behind a position -/
  | closeGap (position : ℤ)
  /-- `save(group)` -/
  | saveGroup (group : GroupRow)
  deriving DecidableEq

/-- The user for whom a write inserts a membership. -/
def Write.insertedUser : Write → Option Uuid
  | .insertMember member => some member.userId
  | _ => none

/-- The rows, in the order in which they were inserted; `issued` has the user of each membership
key that was handed out, and `log` the writes of the committed transactions, newest first. -/
structure Tables where
  group : Option GroupRow
  members : List Member := []
  waitlist : List WaitlistEntry := []
  issued : List Uuid := []
  nextEntry : Uuid := 0
  log : List (List Write) := []

/-- What `save` does with an entity whose key is no longer in the table. -/
inductive OnMissing
  | inserts | ignores
  deriving DecidableEq, Repr

namespace Tables

/-- The keys of the memberships. -/
def ids (d : Tables) : List Uuid := d.members.map (·.id)

/-- The users that have a membership. -/
def users (d : Tables) : List Uuid := d.members.map (·.userId)

/-- The entries that wait. -/
def waiting (d : Tables) : List WaitlistEntry := d.waitlist.filter (·.status = .waiting)

/-- The memberships after a `save` of one that was loaded before. -/
def saved (missing : OnMissing) (d : Tables) (member : Member) : List Member :=
  if member.id ∈ d.ids then d.members.map fun m => if m.id = member.id then member else m
  else
    match missing with
    | .inserts => d.members ++ [member]
    | .ignores => d.members

/-- Apply a write. -/
def write (missing : OnMissing) (d : Tables) : Write → Tables
  | .insertMember member =>
      { d with
        members := d.members ++ [{ member with id := d.issued.length }]
        issued := d.issued ++ [member.userId] }
  | .saveMember member => { d with members := d.saved missing member }
  | .removeMember member => { d with members := d.members.filter (·.id ≠ member.id) }
  | .insertEntry entry =>
      { d with
        waitlist := d.waitlist ++ [{ entry with id := d.nextEntry }]
        nextEntry := d.nextEntry + 1 }
  | .saveEntry entry =>
      { d with waitlist := d.waitlist.map fun e => if e.id = entry.id then entry else e }
  | .closeGap position =>
      { d with
        waitlist := d.waitlist.map fun e =>
          if e.status = .waiting ∧ position < e.position then
            { e with position := e.position - 1 }
          else e }
  | .saveGroup group => { d with group := some group }

/-- The tables as a transaction sees them after its writes. -/
def view (missing : OnMissing) (d : Tables) (xs : List Write) : Tables :=
  xs.foldl (write missing) d

/-- Commit the writes of a transaction. -/
def commit (missing : OnMissing) (d : Tables) (xs : List Write) : Tables :=
  { d.view missing xs with log := xs :: d.log }

/-- The unique constraint that a write would violate, if there is one. -/
def conflict (missing : OnMissing) (d : Tables) : Write → Option String
  | .insertMember member =>
      if member.userId ∈ d.users then some "UQ_memberships_groupId_userId" else none
  | .saveMember member =>
      if member.id ∉ d.ids ∧ missing = .inserts ∧ member.userId ∈ d.users then
        some "UQ_memberships_groupId_userId"
      else none
  | .insertEntry entry =>
      if entry.userId ∈ d.waitlist.map (·.userId) then some "UQ_group_waitlist_group_user"
      else none
  | .removeMember _ | .saveEntry _ | .closeGap _ | .saveGroup _ => none

/-- The write inserts a row, which refers to the group. -/
def inserts (missing : OnMissing) (d : Tables) : Write → Bool
  | .insertMember _ | .insertEntry _ => true
  | .saveMember member => member.id ∉ d.ids ∧ missing = .inserts
  | .removeMember _ | .saveEntry _ | .closeGap _ | .saveGroup _ => false

end Tables

/-! ### Queries -/

/-- Ascending payout orders; `NULL` comes last. -/
def payoutOrderLe : Option ℤ → Option ℤ → Bool
  | some a, some b => a ≤ b
  | none, some _ => false
  | _, none => true

/-- A query. -/
inductive Query
  /-- the group by its key -/
  | findGroup
  /-- the group with its memberships -/
  | findGroupWithMembers
  | countMembers
  /-- the membership of a user -/
  | findMember (userId : Uuid)
  /-- the memberships in the order of their `payoutOrder` -/
  | findMembers
  | maxPayoutOrder
  /-- the `WAITING` entry of a user -/
  | findWaiting (userId : Uuid)
  | countWaiting
  | write (x : Write)

/-- What a query returns. -/
def Query.Ret : Query → Type
  | findGroup => Option GroupRow
  | findGroupWithMembers => Option (GroupRow × List Member)
  | countMembers | countWaiting => ℕ
  | findMember _ => Option Member
  | findMembers => List Member
  | maxPayoutOrder => Option ℤ
  | findWaiting _ => Option WaitlistEntry
  | write _ => Unit

/-- What a query reads in the tables. -/
def Query.read (missing : OnMissing) : (q : Query) → Tables → Except Exc q.Ret
  | findGroup, d => .ok d.group
  | findGroupWithMembers, d => .ok (d.group.map fun g => (g, d.members))
  | countMembers, d => .ok d.members.length
  | findMember userId, d => .ok (d.members.find? (·.userId = userId))
  | findMembers, d => .ok (d.members.insertionSort fun a b => payoutOrderLe a.payoutOrder b.payoutOrder)
  | maxPayoutOrder, d => .ok (d.members.filterMap (·.payoutOrder)).max?
  | findWaiting userId, d => .ok (d.waiting.find? (·.userId = userId))
  | countWaiting, d => .ok d.waiting.length
  | write x, d =>
      match d.conflict missing x with
      | some constraint => .error (.uniqueViolation constraint)
      | none => .ok ()

/-- The write of a query that the tables accept. -/
def Query.writes (missing : OnMissing) (d : Tables) : Query → Option Write
  | write x => if (d.conflict missing x).isNone then some x else none
  | _ => none

/-- The first entries that wait, in the order of their positions. -/
def Tables.nextWaiting (d : Tables) (limit : ℕ) : List WaitlistEntry :=
  (d.waiting.insertionSort fun a b => a.position ≤ b.position).take limit

end Ahjoor.Members
