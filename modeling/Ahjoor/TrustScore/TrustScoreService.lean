import Ahjoor.Decimal.Arithmetic
import Ahjoor.Groups.Database
import Ahjoor.Store.Map
import Mathlib.Data.Finset.Card

/-!
# `TrustScoreService`

The formula of the trust score, the detector of repeated cohorts, and the recalculation of a batch
of users. A batch reads the rows of all its users at once and splits them again; the database may
return the rows of a query in any order (`Reads`). Scores and confidences are exact numbers that
are rounded where the source rounds them.

The events that are emitted after each record are left out.
-/

namespace Ahjoor.TrustScore

open Store

/-! ### The formula -/

structure TrustScoreComponents where
  onTimeContributions : ℕ := 0
  lateContributions : ℕ := 0
  missedContributions : ℕ := 0
  penaltiesIncurred : ℕ := 0
  penaltiesPaid : ℕ := 0
  groupsCompletedSuccessfully : ℕ := 0
  totalGroupsParticipated : ℕ := 0
  deriving DecidableEq, Repr

/-- Weight applied to the on-time contribution ratio. -/
def ON_TIME_WEIGHT : ℚ := 60

/-- Points deducted per outstanding penalty. -/
def PENALTY_DEDUCTION : ℚ := 5

/-- Points added per successfully completed group. -/
def COMPLETION_BONUS_PER_GROUP : ℚ := 4

/-- Maximum points that can be earned from the completion bonus. -/
def COMPLETION_BONUS_CAP : ℚ := 20

def SCORE_MIN : ℚ := 0

def SCORE_MAX : ℚ := 100

/-- The part of the score for contributions on time. -/
def base (c : TrustScoreComponents) : ℚ :=
  let totalContributions := c.onTimeContributions + c.lateContributions + c.missedContributions
  if 0 < totalContributions then
    (c.onTimeContributions : ℚ) / (totalContributions : ℕ) * ON_TIME_WEIGHT
  else 0

/-- `Math.max(0, c.penaltiesIncurred - c.penaltiesPaid)`. -/
def outstandingPenalties (c : TrustScoreComponents) : ℤ :=
  max 0 ((c.penaltiesIncurred : ℤ) - c.penaltiesPaid)

/-- The part of the score for completed groups. -/
def completionBonus (c : TrustScoreComponents) : ℚ :=
  min (c.groupsCompletedSuccessfully * COMPLETION_BONUS_PER_GROUP) COMPLETION_BONUS_CAP

/-- `computeTrustScore(c)`. -/
def computeTrustScore (c : TrustScoreComponents) : ℚ :=
  let penaltyAdj := outstandingPenalties c * PENALTY_DEDUCTION
  let raw := base c - penaltyAdj + completionBonus c
  min SCORE_MAX (max SCORE_MIN (Decimal.atScale 2 raw))

/-! ### The cohort detector -/

structure AntiGamingResult where
  confidence : ℚ
  flagged : Bool
  deriving DecidableEq, Repr

def ANTI_GAMING_MIN_GROUPS : ℕ := 3

def ANTI_GAMING_MIN_REPEATED_GROUPS : ℕ := 3

def ANTI_GAMING_FLAG_THRESHOLD : ℚ := 3 / 4

/-- The groups of a user among memberships. -/
def userGroups (userId : Uuid) (memberships : List Membership) : Finset Uuid :=
  ((memberships.filter (·.userId = userId)).map (·.groupId)).toFinset

/-- How many of the groups each other user shares. -/
def sharedGroupsByUser (userId : Uuid) (groups : Finset Uuid) (memberships : List Membership) :
    Map Uuid ℕ :=
  memberships.foldl
    (fun shared membership =>
      if membership.userId = userId ∨ membership.groupId ∉ groups then shared
      else shared.bump membership.userId)
    ∅

/-- `detectRepeatedCohort(userId, memberships)`. -/
def detectRepeatedCohort (userId : Uuid) (memberships : List Membership) : AntiGamingResult :=
  let groups := userGroups userId memberships
  if groups.card < ANTI_GAMING_MIN_GROUPS then { confidence := 0, flagged := false }
  else
    let maxRepeatedGroups := (sharedGroupsByUser userId groups memberships).maximum
    let confidence : ℚ := min 1 (maxRepeatedGroups / groups.card)
    { confidence := Decimal.atScale 4 confidence
      flagged := ANTI_GAMING_MIN_REPEATED_GROUPS ≤ maxRepeatedGroups ∧
        ANTI_GAMING_FLAG_THRESHOLD ≤ confidence }

/-! ### The loops of a batch -/

/-- A contribution counts by its status; one that has only been submitted does not count. -/
def countContribution (c : Contribution) (comp : TrustScoreComponents) : TrustScoreComponents :=
  match c.status with
  | .confirmed => { comp with onTimeContributions := comp.onTimeContributions + 1 }
  | .pending => { comp with lateContributions := comp.lateContributions + 1 }
  | .failed => { comp with missedContributions := comp.missedContributions + 1 }
  | .onChainSubmitted => comp

/-- A penalty counts as incurred, and as paid when it is `PAID`. -/
def countPenalty (p : Penalty) (comp : TrustScoreComponents) : TrustScoreComponents :=
  let comp := { comp with penaltiesIncurred := comp.penaltiesIncurred + 1 }
  if p.status = .paid then { comp with penaltiesPaid := comp.penaltiesPaid + 1 } else comp

/-- The groups of every user of the batch. -/
def membershipsByUser (memberships : List Membership) : Map Uuid (Finset Uuid) :=
  memberships.foldl
    (fun byUser m => byUser.insert m.userId (insert m.groupId ((byUser.lookup m.userId).getD ∅))) ∅

/-- A user's groups, and those of them that are completed. -/
def countGroups (completedGroupIds groupSet : Finset Uuid) (comp : TrustScoreComponents) :
    TrustScoreComponents :=
  { comp with
    totalGroupsParticipated := groupSet.card
    groupsCompletedSuccessfully := (groupSet.filter (· ∈ completedGroupIds)).card }

/-- `componentsByUser` after all loops. -/
def componentsByUser (userIds : List Uuid) (contributions : List Contribution)
    (penalties : List Penalty) (memberships : List Membership) (completedGroupIds : Finset Uuid) :
    Map Uuid TrustScoreComponents :=
  let byUser : Map Uuid TrustScoreComponents :=
    userIds.foldl (fun byUser userId => byUser.insert userId {}) ∅
  let byUser := contributions.foldl (fun byUser c => byUser.modify c.userId (countContribution c))
    byUser
  let byUser := penalties.foldl (fun byUser p => byUser.modify p.userId (countPenalty p)) byUser
  (membershipsByUser memberships).entries.foldl
    (fun byUser entry => byUser.modify entry.1 (countGroups completedGroupIds entry.2)) byUser

/-! ### A batch -/

/-- A record of `member_trust_scores`. -/
structure MemberTrustScore where
  userId : Uuid
  score : ℚ
  antiGaming : AntiGamingResult
  components : TrustScoreComponents
  lastCalculatedAt : ℕ
  deriving DecidableEq, Repr

/-- `[...new Set(memberships.map((m) => m.groupId))]`. -/
def groupIds (memberships : List Membership) : List Uuid := (memberships.map (·.groupId)).dedup

/-- What the queries of a batch return: the rows that they select, in some order. -/
structure Reads (d : Database) (userIds : List Uuid) where
  contributions : List Contribution
  penalties : List Penalty
  memberships : List Membership
  /-- the memberships of all groups of these users -/
  rosters : List Membership
  completedGroups : List Group
  contributions_perm : contributions.Perm (d.contributions.filter (·.userId ∈ userIds))
  penalties_perm : penalties.Perm (d.penalties.filter (·.userId ∈ userIds))
  memberships_perm : memberships.Perm (d.memberships.filter (·.userId ∈ userIds))
  rosters_perm : rosters.Perm (d.memberships.filter (·.groupId ∈ groupIds memberships))
  completedGroups_perm : completedGroups.Perm
    (d.groups.filter fun g => g.id ∈ groupIds memberships ∧ g.status = .completed)

variable {d : Database} {userIds : List Uuid}

/-- `recalculateBatch(userIds)`: the records that are written, in their order. -/
def recalculateBatch (now : ℕ) (reads : Reads d userIds) : List MemberTrustScore :=
  if userIds.length = 0 then []
  else
    let groupIds := groupIds reads.memberships
    let allGroupMemberships :=
      if 0 < groupIds.length then reads.rosters else reads.memberships
    let completedGroups := if 0 < groupIds.length then reads.completedGroups else []
    let completedGroupIds := (completedGroups.map (·.id)).toFinset
    let byUser := componentsByUser userIds reads.contributions reads.penalties reads.memberships
      completedGroupIds
    userIds.map fun userId =>
      let comp := (byUser.lookup userId).getD {}
      { userId
        score := computeTrustScore comp
        antiGaming := detectRepeatedCohort userId allGroupMemberships
        components := comp
        lastCalculatedAt := now }

/-- The rows in the order of their keys. -/
def Reads.ordered (d : Database) (userIds : List Uuid) : Reads d userIds where
  contributions := d.contributions.filter (·.userId ∈ userIds)
  penalties := d.penalties.filter (·.userId ∈ userIds)
  memberships := d.memberships.filter (·.userId ∈ userIds)
  rosters := d.memberships.filter fun m =>
    m.groupId ∈ groupIds (d.memberships.filter (·.userId ∈ userIds))
  completedGroups := d.groups.filter fun g =>
    g.id ∈ groupIds (d.memberships.filter (·.userId ∈ userIds)) ∧ g.status = .completed
  contributions_perm := .rfl
  penalties_perm := .rfl
  memberships_perm := .rfl
  rosters_perm := .rfl
  completedGroups_perm := .rfl

end Ahjoor.TrustScore
