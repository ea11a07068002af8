import Ahjoor.TrustScore.TrustScoreService

/-!
# A batch and its users

What a batch writes for a user is a function of the user's own rows, of the rosters of the user's
groups and of which groups are completed (`own`, `ownRecord`). The rows that are loaded for the
other users of the batch do not show in it: the loops pick the rows of one user out again, and the
cohort detector looks at the user's groups only.
-/

namespace Ahjoor.TrustScore

open Store

variable {d : Database} {userIds : List Uuid} {u : Uuid}

/-! ### The record of a user -/

/-- The completed groups. -/
def completedGroupIds (d : Database) : Finset Uuid :=
  ((d.groups.filter (·.status = .completed)).map (·.id)).toFinset

/-- The components from a user's own rows. -/
def own (d : Database) (u : Uuid) : TrustScoreComponents :=
  countGroups (completedGroupIds d) (userGroups u d.memberships.rows)
    ((d.penalties.filter (·.userId = u)).foldl (fun comp p => countPenalty p comp)
      ((d.contributions.filter (·.userId = u)).foldl (fun comp c => countContribution c comp) {}))

/-- The record of a user. -/
def ownRecord (d : Database) (now : ℕ) (u : Uuid) : MemberTrustScore where
  userId := u
  score := computeTrustScore (own d u)
  antiGaming := detectRepeatedCohort u d.memberships.rows
  components := own d u
  lastCalculatedAt := now

/-! ### What is claimed -/

/-- The record with another time stamp. -/
def MemberTrustScore.stamped (now : ℕ) (r : MemberTrustScore) : MemberTrustScore :=
  { r with lastCalculatedAt := now }

/-- **A batch writes what its users' own batches write**, one after another, up to the time stamp;
in whatever order the database returns the rows. It writes one record for each listed user, the
user's own. -/
def BatchesAreIndependent : Prop :=
  ∀ (d : Database) (userIds : List Uuid) (reads : Reads d userIds) (alone : ∀ u, Reads d [u])
    (now : ℕ) (times : Uuid → ℕ),
    recalculateBatch now reads = userIds.map (ownRecord d now) ∧
      (recalculateBatch now reads).map (·.userId) = userIds ∧
        recalculateBatch now reads =
          userIds.flatMap fun u => (recalculateBatch (times u) (alone u)).map (·.stamped now)

/-! ### Picking out the rows of a user -/

/-- Rows of several users, in any order, hold the rows of each of them. -/
theorem filter_user_perm {α : Type} {rows selected : List α} {f : α → Uuid}
    (h : selected.Perm (rows.filter fun a => f a ∈ userIds)) (hu : u ∈ userIds) :
    (selected.filter fun a => f a = u).Perm (rows.filter fun a => f a = u) := by
  refine (h.filter _).trans (List.Perm.of_eq ?_)
  rw [List.filter_filter]
  refine List.filter_congr fun a _ => ?_
  by_cases ha : f a = u
  · simp [ha, hu]
  · simp [ha]

theorem countContribution_comm (c c' : Contribution) (comp : TrustScoreComponents) :
    countContribution c' (countContribution c comp) =
      countContribution c (countContribution c' comp) := by
  unfold countContribution
  cases c.status <;> cases c'.status <;> rfl

theorem countPenalty_comm (p p' : Penalty) (comp : TrustScoreComponents) :
    countPenalty p' (countPenalty p comp) = countPenalty p (countPenalty p' comp) := by
  unfold countPenalty
  by_cases hp : p.status = .paid <;> by_cases hp' : p'.status = .paid <;> simp [hp, hp']

/-- No groups have been counted. -/
def Groupless (comp : TrustScoreComponents) : Prop :=
  comp.totalGroupsParticipated = 0 ∧ comp.groupsCompletedSuccessfully = 0

theorem Groupless.countContribution {comp : TrustScoreComponents} (h : Groupless comp)
    (c : Contribution) : Groupless (countContribution c comp) := by
  unfold TrustScore.countContribution
  cases c.status <;> exact h

theorem Groupless.countPenalty {comp : TrustScoreComponents} (h : Groupless comp) (p : Penalty) :
    Groupless (countPenalty p comp) := by
  unfold TrustScore.countPenalty
  split <;> exact h

/-- A user without memberships has no groups to count. -/
theorem Groupless.countGroups_empty {comp : TrustScoreComponents} (h : Groupless comp)
    (completed : Finset Uuid) : countGroups completed ∅ comp = comp := by
  obtain ⟨htotal, hcompleted⟩ := h
  rw [countGroups, Finset.filter_empty, Finset.card_empty, ← htotal]
  congr 1
  exact htotal.trans hcompleted.symm

/-! ### Groups -/

theorem mem_userGroups {ms : List Membership} {g : Uuid} :
    g ∈ userGroups u ms ↔ ∃ m ∈ ms, m.userId = u ∧ m.groupId = g := by
  simp [userGroups, and_assoc]

theorem userGroups_congr {ms ms' : List Membership}
    (h : (ms.filter fun m => m.userId = u).Perm (ms'.filter fun m => m.userId = u)) :
    userGroups u ms = userGroups u ms' :=
  List.toFinset_eq_of_perm _ _ (h.map _)

theorem userGroups_cons (m : Membership) (ms : List Membership) :
    userGroups u (m :: ms) =
      if m.userId = u then insert m.groupId (userGroups u ms) else userGroups u ms := by
  by_cases h : m.userId = u <;> simp [userGroups, h]

/-- The loop over the memberships collects the groups of each user. -/
theorem lookup_foldl_memberships (ms : List Membership) (byUser : Map Uuid (Finset Uuid))
    (u : Uuid) :
    ((ms.foldl (fun byUser m => byUser.insert m.userId
      (insert m.groupId ((byUser.lookup m.userId).getD ∅))) byUser).lookup u).getD ∅ =
      userGroups u ms ∪ (byUser.lookup u).getD ∅ := by
  induction ms generalizing byUser with
  | nil => exact (Finset.empty_union _).symm
  | cons m ms ih =>
    rw [List.foldl_cons, ih, Map.lookup_insert_eq, userGroups_cons]
    by_cases h : u = m.userId
    · rw [if_pos h, if_pos h.symm, Option.getD_some, h, Finset.insert_union, Finset.union_insert]
    · rw [if_neg h, if_neg fun h' => h h'.symm]

theorem getD_membershipsByUser (ms : List Membership) (u : Uuid) :
    ((membershipsByUser ms).lookup u).getD ∅ = userGroups u ms := by
  rw [membershipsByUser, lookup_foldl_memberships, AList.lookup_empty, Option.getD_none,
    Finset.union_empty]

/-- **The components that the loops leave** for a user of the batch. -/
theorem lookup_componentsByUser (hu : u ∈ userIds) (cs : List Contribution) (ps : List Penalty)
    (ms : List Membership) (completed : Finset Uuid) :
    (componentsByUser userIds cs ps ms completed).lookup u = some
      (countGroups completed (userGroups u ms)
        ((ps.filter (·.userId = u)).foldl (fun comp p => countPenalty p comp)
          ((cs.filter (·.userId = u)).foldl (fun comp c => countContribution c comp) {}))) := by
  unfold componentsByUser
  dsimp only
  rw [Map.lookup_foldl_modify (fun e : (_ : Uuid) × Finset Uuid => e.1)
      (fun e => countGroups completed e.2),
    Map.lookup_foldl_modify Penalty.userId countPenalty,
    Map.lookup_foldl_modify Contribution.userId countContribution, Map.lookup_foldl_insert,
    if_pos hu, Map.filter_entries, ← getD_membershipsByUser]
  cases h : (membershipsByUser ms).lookup u with
  | some groups => rfl
  | none =>
    -- nothing has been counted in the loop over the groups
    have hcs : Groupless ((cs.filter (·.userId = u)).foldl
        (fun comp c => countContribution c comp) {}) :=
      List.foldlRecOn _ _ ⟨rfl, rfl⟩ fun _ hcomp c _ => hcomp.countContribution c
    have hps : Groupless ((ps.filter (·.userId = u)).foldl (fun comp p => countPenalty p comp)
        ((cs.filter (·.userId = u)).foldl (fun comp c => countContribution c comp) {})) :=
      List.foldlRecOn _ _ hcs fun _ hcomp p _ => hcomp.countPenalty p
    exact congrArg some (hps.countGroups_empty completed).symm

/-! ### Cohorts -/

/-- The memberships of others in a user's groups. -/
def shared (u : Uuid) (groups : Finset Uuid) (ms : List Membership) : List Uuid :=
  (ms.filter fun m => m.userId ≠ u ∧ m.groupId ∈ groups).map (·.userId)

theorem sharedGroupsByUser_eq (u : Uuid) (groups : Finset Uuid) (ms : List Membership) :
    sharedGroupsByUser u groups ms = Map.tally (shared u groups ms) := by
  unfold sharedGroupsByUser Map.tally shared
  rw [List.foldl_map, List.foldl_filter]
  congr 1
  funext byUser m
  by_cases hu : m.userId = u <;> by_cases hgroup : m.groupId ∈ groups <;> simp [hu, hgroup]

/-- The detector depends on a user's groups and on who else is in them. -/
theorem detectRepeatedCohort_congr {ms ms' : List Membership}
    (hgroups : userGroups u ms = userGroups u ms')
    (hshared : (shared u (userGroups u ms') ms).Perm (shared u (userGroups u ms') ms')) :
    detectRepeatedCohort u ms = detectRepeatedCohort u ms' := by
  unfold detectRepeatedCohort
  simp only [hgroups, sharedGroupsByUser_eq, Map.maximum_tally_perm hshared]

/-! ### The reads of a batch -/

namespace Reads

variable (reads : Reads d userIds)

theorem mem_groupIds {g : Uuid} :
    g ∈ groupIds reads.memberships ↔ ∃ m ∈ reads.memberships, m.groupId = g := by
  rw [groupIds, List.mem_dedup, List.mem_map]

theorem userGroups_memberships (hu : u ∈ userIds) :
    userGroups u reads.memberships = userGroups u d.memberships.rows :=
  userGroups_congr (filter_user_perm reads.memberships_perm hu)

/-- The groups of a user are among those that are asked for. -/
theorem mem_groupIds_of_mem (hu : u ∈ userIds) {g : Uuid}
    (hg : g ∈ userGroups u d.memberships.rows) : g ∈ groupIds reads.memberships := by
  rw [← reads.userGroups_memberships hu] at hg
  obtain ⟨m, hm, -, hgroup⟩ := mem_userGroups.mp hg
  exact reads.mem_groupIds.mpr ⟨m, hm, hgroup⟩

/-- Without groups there are no memberships to fall back on. -/
theorem rosters_eq :
    (if 0 < (groupIds reads.memberships).length then reads.rosters else reads.memberships) =
      reads.rosters := by
  split
  · rfl
  next hnone =>
    have hgroups : groupIds reads.memberships = [] := List.length_eq_zero_iff.mp (by omega)
    have hmemberships : reads.memberships = [] := by
      refine List.eq_nil_iff_forall_not_mem.mpr fun m hm => ?_
      have hgroup := reads.mem_groupIds.mpr ⟨m, hm, rfl⟩
      rw [hgroups] at hgroup
      exact List.not_mem_nil hgroup
    have hrosters : reads.rosters.Perm [] := by
      refine reads.rosters_perm.trans (List.Perm.of_eq ?_)
      exact List.filter_eq_nil_iff.mpr fun m _ => by simp [hgroups]
    rw [hmemberships, hrosters.eq_nil]

theorem completedGroups_eq :
    (if 0 < (groupIds reads.memberships).length then reads.completedGroups else []) =
      reads.completedGroups := by
  split
  · rfl
  next hnone =>
    have hgroups : groupIds reads.memberships = [] := List.length_eq_zero_iff.mp (by omega)
    have hcompleted : reads.completedGroups.Perm [] := by
      refine reads.completedGroups_perm.trans (List.Perm.of_eq ?_)
      exact List.filter_eq_nil_iff.mpr fun g _ => by simp [hgroups]
    exact hcompleted.eq_nil.symm

/-- The rosters show a user's groups and everybody in them. -/
theorem detectRepeatedCohort_rosters (hu : u ∈ userIds) :
    detectRepeatedCohort u reads.rosters = detectRepeatedCohort u d.memberships.rows := by
  have hkeep : ∀ {p : Membership → Bool}, (∀ m ∈ d.memberships.rows, p m = true →
      m.groupId ∈ groupIds reads.memberships) →
      (reads.rosters.filter p).Perm (d.memberships.rows.filter p) := by
    intro p hp
    refine (reads.rosters_perm.filter p).trans (List.Perm.of_eq ?_)
    rw [Table.filter, List.filter_filter]
    refine List.filter_congr fun m hm => ?_
    cases hpm : p m with
    | false => rfl
    | true => exact decide_eq_true (hp m hm hpm)
  refine detectRepeatedCohort_congr (userGroups_congr (hkeep fun m hm hmu => ?_)) ?_
  · exact reads.mem_groupIds_of_mem hu
      (mem_userGroups.mpr ⟨m, hm, of_decide_eq_true hmu, rfl⟩)
  · refine (hkeep fun m _ hmu => ?_).map _
    exact reads.mem_groupIds_of_mem hu (of_decide_eq_true hmu).2

/-- Among a user's groups, the completed ones that have been loaded are the completed ones. -/
theorem countGroups_completed (hu : u ∈ userIds) (comp : TrustScoreComponents) :
    countGroups (reads.completedGroups.map (·.id)).toFinset (userGroups u d.memberships.rows) comp =
      countGroups (completedGroupIds d) (userGroups u d.memberships.rows) comp := by
  have hsame : ∀ g ∈ userGroups u d.memberships.rows,
      g ∈ (reads.completedGroups.map (·.id)).toFinset ↔ g ∈ completedGroupIds d := by
    intro g hg
    have hasked := reads.mem_groupIds_of_mem hu hg
    simp only [completedGroupIds, List.mem_toFinset, List.mem_map, reads.completedGroups_perm.mem_iff,
      Table.filter, List.mem_filter, decide_eq_true_eq]
    constructor
    · rintro ⟨group, ⟨hgroup, -, hcompleted⟩, rfl⟩
      exact ⟨group, ⟨hgroup, hcompleted⟩, rfl⟩
    · rintro ⟨group, ⟨hgroup, hcompleted⟩, rfl⟩
      exact ⟨group, ⟨hgroup, hasked, hcompleted⟩, rfl⟩
  rw [countGroups, countGroups, Finset.filter_congr hsame]

/-- **What a batch computes for a user** is what the user's own rows say. -/
theorem lookup_components (hu : u ∈ userIds) :
    (componentsByUser userIds reads.contributions reads.penalties reads.memberships
      (reads.completedGroups.map (·.id)).toFinset).lookup u = some (own d u) := by
  have hcs := filter_user_perm (f := Contribution.userId) reads.contributions_perm hu
  have hps := filter_user_perm (f := Penalty.userId) reads.penalties_perm hu
  rw [lookup_componentsByUser hu, reads.userGroups_memberships hu, reads.countGroups_completed hu,
    hcs.foldl_eq' fun c _ c' _ comp => countContribution_comm c c' comp,
    hps.foldl_eq' fun p _ p' _ comp => countPenalty_comm p p' comp]
  rfl

end Reads

/-! ### The batch -/

/-- **A batch writes the own record of each of its users.** -/
theorem recalculateBatch_eq (now : ℕ) (reads : Reads d userIds) :
    recalculateBatch now reads = userIds.map (ownRecord d now) := by
  unfold recalculateBatch
  split
  next hnone => rw [List.length_eq_zero_iff.mp hnone, List.map_nil]
  next =>
    dsimp only
    rw [reads.rosters_eq, reads.completedGroups_eq]
    refine List.map_congr_left fun u hu => ?_
    rw [reads.lookup_components hu, reads.detectRepeatedCohort_rosters hu, Option.getD_some]
    rfl

/-- **Batches are independent.** -/
theorem batchesAreIndependent : BatchesAreIndependent := by
  intro d userIds reads alone now times
  have hbatch := recalculateBatch_eq now reads
  refine ⟨hbatch, ?_, ?_⟩
  · rw [hbatch, List.map_map]
    exact List.map_id userIds
  · rw [hbatch, ← List.flatMap_pure_eq_map]
    refine List.flatMap_congr fun u _ => ?_
    rw [recalculateBatch_eq]
    rfl

end Ahjoor.TrustScore
