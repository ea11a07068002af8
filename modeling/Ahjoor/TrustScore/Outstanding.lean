import Ahjoor.TrustScore.Batches
import Mathlib.Algebra.BigOperators.Group.Finset.Basic

/-!
# Outstanding penalties

Two services ask which penalties of a user are outstanding. The trust score subtracts those that
have been paid from all that have been incurred; the payout service counts the pending ones of a
group, and a payout is blocked by them. The difference is the number of the penalties that are
neither pending nor paid (`outstanding_eq`).
-/

namespace Ahjoor.TrustScore

open Store

variable {d : Database} {userIds : List Uuid} {u : Uuid}

/-! ### What is claimed -/

/-- `outstandingPenalties` of `distributePayout` for a recipient in a group. -/
def blockingInGroup (d : Database) (userId groupId : Uuid) : ℕ :=
  let answer : Except Exc ℕ := ((Query.countPenalties userId groupId [.pending]).eval d).1
  answer.toOption.getD 0

/-- The groups in which a user has penalties. -/
def penaltyGroups (d : Database) (userId : Uuid) : Finset Uuid :=
  ((d.penalties.filter (·.userId = userId)).map (·.groupId)).toFinset

/-- The penalties of a user that block a payout, over all groups. -/
def blockingPenalties (d : Database) (userId : Uuid) : ℕ :=
  ∑ g ∈ penaltyGroups d userId, blockingInGroup d userId g

/-- **The score and the payout count the same penalties** of the user of a record. -/
def OneNotion (d : Database) (r : MemberTrustScore) : Prop :=
  (r.components.penaltiesIncurred : ℤ) - r.components.penaltiesPaid = blockingPenalties d r.userId

instance (d : Database) (r : MemberTrustScore) : Decidable (OneNotion d r) :=
  inferInstanceAs (Decidable (_ = _))

/-- No penalty of the user has been waived or disputed. -/
def Undisputed (d : Database) (userId : Uuid) : Prop :=
  ∀ p ∈ d.penalties.rows, p.userId = userId → p.status = .pending ∨ p.status = .paid

instance (d : Database) (userId : Uuid) : Decidable (Undisputed d userId) :=
  inferInstanceAs (Decidable (∀ p ∈ d.penalties.rows, _))

/-! ### What the payout service counts -/

theorem blockingInGroup_eq (d : Database) (u g : Uuid) :
    blockingInGroup d u g = d.penalties.rows.countP fun p =>
      p.userId == u && p.groupId == g && [PenaltyStatus.pending].contains p.status :=
  List.countP_eq_length_filter.symm

/-- **The payout service counts the pending penalties.** -/
theorem blockingPenalties_eq (d : Database) (u : Uuid) :
    blockingPenalties d u =
      (d.penalties.filter (·.userId = u)).countP fun p => p.status = .pending := by
  -- the groups of the pending penalties, each as often as it has one
  let groups : Multiset Uuid :=
    ((d.penalties.filter (·.userId = u)).filter fun p => p.status = .pending).map (·.groupId)
  have hcount : ∀ g, blockingInGroup d u g = groups.count g := by
    intro g
    rw [blockingInGroup_eq, Multiset.coe_count, List.count_eq_countP, List.countP_map,
      List.countP_filter, Table.filter, List.countP_filter]
    refine List.countP_congr fun p _ => ?_
    simp [and_comm, and_left_comm, and_assoc]
  have hmem : ∀ g ∈ groups, g ∈ penaltyGroups d u := by
    intro g hg
    obtain ⟨p, hp, rfl⟩ := List.mem_map.mp (Multiset.mem_coe.mp hg)
    exact List.mem_toFinset.mpr (List.mem_map_of_mem (List.mem_of_mem_filter hp))
  calc blockingPenalties d u
      = ∑ g ∈ penaltyGroups d u, groups.count g := Finset.sum_congr rfl fun g _ => hcount g
    _ = groups.card := Multiset.sum_count_eq_card hmem
    _ = _ := by rw [Multiset.coe_card, List.length_map, List.countP_eq_length_filter]

/-! ### What the score counts -/

theorem penaltiesIncurred_foldl (ps : List Penalty) (comp : TrustScoreComponents) :
    (ps.foldl (fun comp p => countPenalty p comp) comp).penaltiesIncurred =
      comp.penaltiesIncurred + ps.length := by
  induction ps generalizing comp with
  | nil => rfl
  | cons p ps ih =>
    have hstep : (countPenalty p comp).penaltiesIncurred = comp.penaltiesIncurred + 1 := by
      unfold countPenalty
      split <;> rfl
    rw [List.foldl_cons, ih, hstep, List.length_cons]
    omega

theorem penaltiesPaid_foldl (ps : List Penalty) (comp : TrustScoreComponents) :
    (ps.foldl (fun comp p => countPenalty p comp) comp).penaltiesPaid =
      comp.penaltiesPaid + ps.countP fun p => p.status = .paid := by
  induction ps generalizing comp with
  | nil => rfl
  | cons p ps ih =>
    rw [List.foldl_cons, ih, List.countP_cons, countPenalty]
    by_cases hp : p.status = .paid
    · simp only [hp, if_true, decide_true]
      omega
    · simp only [hp, if_false, decide_false, Bool.false_eq_true, Nat.add_zero]

/-- Contributions leave the penalties alone. -/
theorem penalties_foldl_countContribution (cs : List Contribution) (comp : TrustScoreComponents) :
    (cs.foldl (fun comp c => countContribution c comp) comp).penaltiesIncurred =
        comp.penaltiesIncurred ∧
      (cs.foldl (fun comp c => countContribution c comp) comp).penaltiesPaid =
        comp.penaltiesPaid := by
  induction cs generalizing comp with
  | nil => exact ⟨rfl, rfl⟩
  | cons c cs ih =>
    have hstep : (countContribution c comp).penaltiesIncurred = comp.penaltiesIncurred ∧
        (countContribution c comp).penaltiesPaid = comp.penaltiesPaid := by
      unfold countContribution
      cases c.status <;> exact ⟨rfl, rfl⟩
    rw [List.foldl_cons, ← hstep.1, ← hstep.2]
    exact ih _

theorem penaltiesIncurred_own (d : Database) (u : Uuid) :
    (own d u).penaltiesIncurred = (d.penalties.filter (·.userId = u)).length := by
  rw [own, countGroups, penaltiesIncurred_foldl, (penalties_foldl_countContribution _ _).1]
  exact Nat.zero_add _

theorem penaltiesPaid_own (d : Database) (u : Uuid) :
    (own d u).penaltiesPaid =
      (d.penalties.filter (·.userId = u)).countP fun p => p.status = .paid := by
  rw [own, countGroups, penaltiesPaid_foldl, (penalties_foldl_countContribution _ _).2]
  exact Nat.zero_add _

/-! ### The difference -/

/-- The penalties of a user that are neither pending nor paid. -/
def settledOtherwise (d : Database) (u : Uuid) : ℕ :=
  (d.penalties.filter (·.userId = u)).countP fun p => p.status ≠ .pending ∧ p.status ≠ .paid

/-- Penalties are paid, pending, or neither. -/
theorem length_eq_countP (ps : List Penalty) :
    ps.length = (ps.countP fun p => p.status = .paid) + (ps.countP fun p => p.status = .pending) +
      ps.countP fun p => p.status ≠ .pending ∧ p.status ≠ .paid := by
  induction ps with
  | nil => rfl
  | cons p ps ih =>
    rw [List.length_cons, List.countP_cons, List.countP_cons, List.countP_cons, ih]
    cases p.status <;> simp <;> omega

/-- **The score counts more than the payout service**: it also counts what is neither pending nor
paid. -/
theorem outstanding_eq (d : Database) (u : Uuid) :
    ((own d u).penaltiesIncurred : ℤ) - (own d u).penaltiesPaid =
      blockingPenalties d u + settledOtherwise d u := by
  rw [penaltiesIncurred_own, penaltiesPaid_own, blockingPenalties_eq, settledOtherwise,
    length_eq_countP]
  omega

theorem settledOtherwise_eq_zero : settledOtherwise d u = 0 ↔ Undisputed d u := by
  rw [settledOtherwise, List.countP_eq_zero]
  constructor
  · intro h p hp hu
    have hnot := h p (List.mem_filter.mpr ⟨hp, decide_eq_true hu⟩)
    by_contra hneither
    exact hnot (decide_eq_true (not_or.mp hneither))
  · intro h p hp hneither
    obtain ⟨hrow, hu⟩ := List.mem_filter.mp hp
    have hnot := of_decide_eq_true hneither
    exact (h p hrow (of_decide_eq_true hu)).elim hnot.1 hnot.2

/-- **The two notions agree exactly for the users without waived or disputed penalties.** -/
theorem oneNotion_iff (now : ℕ) (reads : Reads d userIds) {r : MemberTrustScore}
    (hr : r ∈ recalculateBatch now reads) : OneNotion d r ↔ Undisputed d r.userId := by
  rw [recalculateBatch_eq] at hr
  obtain ⟨u, -, rfl⟩ := List.mem_map.mp hr
  rw [← settledOtherwise_eq_zero]
  change ((own d u).penaltiesIncurred : ℤ) - (own d u).penaltiesPaid = blockingPenalties d u ↔
    settledOtherwise d u = 0
  rw [outstanding_eq]
  omega

/-- A user with one penalty. -/
def onePenalty (status : PenaltyStatus) : Database :=
  { Database.empty with
    penalties := (Table.empty.insert { id := 0, groupId := 7, userId := 1, status }).2 }

/-- After the penalty has been waived it still lowers the score. -/
theorem not_oneNotion : ¬ ∀ (d : Database) (userIds : List Uuid) (reads : Reads d userIds)
    (now : ℕ), ∀ r ∈ recalculateBatch now reads, OneNotion d r := by
  intro h
  have hall := h (onePenalty .waived) [1] (.ordered _ _) 0
  revert hall
  decide

theorem oneNotion_sample :
    ∃ r ∈ recalculateBatch 0 (.ordered (onePenalty .pending) [1]),
      OneNotion (onePenalty .pending) r ∧ r.components.penaltiesIncurred = 1 := by
  have hmem : ownRecord (onePenalty .pending) 0 1 ∈
      recalculateBatch 0 (.ordered (onePenalty .pending) [1]) := by decide +kernel
  exact ⟨_, hmem, (oneNotion_iff 0 _ hmem).mpr (by decide), by decide⟩

end Ahjoor.TrustScore
