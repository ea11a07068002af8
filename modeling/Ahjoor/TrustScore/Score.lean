import Ahjoor.TrustScore.TrustScoreService

/-!
# Bounds and monotonicity of the trust score

The score is a sum of three parts, each of which depends on the components in one direction only:
the ratio of the contributions on time, the deduction for outstanding penalties, and the bonus for
completed groups. Rounding and clamping keep the order, so the score inherits it.
-/

namespace Ahjoor.TrustScore

open Decimal

/-! ### What is claimed -/

/-- **The score is bounded, grows and shrinks with its components as it should, and depends on the
penalties through the outstanding ones only.** -/
structure ScoreLaws : Prop where
  bounded : ∀ c, computeTrustScore c ∈ Set.Icc (0 : ℚ) 100
  onTime : ∀ c : TrustScoreComponents,
    Monotone fun n => computeTrustScore { c with onTimeContributions := n }
  late : ∀ c : TrustScoreComponents,
    Antitone fun n => computeTrustScore { c with lateContributions := n }
  missed : ∀ c : TrustScoreComponents,
    Antitone fun n => computeTrustScore { c with missedContributions := n }
  incurred : ∀ c : TrustScoreComponents,
    Antitone fun n => computeTrustScore { c with penaltiesIncurred := n }
  paid : ∀ c : TrustScoreComponents,
    Monotone fun n => computeTrustScore { c with penaltiesPaid := n }
  completed : ∀ c : TrustScoreComponents,
    Monotone fun n => computeTrustScore { c with groupsCompletedSuccessfully := n }
  outstanding : ∀ (c : TrustScoreComponents) (incurred paid : ℕ),
    c.penaltiesIncurred - c.penaltiesPaid = incurred - paid →
    computeTrustScore { c with penaltiesIncurred := incurred, penaltiesPaid := paid } =
      computeTrustScore c

/-! ### The three parts -/

section Parts

variable {c c' : TrustScoreComponents}

/-- A ratio of contributions on time is smaller when it has fewer of them and more of the others. -/
theorem ratio_le {o o' k k' : ℕ} (ho : o ≤ o') (hk : k' ≤ k) (hpos : 0 < o + k) :
    (o : ℚ) / (o + k : ℕ) ≤ (o' : ℚ) / (o' + k' : ℕ) := by
  rcases Nat.eq_zero_or_pos (o' + k') with hzero | hpos'
  · obtain rfl : o = 0 := by omega
    obtain rfl : o' = 0 := by omega
    simp
  have h : (0 : ℚ) < (o + k : ℕ) := by exact_mod_cast hpos
  have h' : (0 : ℚ) < (o' + k' : ℕ) := by exact_mod_cast hpos'
  rw [div_le_div_iff₀ h h']
  have hcross : o * k' ≤ o' * k := Nat.mul_le_mul ho hk
  have hnat : o * (o' + k') ≤ o' * (o + k) := by
    rw [Nat.mul_add, Nat.mul_add, Nat.mul_comm o' o]
    omega
  exact_mod_cast hnat

theorem base_mono (hon : c.onTimeContributions ≤ c'.onTimeContributions)
    (hoff : c'.lateContributions + c'.missedContributions ≤
      c.lateContributions + c.missedContributions) : base c ≤ base c' := by
  unfold base
  dsimp only
  rw [Nat.add_assoc, Nat.add_assoc]
  split
  next hpos =>
    have hratio := ratio_le hon hoff hpos
    split
    next => exact mul_le_mul_of_nonneg_right hratio (by norm_num [ON_TIME_WEIGHT])
    next hzero =>
      -- without contributions there are none on time
      have honTime : c.onTimeContributions = 0 := by omega
      rw [honTime, Nat.cast_zero, zero_div, zero_mul]
  next =>
    split
    · exact mul_nonneg (by positivity) (by norm_num [ON_TIME_WEIGHT])
    · exact le_rfl

theorem outstandingPenalties_mono (hincurred : c.penaltiesIncurred ≤ c'.penaltiesIncurred)
    (hpaid : c'.penaltiesPaid ≤ c.penaltiesPaid) :
    outstandingPenalties c ≤ outstandingPenalties c' := by
  unfold outstandingPenalties
  omega

theorem completionBonus_mono
    (h : c.groupsCompletedSuccessfully ≤ c'.groupsCompletedSuccessfully) :
    completionBonus c ≤ completionBonus c' := by
  have hcast : (c.groupsCompletedSuccessfully : ℚ) ≤ c'.groupsCompletedSuccessfully := by
    exact_mod_cast h
  exact min_le_min_right _
    (mul_le_mul_of_nonneg_right hcast (by norm_num [COMPLETION_BONUS_PER_GROUP]))

end Parts

/-! ### The score -/

/-- **The score follows its parts.** -/
theorem computeTrustScore_mono {c c' : TrustScoreComponents} (hbase : base c ≤ base c')
    (hpenalties : outstandingPenalties c' ≤ outstandingPenalties c)
    (hbonus : completionBonus c ≤ completionBonus c') :
    computeTrustScore c ≤ computeTrustScore c' := by
  have hcast : (outstandingPenalties c' : ℚ) ≤ outstandingPenalties c := by
    exact_mod_cast hpenalties
  have hadj : (outstandingPenalties c' : ℚ) * PENALTY_DEDUCTION ≤
      outstandingPenalties c * PENALTY_DEDUCTION :=
    mul_le_mul_of_nonneg_right hcast (by norm_num [PENALTY_DEDUCTION])
  refine min_le_min_left _ (max_le_max_left _ (atScale_mono 2 ?_))
  linarith

theorem computeTrustScore_mem (c : TrustScoreComponents) :
    computeTrustScore c ∈ Set.Icc (0 : ℚ) 100 := by
  constructor
  · exact le_min (by norm_num [SCORE_MAX]) (le_max_left _ _)
  · exact min_le_left _ _

/-- **The laws of the trust score.** -/
theorem scoreLaws : ScoreLaws where
  bounded := computeTrustScore_mem
  onTime c n n' h := computeTrustScore_mono (base_mono h le_rfl) le_rfl le_rfl
  late c n n' h :=
    computeTrustScore_mono (base_mono le_rfl (Nat.add_le_add_right h _)) le_rfl le_rfl
  missed c n n' h :=
    computeTrustScore_mono (base_mono le_rfl (Nat.add_le_add_left h _)) le_rfl le_rfl
  incurred c n n' h :=
    computeTrustScore_mono le_rfl (outstandingPenalties_mono h le_rfl) le_rfl
  paid c n n' h := computeTrustScore_mono le_rfl (outstandingPenalties_mono le_rfl h) le_rfl
  completed c n n' h := computeTrustScore_mono le_rfl le_rfl (completionBonus_mono h)
  outstanding c incurred paid h := by
    have hpenalties : outstandingPenalties
        { c with penaltiesIncurred := incurred, penaltiesPaid := paid } =
          outstandingPenalties c := by
      unfold outstandingPenalties
      dsimp only
      omega
    exact le_antisymm (computeTrustScore_mono le_rfl hpenalties.ge le_rfl)
      (computeTrustScore_mono le_rfl hpenalties.le le_rfl)

/-- Half of the contributions on time, one penalty left and one completed group. -/
example : computeTrustScore
    { onTimeContributions := 2
      missedContributions := 2
      penaltiesIncurred := 3
      penaltiesPaid := 2
      groupsCompletedSuccessfully := 1 } = 29 := by
  decide +kernel

end Ahjoor.TrustScore
