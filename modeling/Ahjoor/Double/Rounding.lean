import Mathlib.Data.Int.Log
import Mathlib.Data.Rat.Floor
import Mathlib.Tactic.Linarith
import Mathlib.Tactic.Positivity

/-!
# Rounding to doubles

The binary64 numbers, as rationals, and rounding to the **nearest** of them, to the one with the even
significand of two. A double is an integer of at most 53 bits times a power of two that is not below
`2 ^ (-1074)`; among two such powers the rounding takes the one that leaves 53 bits.

There is no largest double here: a magnitude of `overflow` or more stands for an infinity. Zero has no
sign.
-/

namespace Double

/-! ### Rounding to integers -/

/-- The integer nearest to `x`, and the even one of two. -/
def roundEven (x : ℚ) : ℤ :=
  if x - ⌊x⌋ < 1 / 2 then ⌊x⌋
  else if 1 / 2 < x - ⌊x⌋ then ⌊x⌋ + 1
  else if ⌊x⌋ % 2 = 0 then ⌊x⌋ else ⌊x⌋ + 1

section Integers

variable {x y : ℚ} {n : ℤ}

@[simp]
theorem roundEven_intCast (n : ℤ) : roundEven n = n := by
  simp [roundEven]

theorem floor_le_roundEven (x : ℚ) : ⌊x⌋ ≤ roundEven x := by
  rw [roundEven]
  split_ifs <;> omega

theorem roundEven_le_floor_add_one (x : ℚ) : roundEven x ≤ ⌊x⌋ + 1 := by
  rw [roundEven]
  split_ifs <;> omega

/-- An integer that is not above `x` is not above what `x` is rounded to. -/
theorem le_roundEven (h : n ≤ x) : n ≤ roundEven x :=
  (Int.le_floor.mpr h).trans (floor_le_roundEven x)

theorem roundEven_mono (h : x ≤ y) : roundEven x ≤ roundEven y := by
  rcases (Int.floor_mono h).lt_or_eq with hlt | heq
  · exact (roundEven_le_floor_add_one x).trans ((Int.add_one_le_of_lt hlt).trans (floor_le_roundEven y))
  · rw [roundEven, roundEven, heq]
    -- the fractions are in the same order
    split_ifs <;> first | omega | (exfalso; linarith)

/-- An integer that is not below `x` is not below what `x` is rounded to. -/
theorem roundEven_le (h : x ≤ n) : roundEven x ≤ n :=
  (roundEven_mono h).trans_eq (roundEven_intCast n)

end Integers

/-! ### Doubles -/

/-- A double: an integer of at most 53 bits, times a power of two that is not too small. -/
def IsDouble (x : ℚ) : Prop :=
  ∃ m e : ℤ, |m| ≤ 2 ^ 53 ∧ -1074 ≤ e ∧ x = m * 2 ^ e

/-- The least magnitude that is too large. -/
@[irreducible]
def overflow : ℚ := 2 ^ 1024

/-- The exponent of the last bit that a double of this magnitude has. -/
def exponent (x : ℚ) : ℤ := max (Int.log 2 x - 52) (-1074)

/-- The last bit that a double of this magnitude has. -/
def quantum (x : ℚ) : ℚ := 2 ^ exponent x

/-- The rounding of a magnitude. -/
def magnitude (x : ℚ) : ℚ := roundEven (x / quantum x) * quantum x

/-- **The nearest double.** -/
def nearest (x : ℚ) : ℚ := if x < 0 then -magnitude (-x) else magnitude x

section Doubles

variable {x y : ℚ}

theorem quantum_pos (x : ℚ) : 0 < quantum x := zpow_pos two_pos _

theorem IsDouble.neg (h : IsDouble x) : IsDouble (-x) := by
  obtain ⟨m, e, hm, he, rfl⟩ := h
  exact ⟨-m, e, by rwa [abs_neg], he, by push_cast; ring⟩

/-- **Small integers** are doubles. -/
theorem isDouble_intCast {n : ℤ} (h : |n| ≤ 2 ^ 53) : IsDouble n :=
  ⟨n, 0, h, by decide, by simp⟩

/-- A magnitude is less than `2 ^ 53` times its last bit. -/
theorem lt_quantum_mul (x : ℚ) : x < 2 ^ 53 * quantum x := by
  have hlog : x < (2 : ℕ) ^ (Int.log 2 x + 1) := Int.lt_zpow_succ_log_self one_lt_two x
  refine hlog.trans_le ?_
  rw [quantum, ← zpow_natCast, ← zpow_add₀ two_ne_zero]
  refine zpow_le_zpow_right₀ one_le_two ?_
  have hexponent : Int.log 2 x - 52 ≤ exponent x := le_max_left _ _
  push_cast
  omega

/-- The last bit of a double is not above its exponent. -/
theorem exponent_le {m e : ℤ} (hm : 0 < m) (hlt : m < 2 ^ 53) (he : -1074 ≤ e) :
    exponent (m * 2 ^ e) ≤ e := by
  have hpos : (0 : ℚ) < m * 2 ^ e := mul_pos (Int.cast_pos.mpr hm) (zpow_pos two_pos e)
  have hbound : (m * 2 ^ e : ℚ) < (2 : ℕ) ^ (53 + e) := by
    push_cast
    rw [zpow_add₀ two_ne_zero]
    exact mul_lt_mul_of_pos_right (by exact_mod_cast hlt) (zpow_pos two_pos e)
  have hlog := (Int.lt_zpow_iff_log_lt one_lt_two hpos).mp hbound
  exact max_le (by omega) he

/-- A multiple of the last bit is its own rounding. -/
theorem magnitude_of_multiple {k : ℤ} (h : x = k * quantum x) : magnitude x = x := by
  have hdiv : x / quantum x = k := (div_eq_iff (quantum_pos x).ne').mpr h
  rw [magnitude, hdiv, roundEven_intCast, ← h]

theorem magnitude_of_exponent_le {m e : ℤ} (h : exponent (m * 2 ^ e) ≤ e) :
    magnitude (m * 2 ^ e) = m * 2 ^ e := by
  obtain ⟨j, hj⟩ := Int.eq_ofNat_of_zero_le (sub_nonneg.mpr h)
  refine magnitude_of_multiple (k := m * 2 ^ j) ?_
  have hsplit : e = j + exponent (m * 2 ^ e) := by omega
  have hpow : (2 : ℚ) ^ e = 2 ^ j * quantum (m * 2 ^ e) := by
    rw [quantum, ← zpow_natCast, ← zpow_add₀ two_ne_zero, ← hsplit]
  push_cast
  rw [mul_assoc, ← hpow]

theorem magnitude_zero : magnitude 0 = 0 := magnitude_of_multiple (k := 0) (by simp)

/-- **A double is its own rounding.** -/
theorem magnitude_of_isDouble (h : IsDouble x) (hx : 0 ≤ x) : magnitude x = x := by
  obtain ⟨m, e, hm, he, rfl⟩ := h
  have hpow : (0 : ℚ) < 2 ^ e := zpow_pos two_pos e
  have hnonneg : 0 ≤ m := by
    by_contra hneg
    have hlt : (m : ℚ) < 0 := Int.cast_lt_zero.mpr (not_le.mp hneg)
    exact absurd hx (not_le.mpr (mul_neg_of_neg_of_pos hlt hpow))
  rw [abs_of_nonneg hnonneg] at hm
  rcases hnonneg.eq_or_lt with rfl | hpos
  · rw [Int.cast_zero, zero_mul]
    exact magnitude_zero
  · rcases hm.lt_or_eq with hlt | rfl
    · exact magnitude_of_exponent_le (exponent_le hpos hlt he)
    · -- a power of two has fewer bits and a larger exponent
      have hshift : ((2 ^ 53 : ℤ) * 2 ^ e : ℚ) = (2 ^ 52 : ℤ) * 2 ^ (e + 1) := by
        rw [zpow_add_one₀ two_ne_zero]
        push_cast
        ring
      rw [hshift]
      exact magnitude_of_exponent_le (exponent_le (by norm_num) (by norm_num) (by omega))

theorem magnitude_nonneg (hx : 0 ≤ x) : 0 ≤ magnitude x := by
  have hquot : ((0 : ℤ) : ℚ) ≤ x / quantum x := by
    rw [Int.cast_zero]
    exact div_nonneg hx (quantum_pos x).le
  exact mul_nonneg (Int.cast_nonneg (le_roundEven hquot)) (quantum_pos x).le

/-- **A rounding is a double.** -/
theorem isDouble_magnitude (hx : 0 ≤ x) : IsDouble (magnitude x) := by
  have hlow : 0 ≤ roundEven (x / quantum x) := le_roundEven (by
    rw [Int.cast_zero]
    exact div_nonneg hx (quantum_pos x).le)
  have hhigh : roundEven (x / quantum x) ≤ 2 ^ 53 := roundEven_le (by
    push_cast
    exact (div_le_iff₀ (quantum_pos x)).mpr (lt_quantum_mul x).le)
  exact ⟨_, exponent x, by rwa [abs_of_nonneg hlow], le_max_right _ _, rfl⟩

/-- A power of two is a multiple of a smaller last bit. -/
theorem exists_quantum_mul {e : ℤ} (h : exponent x ≤ e) :
    ∃ k : ℤ, (2 : ℚ) ^ e = k * quantum x := by
  obtain ⟨i, hi⟩ := Int.eq_ofNat_of_zero_le (sub_nonneg.mpr h)
  refine ⟨2 ^ i, ?_⟩
  have hsplit : e = i + exponent x := by omega
  rw [quantum]
  push_cast
  rw [← zpow_natCast, ← zpow_add₀ two_ne_zero, ← hsplit]

/-- The rounding of a magnitude does not go up past a power of two. -/
theorem magnitude_le_zpow {e : ℤ} (he : exponent x ≤ e) (h : x ≤ 2 ^ e) : magnitude x ≤ 2 ^ e := by
  obtain ⟨k, hk⟩ := exists_quantum_mul he
  rw [hk] at h ⊢
  rw [magnitude]
  have hround : roundEven (x / quantum x) ≤ k :=
    roundEven_le ((div_le_iff₀ (quantum_pos x)).mpr h)
  exact mul_le_mul_of_nonneg_right (Int.cast_le.mpr hround) (quantum_pos x).le

/-- The rounding of a magnitude does not go down past a power of two. -/
theorem zpow_le_magnitude {e : ℤ} (he : exponent x ≤ e) (h : 2 ^ e ≤ x) : 2 ^ e ≤ magnitude x := by
  obtain ⟨k, hk⟩ := exists_quantum_mul he
  rw [hk] at h ⊢
  rw [magnitude]
  have hround : k ≤ roundEven (x / quantum x) :=
    le_roundEven ((le_div_iff₀ (quantum_pos x)).mpr h)
  exact mul_le_mul_of_nonneg_right (Int.cast_le.mpr hround) (quantum_pos x).le

/-- Between magnitudes of different exponents there is a power of two. -/
theorem magnitude_mono (hx : 0 ≤ x) (h : x ≤ y) : magnitude x ≤ magnitude y := by
  rcases hx.eq_or_lt with rfl | hpos
  · rw [magnitude_zero]
    exact magnitude_nonneg h
  have hlog : Int.log 2 x ≤ Int.log 2 y := Int.log_mono_right hpos h
  rcases eq_or_ne (exponent x) (exponent y) with heq | hne
  · have hquantum : quantum x = quantum y := by rw [quantum, quantum, heq]
    rw [magnitude, magnitude, hquantum]
    refine mul_le_mul_of_nonneg_right (Int.cast_le.mpr (roundEven_mono ?_)) (quantum_pos y).le
    exact div_le_div_of_nonneg_right h (quantum_pos y).le
  · have hexponents : exponent x ≤ Int.log 2 y ∧ exponent y ≤ Int.log 2 y ∧
        Int.log 2 x < Int.log 2 y := by
      unfold exponent at hne ⊢
      omega
    have hbelow : x < (2 : ℕ) ^ Int.log 2 y :=
      (Int.lt_zpow_iff_log_lt one_lt_two hpos).mpr hexponents.2.2
    have habove : ((2 : ℕ) : ℚ) ^ Int.log 2 y ≤ y := Int.zpow_log_le_self one_lt_two (hpos.trans_le h)
    exact (magnitude_le_zpow hexponents.1 (by exact_mod_cast hbelow.le)).trans
      (zpow_le_magnitude hexponents.2.1 (by exact_mod_cast habove))

/-! ### The nearest double -/

theorem nearest_of_nonneg (hx : 0 ≤ x) : nearest x = magnitude x := if_neg (not_lt.mpr hx)

theorem nearest_of_neg (hx : x < 0) : nearest x = -magnitude (-x) := if_pos hx

@[simp]
theorem nearest_neg (x : ℚ) : nearest (-x) = -nearest x := by
  rcases lt_trichotomy x 0 with hneg | rfl | hpos
  · rw [nearest_of_neg hneg, nearest_of_nonneg (neg_nonneg.mpr hneg.le), neg_neg]
  · rw [neg_zero, nearest_of_nonneg le_rfl, magnitude_zero, neg_zero]
  · rw [nearest_of_nonneg hpos.le, nearest_of_neg (neg_neg_of_pos hpos), neg_neg]

/-- **A double is its own nearest one.** -/
theorem nearest_of_isDouble (h : IsDouble x) : nearest x = x := by
  rcases lt_or_ge x 0 with hneg | hnonneg
  · rw [nearest_of_neg hneg, magnitude_of_isDouble h.neg (neg_nonneg.mpr hneg.le), neg_neg]
  · rw [nearest_of_nonneg hnonneg, magnitude_of_isDouble h hnonneg]

@[simp]
theorem nearest_intCast {n : ℤ} (h : |n| ≤ 2 ^ 53) : nearest n = n :=
  nearest_of_isDouble (isDouble_intCast h)

/-- **The nearest double** is a double. -/
theorem isDouble_nearest (x : ℚ) : IsDouble (nearest x) := by
  rcases lt_or_ge x 0 with hneg | hnonneg
  · rw [nearest_of_neg hneg]
    exact (isDouble_magnitude (neg_nonneg.mpr hneg.le)).neg
  · rw [nearest_of_nonneg hnonneg]
    exact isDouble_magnitude hnonneg

/-- **Rounding is monotone.** -/
theorem nearest_mono : Monotone nearest := by
  intro x y h
  rcases lt_or_ge x 0 with hx | hx <;> rcases lt_or_ge y 0 with hy | hy
  · rw [nearest_of_neg hx, nearest_of_neg hy]
    exact neg_le_neg (magnitude_mono (neg_nonneg.mpr hy.le) (neg_le_neg h))
  · rw [nearest_of_neg hx, nearest_of_nonneg hy]
    exact (neg_nonpos.mpr (magnitude_nonneg (neg_nonneg.mpr hx.le))).trans (magnitude_nonneg hy)
  · exact absurd h (not_le.mpr (hy.trans_le hx))
  · rw [nearest_of_nonneg hx, nearest_of_nonneg hy]
    exact magnitude_mono hx h

end Doubles

end Double
