import Ahjoor.Double.Rounding
import Mathlib.Tactic.NormNum

/-!
# The digits of a double

ECMAScript prints a double with as few decimal digits as tell it from the other doubles: with the
digits of an integer `s` that has `k` of them, and an exponent `n`, such that `s * 10 ^ (n - k)` is
**rounded to the double**, `k` is as small as possible, and `s` is the closest one. The search over the
number of digits ends, because a double has finitely many of them (`exists_shortest`).
-/

namespace Double

/-! ### Digits -/

/-- `k` digits and an exponent, as in `Number::toString`. -/
structure Digits where
  s : ℕ
  k : ℕ
  n : ℤ
  isPos : 0 < k
  lower : 10 ^ (k - 1) ≤ s
  upper : s < 10 ^ k

namespace Digits

variable (d : Digits)

/-- The number that is written. -/
def value : ℚ := d.s * 10 ^ (d.n - d.k)

/-- The digits as characters. -/
def chars : List Char := Nat.toDigits 10 d.s

theorem length_chars : d.chars.length = d.k := by
  have hle : d.chars.length ≤ d.k := (Nat.length_toDigits_le_iff (by decide) d.isPos).mpr d.upper
  refine hle.antisymm ?_
  rcases Nat.eq_zero_or_pos (d.k - 1) with hone | hmore
  · have hpos : 0 < d.chars.length := Nat.length_toDigits_pos
    omega
  · have hlt : ¬ d.chars.length ≤ d.k - 1 := fun h =>
      absurd ((Nat.length_toDigits_le_iff (by decide) hmore).mp h) (not_lt.mpr d.lower)
    omega

/-- The digits, if there are as many as stated. -/
def of? (s k : ℕ) (n : ℤ) : Option Digits :=
  if h : 0 < k ∧ 10 ^ (k - 1) ≤ s ∧ s < 10 ^ k then some ⟨s, k, n, h.1, h.2.1, h.2.2⟩ else none

/-- An exponent, with its sign. -/
def exponentText (e : ℤ) : List Char :=
  'e' :: (if e < 0 then '-' else '+') :: Nat.toDigits 10 e.natAbs

/-- The text of a positive number, by `Number::toString`. -/
def text : List Char :=
  if d.k ≤ d.n ∧ d.n ≤ 21 then d.chars ++ List.replicate (d.n - d.k).toNat '0'
  else if 0 < d.n ∧ d.n ≤ 21 then d.chars.take d.n.toNat ++ '.' :: d.chars.drop d.n.toNat
  else if -6 < d.n ∧ d.n ≤ 0 then ['0'] ++ '.' :: (List.replicate (-d.n).toNat '0' ++ d.chars)
  else if d.k = 1 then d.chars ++ exponentText (d.n - 1)
  else d.chars.take 1 ++ '.' :: (d.chars.drop 1 ++ exponentText (d.n - 1))

end Digits

/-! ### The search -/

/-- The exponent of a positive number: how many digits it has before the point. -/
def place (x : ℚ) : ℤ := Int.log 10 x + 1

/-- The number with the digits of `s`, if it is rounded to `x`. A one may be carried over. -/
def candidate (x : ℚ) (k : ℕ) (s : ℤ) : Option Digits :=
  (if s = 10 ^ k then Digits.of? (10 ^ (k - 1)) k (place x + 1)
    else Digits.of? s.toNat k (place x)).filter fun d => nearest d.value = x

/-- The closest number of `k` digits, of those that are rounded to `x`. -/
def ofLength? (x : ℚ) (k : ℕ) : Option Digits :=
  let t := x / 10 ^ (place x - k)
  [roundEven t, ⌊t⌋, ⌈t⌉].findSome? (candidate x k)

/-- How many digits a double may have. -/
def maxLength (x : ℚ) : ℕ := (place x + 1074).toNat

/-- **The fewest digits** that are rounded to `x`. -/
def shortest? (x : ℚ) : Option Digits :=
  (List.range (maxLength x)).findSome? fun k => ofLength? x (k + 1)

/-- `String(x)` of a positive double. -/
def magnitudeText (x : ℚ) : List Char := ((shortest? x).map Digits.text).getD []

/-- **`String(x)`** of a finite double. -/
def text (x : ℚ) : List Char :=
  if x = 0 then ['0'] else if x < 0 then '-' :: magnitudeText (-x) else magnitudeText x

section Search

variable {x : ℚ} {d : Digits} {k : ℕ} {s : ℤ}

theorem nearest_of_candidate (h : candidate x k s = some d) : nearest d.value = x :=
  of_decide_eq_true (Option.filter_eq_some_iff.mp h).2

/-- **The digits are rounded back** to the double. -/
theorem nearest_of_shortest? (h : shortest? x = some d) : nearest d.value = x := by
  obtain ⟨k, -, hlength⟩ := List.exists_of_findSome?_eq_some h
  obtain ⟨s, -, hcandidate⟩ := List.exists_of_findSome?_eq_some hlength
  exact nearest_of_candidate hcandidate

theorem zpow_place_le (hx : 0 < x) : (10 : ℚ) ^ (place x - 1) ≤ x := by
  have hle : ((10 : ℕ) : ℚ) ^ Int.log 10 x ≤ x := Int.zpow_log_le_self (by decide) hx
  rw [place, add_sub_cancel_right]
  exact_mod_cast hle

theorem lt_zpow_place (x : ℚ) : x < (10 : ℚ) ^ place x := by
  have hlt : x < ((10 : ℕ) : ℚ) ^ (Int.log 10 x + 1) := Int.lt_zpow_succ_log_self (by decide) x
  rw [place]
  exact_mod_cast hlt

/-- A positive double is a multiple of the least one. -/
theorem exists_multiple (hx : 0 < x) (h : IsDouble x) :
    ∃ m : ℕ, 0 < m ∧ x = m * 2 ^ (-1074 : ℤ) := by
  obtain ⟨m, e, -, he, rfl⟩ := h
  have hm : 0 < m := by
    by_contra hneg
    have hle : (m : ℚ) ≤ 0 := Int.cast_nonpos.mpr (not_lt.mp hneg)
    exact absurd hx (not_lt.mpr (mul_nonpos_of_nonpos_of_nonneg hle (zpow_pos two_pos e).le))
  obtain ⟨i, hi⟩ := Int.eq_ofNat_of_zero_le (by omega : 0 ≤ e + 1074)
  have hexponent : e = i + -1074 := by omega
  have hcast : ((m.toNat : ℕ) : ℚ) = m := by exact_mod_cast Int.toNat_of_nonneg hm.le
  refine ⟨m.toNat * 2 ^ i, Nat.mul_pos (by omega) (Nat.two_pow_pos i), ?_⟩
  rw [hexponent, zpow_add₀ two_ne_zero, zpow_natCast, Nat.cast_mul, hcast, Nat.cast_pow,
    Nat.cast_ofNat, mul_assoc]

/-- The least power of two is more than the same power of ten. -/
theorem neg_le_log (hx : 0 < x) (h : IsDouble x) : -1074 ≤ Int.log 10 x := by
  obtain ⟨m, hm, rfl⟩ := exists_multiple hx h
  refine (Int.zpow_le_iff_le_log (by decide) hx).mp ?_
  have hten : ((10 : ℕ) : ℚ) ^ (-1074 : ℤ) ≤ 2 ^ (-1074 : ℤ) := by
    rw [zpow_neg, zpow_neg]
    refine inv_anti₀ (zpow_pos two_pos _) ?_
    exact zpow_le_zpow_left₀ (by decide) (by norm_num) (by norm_num)
  have hone : (1 : ℚ) ≤ m := by exact_mod_cast hm
  exact hten.trans (le_mul_of_one_le_left (zpow_pos two_pos _).le hone)

/-- The decimal digits of the least double. -/
theorem two_zpow_eq : (2 : ℚ) ^ (-1074 : ℤ) = 5 ^ 1074 * 10 ^ (-1074 : ℤ) := by
  have hten : (10 : ℚ) ^ (-1074 : ℤ) = 5 ^ (-1074 : ℤ) * 2 ^ (-1074 : ℤ) := by
    rw [← mul_zpow]
    norm_num
  have hfive : (5 : ℚ) ^ (1074 : ℕ) * 5 ^ (-1074 : ℤ) = 1 := by
    rw [← zpow_natCast, ← zpow_add₀ (by norm_num)]
    rfl
  rw [hten, ← mul_assoc, hfive, one_mul]

/-- A double has no digits beyond this length. -/
theorem exists_integer (hx : 0 < x) (h : IsDouble x) :
    ∃ m : ℕ, x = m * 10 ^ (place x - maxLength x) ∧ 0 < maxLength x := by
  have hlog := neg_le_log hx h
  have hlength : place x - maxLength x = -1074 ∧ 0 < maxLength x := by
    unfold maxLength place
    omega
  obtain ⟨m, -, hm⟩ := exists_multiple hx h
  refine ⟨m * 5 ^ 1074, ?_, hlength.2⟩
  rw [hlength.1, Nat.cast_mul, Nat.cast_pow, Nat.cast_ofNat, mul_assoc, ← two_zpow_eq]
  exact hm

/-- A number of `k` digits is found among those of that length. -/
theorem ofLength?_isSome {m : ℕ} (hx : 0 < x) (h : IsDouble x) (hk : 0 < k)
    (hm : x = m * 10 ^ (place x - k)) : (ofLength? x k).isSome := by
  have hpow : (0 : ℚ) < 10 ^ (place x - k) := zpow_pos (by norm_num) _
  have ht : x / 10 ^ (place x - k) = m := (div_eq_iff hpow.ne').mpr hm
  have hupper : m < 10 ^ k := by
    have hlt := lt_zpow_place x
    rw [hm, ← lt_div_iff₀ hpow, ← hm, ← zpow_sub₀ (by norm_num), sub_sub_cancel, zpow_natCast] at hlt
    exact_mod_cast hlt
  have hlower : 10 ^ (k - 1) ≤ m := by
    have hle := zpow_place_le hx
    rw [hm, ← div_le_iff₀ hpow, ← hm, ← zpow_sub₀ (by norm_num)] at hle
    have hexponent : place x - 1 - (place x - k) = ((k - 1 : ℕ) : ℤ) := by omega
    rw [hexponent, zpow_natCast] at hle
    exact_mod_cast hle
  have hround : roundEven (m : ℚ) = m := by exact_mod_cast roundEven_intCast m
  have hne : ((m : ℕ) : ℤ) ≠ 10 ^ k := by
    intro heq
    have hcast : m = 10 ^ k := by exact_mod_cast heq
    omega
  have hfound : candidate x k (m : ℤ) = some ⟨m, k, place x, hk, hlower, hupper⟩ := by
    rw [candidate, if_neg hne, Digits.of?, Int.toNat_natCast, dif_pos ⟨hk, hlower, hupper⟩]
    refine Option.filter_eq_some_iff.mpr ⟨rfl, decide_eq_true ?_⟩
    rw [Digits.value, ← hm, nearest_of_isDouble h]
  rw [ofLength?, ht, hround]
  simp only [List.findSome?_cons, hfound, Option.isSome_some]

/-- **Every positive double has digits.** -/
theorem exists_shortest (hx : 0 < x) (h : IsDouble x) : ∃ d, shortest? x = some d := by
  obtain ⟨m, hm, hlength⟩ := exists_integer hx h
  have hsome := ofLength?_isSome hx h hlength hm
  refine Option.isSome_iff_exists.mp (List.findSome?_isSome_iff.mpr ⟨maxLength x - 1, ?_, ?_⟩)
  · exact List.mem_range.mpr (by omega)
  · rwa [Nat.sub_add_cancel hlength]

end Search

end Double
