import Mathlib.Data.Int.Log
import Mathlib.Data.Rat.Floor
import Mathlib.Algebra.Order.Floor.Ring
import Mathlib.Tactic.FieldSimp
import Mathlib.Tactic.Linarith
import Mathlib.Tactic.Positivity
import Mathlib.Tactic.Ring
import Mathlib.Tactic.NormNum
import Mathlib.Tactic.IntervalCases

/-!
# Decimal floating-point arithmetic

Arbitrary-precision decimal numbers as a rational value: a number is read exactly from its
notation, an operation rounds its exact result to `p` significant digits, and `toFixed`
prints a fixed number of decimals. Both roundings go to the nearest value, ties away from
zero (`halfUp`).

The two facts used elsewhere: rounding leaves a value alone when `p` digits suffice for it
(`significant_of_representable`), and printing followed by reading is rounding at the printed
scale (`ofString?_toFixed`).
-/

namespace Decimal

/-! ### Rounding -/

/-- The nearest integer, ties away from zero. -/
def halfUp (q : ℚ) : ℤ := if 0 ≤ q then ⌊q + 1 / 2⌋ else -⌊-q + 1 / 2⌋

theorem halfUp_intCast (z : ℤ) : halfUp z = z := by
  have hfloor : ∀ n : ℤ, ⌊(n : ℚ) + 1 / 2⌋ = n := fun n => by
    rw [Int.floor_eq_iff]
    constructor <;> linarith
  rw [halfUp]
  split_ifs with h
  · exact hfloor z
  · have : -(z : ℚ) = ((-z : ℤ) : ℚ) := by push_cast; ring
    rw [this, hfloor, neg_neg]

theorem halfUp_nonneg {q : ℚ} (hq : 0 ≤ q) : 0 ≤ halfUp q := by
  rw [halfUp, if_pos hq]
  exact Int.floor_nonneg.mpr (by linarith)

theorem halfUp_of_neg {q : ℚ} (hq : q < 0) : halfUp q = -halfUp (-q) := by
  rw [halfUp, if_neg (not_le.mpr hq), halfUp, if_pos (by linarith)]

/-- A value that is not negative rounds to at least `n` when it is at most half below `n`. -/
theorem le_halfUp {q : ℚ} (hq : 0 ≤ q) {n : ℤ} : n ≤ halfUp q ↔ (n : ℚ) - 1 / 2 ≤ q := by
  rw [halfUp, if_pos hq, Int.le_floor, sub_le_iff_le_add]

/-- A value that is not negative rounds to at most `n` when it is less than half above `n`. -/
theorem halfUp_le {q : ℚ} (hq : 0 ≤ q) {n : ℤ} : halfUp q ≤ n ↔ q < (n : ℚ) + 1 / 2 := by
  have hlt := le_halfUp hq (n := n + 1)
  rw [← not_lt, Int.lt_iff_add_one_le, hlt, not_le]
  push_cast
  constructor <;> intro h <;> linarith

theorem halfUp_le_halfUp {a b : ℚ} (hab : a ≤ b) : halfUp a ≤ halfUp b := by
  have hpos : ∀ {a b : ℚ}, 0 ≤ a → a ≤ b → halfUp a ≤ halfUp b := fun {a b} ha hab => by
    rw [halfUp, if_pos ha, halfUp, if_pos (ha.trans hab)]
    exact Int.floor_le_floor (by linarith)
  rcases lt_or_ge a 0 with ha | ha
  · rcases lt_or_ge b 0 with hb | hb
    · rw [halfUp_of_neg ha, halfUp_of_neg hb]
      have := hpos (a := -b) (b := -a) (by linarith) (by linarith)
      omega
    · have hneg := halfUp_nonneg (q := -a) (by linarith)
      have hnonneg := halfUp_nonneg hb
      rw [halfUp_of_neg ha]
      omega
  · exact hpos ha hab

/-- Rounding to `s` decimals (to tens, hundreds, … when `s` is negative). -/
def atScale (s : ℤ) (q : ℚ) : ℚ := halfUp (q * 10 ^ s) / 10 ^ s

theorem atScale_of_eq_intCast {s : ℤ} {q : ℚ} {z : ℤ} (h : q * 10 ^ s = z) :
    atScale s q = q := by
  have h10 : (10 : ℚ) ^ s ≠ 0 := zpow_ne_zero s (by norm_num)
  rw [atScale, h, halfUp_intCast, ← h, mul_div_assoc, div_self h10, mul_one]

theorem atScale_mono (s : ℤ) : Monotone (atScale s) := by
  intro a b hab
  have h10 : (0 : ℚ) < 10 ^ s := zpow_pos (by norm_num) s
  have hround : halfUp (a * 10 ^ s) ≤ halfUp (b * 10 ^ s) :=
    halfUp_le_halfUp (mul_le_mul_of_nonneg_right hab h10.le)
  rw [atScale, atScale]
  gcongr

/-- Rounding to `p` significant digits. -/
def significant (p : ℕ) (q : ℚ) : ℚ :=
  if q = 0 then 0 else atScale (p - 1 - Int.log 10 |q|) q

/-- `p` significant digits suffice for `q`. -/
def Representable (p : ℕ) (q : ℚ) : Prop :=
  ∃ (c : ℤ) (s : ℤ), q * 10 ^ s = c ∧ |c| < 10 ^ p

/-- **No rounding happens when the digits suffice.** -/
theorem significant_of_representable {p : ℕ} {q : ℚ} (h : Representable p q) :
    significant p q = q := by
  obtain ⟨c, s, hc, hlt⟩ := h
  rw [significant]
  split_ifs with hq
  · exact hq.symm
  have hpos : 0 < |q| := abs_pos.mpr hq
  have h10 : (0 : ℚ) < 10 := by norm_num
  have hlog : (10 : ℚ) ^ Int.log 10 |q| ≤ |q| := by
    exact_mod_cast Int.zpow_log_le_self (b := 10) (by norm_num) hpos
  have habs : |q| * 10 ^ s = |(c : ℚ)| := by
    rw [← hc, abs_mul, abs_of_pos (zpow_pos h10 s)]
  -- the digits of `q` end at scale `s`, which the working scale reaches
  have hle : s ≤ p - 1 - Int.log 10 |q| := by
    have hcp : |(c : ℚ)| < 10 ^ (p : ℤ) := by
      rw [zpow_natCast]
      exact_mod_cast hlt
    have hmul : (10 : ℚ) ^ (Int.log 10 |q| + s) < 10 ^ (p : ℤ) := by
      calc (10 : ℚ) ^ (Int.log 10 |q| + s)
          = 10 ^ Int.log 10 |q| * 10 ^ s := zpow_add₀ h10.ne' _ _
        _ ≤ |q| * 10 ^ s := mul_le_mul_of_nonneg_right hlog (zpow_pos h10 s).le
        _ = |(c : ℚ)| := habs
        _ < 10 ^ (p : ℤ) := hcp
    have := (zpow_lt_zpow_iff_right₀ (by norm_num : (1 : ℚ) < 10)).mp hmul
    omega
  obtain ⟨k, hk⟩ := Int.le.dest hle
  refine atScale_of_eq_intCast (z := c * 10 ^ k) ?_
  rw [← hk, zpow_add₀ h10.ne', ← mul_assoc, hc, zpow_natCast]
  push_cast
  ring

/-- `a.plus(b)`. -/
def plus (p : ℕ) (a b : ℚ) : ℚ := significant p (a + b)

/-- `a.times(b)`. -/
def times (p : ℕ) (a b : ℚ) : ℚ := significant p (a * b)

/-- `a.minus(b)`. -/
def minus (p : ℕ) (a b : ℚ) : ℚ := significant p (a - b)

/-- `a.div(b)` for a divisor that is not zero. -/
def div (p : ℕ) (a b : ℚ) : ℚ := significant p (a / b)

/-! ### Digits -/

/-- The last `k` decimal digits of `m`. -/
def fixedDigits : ℕ → ℕ → List Char
  | 0, _ => []
  | k + 1, m => fixedDigits k (m / 10) ++ [Nat.digitChar (m % 10)]

@[simp] theorem length_fixedDigits (k m : ℕ) : (fixedDigits k m).length = k := by
  induction k generalizing m with
  | zero => rfl
  | succ k ih => rw [fixedDigits, List.length_append, ih, List.length_singleton]

theorem fixedDigits_add (a b m : ℕ) :
    fixedDigits (a + b) m = fixedDigits a (m / 10 ^ b) ++ fixedDigits b m := by
  induction b generalizing m with
  | zero => simp [fixedDigits]
  | succ b ih =>
    rw [← Nat.add_assoc, fixedDigits, ih, fixedDigits, List.append_assoc, Nat.div_div_eq_div_mul,
      ← pow_succ']

theorem isDigit_of_mem_fixedDigits {k m : ℕ} {c : Char} (h : c ∈ fixedDigits k m) :
    c.isDigit = true := by
  induction k generalizing m with
  | zero => cases h
  | succ k ih =>
    rcases List.mem_append.mp h with h | h
    · exact ih h
    · obtain rfl := List.mem_singleton.mp h
      have hlt : m % 10 < 10 := Nat.mod_lt _ (by norm_num)
      interval_cases m % 10 <;> decide

/-- The number a list of digits denotes, continuing from `acc`. -/
def digitsVal? (acc : ℕ) : List Char → Option ℕ
  | [] => some acc
  | c :: cs => if c.isDigit then digitsVal? (10 * acc + (c.toNat - '0'.toNat)) cs else none

theorem digitsVal?_append (acc : ℕ) (l l' : List Char) :
    digitsVal? acc (l ++ l') = (digitsVal? acc l).bind fun n => digitsVal? n l' := by
  induction l generalizing acc with
  | nil => rfl
  | cons c cs ih =>
    simp only [List.cons_append, digitsVal?]
    split_ifs
    · exact ih _
    · rfl

theorem digitsVal?_of_isDigit {cs : List Char} (h : ∀ c ∈ cs, c.isDigit = true) (acc : ℕ) :
    digitsVal? acc cs = some (Nat.ofDigitChars 10 cs acc) := by
  induction cs generalizing acc with
  | nil => rfl
  | cons c cs ih =>
    obtain ⟨hc, hcs⟩ := List.forall_mem_cons.mp h
    rw [digitsVal?, if_pos hc, ih hcs, Nat.ofDigitChars_cons]

/-- A natural number is read as it was printed. -/
theorem digitsVal?_toDigits (n : ℕ) : digitsVal? 0 (Nat.toDigits 10 n) = some n := by
  have hdigits : ∀ c ∈ Nat.toDigits 10 n, c.isDigit = true := fun c hc =>
    Nat.isDigit_of_mem_toDigits (by decide) (by decide) hc
  rw [digitsVal?_of_isDigit hdigits, Nat.ofDigitChars_ten_toDigits]

theorem digitsVal?_fixedDigits (k m : ℕ) : digitsVal? 0 (fixedDigits k m) = some (m % 10 ^ k) := by
  induction k generalizing m with
  | zero => simp [fixedDigits, digitsVal?, Nat.mod_one]
  | succ k ih =>
    have hlt : m % 10 < 10 := Nat.mod_lt _ (by norm_num)
    have hdigit : ∀ n, digitsVal? n [Nat.digitChar (m % 10)] = some (10 * n + m % 10) := fun n => by
      interval_cases m % 10 <;> rfl
    rw [fixedDigits, digitsVal?_append, ih, Option.bind_some, hdigit, pow_succ', Nat.mod_mul,
      Nat.add_comm]

/-! ### Printing and reading -/

/-- The digits of `m` with `dp` of them after the point. -/
def pointed (dp m : ℕ) : List Char :=
  fixedDigits (Nat.log 10 (m / 10 ^ dp) + 1) (m / 10 ^ dp) ++ '.' :: fixedDigits dp m

/-- `x.toFixed(dp)` for `dp > 0`; the sign is that of the value before rounding. -/
def toFixed (dp : ℕ) (q : ℚ) : String :=
  String.ofList ((if q < 0 then ['-'] else []) ++ pointed dp (halfUp (|q| * 10 ^ dp)).toNat)

theorem point_mem_toFixed (dp : ℕ) (q : ℚ) : '.' ∈ (toFixed dp q).toList := by
  simp [toFixed, pointed]

/-- The value of an unsigned numeral: digits with at most one point among them. -/
def unsigned? (cs : List Char) : Option ℚ :=
  let ip := cs.takeWhile (· != '.')
  let fp := (cs.dropWhile (· != '.')).drop 1
  if ip = [] ∧ fp = [] then none
  else (digitsVal? 0 (ip ++ fp)).map fun n : ℕ => (n : ℚ) / 10 ^ fp.length

/-- The value of a numeral in plain decimal notation with an optional sign; `none` where the
constructor throws. The other forms that it takes are left out: an exponent, hexadecimal, octal and
binary numerals, `Infinity` and `NaN`. -/
def ofString? (s : String) : Option ℚ :=
  match s.toList with
  | '-' :: cs => (unsigned? cs).map Neg.neg
  | '+' :: cs => unsigned? cs
  | cs => unsigned? cs

theorem unsigned?_pointed (dp m : ℕ) : unsigned? (pointed dp m) = some ((m : ℚ) / 10 ^ dp) := by
  have hne : ∀ c ∈ fixedDigits (Nat.log 10 (m / 10 ^ dp) + 1) (m / 10 ^ dp), (c != '.') = true := by
    intro c hc
    have := isDigit_of_mem_fixedDigits hc
    by_contra hdot
    rw [show c = '.' by simpa using hdot] at this
    exact absurd this (by decide)
  have htake : (pointed dp m).takeWhile (· != '.') =
      fixedDigits (Nat.log 10 (m / 10 ^ dp) + 1) (m / 10 ^ dp) := by
    rw [pointed, List.takeWhile_append_of_pos hne]
    simp
  have hdrop : ((pointed dp m).dropWhile (· != '.')).drop 1 = fixedDigits dp m := by
    rw [pointed, List.dropWhile_append_of_pos hne]
    simp
  have hlt : m < 10 ^ (Nat.log 10 (m / 10 ^ dp) + 1 + dp) := by
    have h := Nat.lt_pow_succ_log_self (b := 10) (by norm_num) (m / 10 ^ dp)
    rw [pow_add]
    exact (Nat.div_lt_iff_lt_mul (by positivity)).mp h
  rw [unsigned?]
  simp only [htake, hdrop, ← fixedDigits_add, digitsVal?_fixedDigits, Nat.mod_eq_of_lt hlt,
    length_fixedDigits, Option.map_some]
  rw [if_neg]
  rintro ⟨h, -⟩
  simpa using congrArg List.length h

/-- **Printing and reading back is rounding** to the printed number of decimals. -/
theorem ofString?_toFixed (dp : ℕ) (q : ℚ) :
    ofString? (toFixed dp q) = some (atScale dp q) := by
  have h10 : (0 : ℚ) < 10 ^ dp := by positivity
  have hm : ((halfUp (|q| * 10 ^ dp)).toNat : ℚ) = halfUp (|q| * 10 ^ dp) := by
    have h0 : 0 ≤ halfUp (|q| * 10 ^ dp) := halfUp_nonneg (by positivity)
    exact_mod_cast Int.toNat_of_nonneg h0
  have hread := unsigned?_pointed dp (halfUp (|q| * 10 ^ dp)).toNat
  rw [hm] at hread
  rw [ofString?, toFixed, String.toList_ofList]
  rcases lt_or_ge q 0 with hq | hq
  · rw [if_pos hq]
    simp only [List.singleton_append, hread, Option.map_some, Option.some.injEq]
    have hneg : halfUp (q * 10 ^ dp) = -halfUp (|q| * 10 ^ dp) := by
      rw [halfUp_of_neg (mul_neg_of_neg_of_pos hq h10), abs_of_neg hq, neg_mul]
    rw [atScale, zpow_natCast, hneg, Int.cast_neg, neg_div]
  · rw [if_neg (not_lt.mpr hq), List.nil_append]
    have hsign : ∀ c ∈ (pointed dp (halfUp (|q| * 10 ^ dp)).toNat).head?, c ≠ '-' ∧ c ≠ '+' := by
      intro c hc
      obtain ⟨d, ds, hds⟩ : ∃ d ds, fixedDigits
          (Nat.log 10 ((halfUp (|q| * 10 ^ dp)).toNat / 10 ^ dp) + 1)
          ((halfUp (|q| * 10 ^ dp)).toNat / 10 ^ dp) = d :: ds :=
        List.exists_cons_of_length_eq_add_one (length_fixedDigits _ _)
      have hd := isDigit_of_mem_fixedDigits (hds ▸ List.mem_cons_self)
      rw [pointed, hds] at hc
      obtain rfl : d = c := by simpa using hc
      constructor <;> rintro rfl <;> exact absurd hd (by decide)
    split
    next cs hcs => exact absurd rfl (hsign '-' (by rw [hcs]; rfl)).1
    next cs hcs => exact absurd rfl (hsign '+' (by rw [hcs]; rfl)).2
    next =>
      rw [hread, atScale, abs_of_nonneg hq, zpow_natCast]

end Decimal
