import Ahjoor.Double.Shortest
import Mathlib.Data.List.TakeWhile

/-!
# JSON numbers

The grammar of numerals, and what JavaScript makes of them. A number is a double: `JSON.parse` takes a
numeral for the **nearest** one, and a double is printed with the fewest digits that are taken for it.
So what has been printed is read back (`Number.read_text`), but a numeral that has been read need not
be printed as it was: `1.0` is `1`, and `9007199254740993` is `9007199254740992`.

A numeral that is too large for a double is taken for an infinity, which is no JSON value; it is not
read here. Zero has no sign: `-0` prints as `0`.
-/

namespace Json

open Double (Digits IsDouble nearest overflow)

/-! ### Numerals -/

/-- The characters of numerals. -/
def isNumberChar (c : Char) : Bool :=
  c.isDigit || c = '-' || c = '+' || c = '.' || c = 'e' || c = 'E'

/-- One digit or more. -/
def isDigits (cs : List Char) : Bool := !cs.isEmpty && cs.all Char.isDigit

/-- Without the sign of an exponent. -/
def dropSign : List Char → List Char
  | '+' :: cs | '-' :: cs => cs
  | cs => cs

/-- What may follow the fraction of a numeral. -/
def isExponent : List Char → Bool
  | [] => true
  | e :: cs => (e = 'e' || e = 'E') && isDigits (dropSign cs)

/-- What may follow the integer part of a numeral. -/
def isFraction : List Char → Bool
  | '.' :: cs => isDigits (cs.takeWhile Char.isDigit) && isExponent (cs.dropWhile Char.isDigit)
  | cs => isExponent cs

/-- The integer part of a numeral: no zero leads. -/
def isInteger (cs : List Char) : Bool := isDigits cs && (cs = ['0'] || cs.head? ≠ some '0')

/-- A numeral without its sign. -/
def isUnsigned (cs : List Char) : Bool :=
  isInteger (cs.takeWhile Char.isDigit) && isFraction (cs.dropWhile Char.isDigit)

/-- The grammar of numerals. -/
def isNumeral : List Char → Bool
  | '-' :: cs => isUnsigned cs
  | cs => isUnsigned cs

section Grammar

theorem isNumberChar_of_isDigit {c : Char} (h : c.isDigit = true) : isNumberChar c = true := by
  simp [isNumberChar, h]

theorem isDigits_iff {cs : List Char} : isDigits cs = true ↔ cs ≠ [] ∧ ∀ c ∈ cs, c.isDigit = true := by
  simp [isDigits]

theorem forall_of_isDigits {cs : List Char} (h : isDigits cs = true) :
    ∀ c ∈ cs, isNumberChar c = true :=
  fun c hc => isNumberChar_of_isDigit ((isDigits_iff.mp h).2 c hc)

theorem forall_of_dropSign {cs : List Char} (h : ∀ c ∈ dropSign cs, isNumberChar c = true) :
    ∀ c ∈ cs, isNumberChar c = true := by
  unfold dropSign at h
  split at h
  · exact List.forall_mem_cons.mpr ⟨rfl, h⟩
  · exact List.forall_mem_cons.mpr ⟨rfl, h⟩
  · exact h

theorem forall_of_isExponent {cs : List Char} (h : isExponent cs = true) :
    ∀ c ∈ cs, isNumberChar c = true := by
  cases cs with
  | nil => simp
  | cons e cs =>
    obtain ⟨he, hdigits⟩ := Bool.and_eq_true_iff.mp h
    refine List.forall_mem_cons.mpr ⟨?_, forall_of_dropSign (forall_of_isDigits hdigits)⟩
    rcases Bool.or_eq_true_iff.mp he with he | he <;> rw [of_decide_eq_true he] <;> rfl

theorem forall_of_split {cs : List Char} (h : isDigits (cs.takeWhile Char.isDigit) = true)
    (hrest : ∀ c ∈ cs.dropWhile Char.isDigit, isNumberChar c = true) :
    ∀ c ∈ cs, isNumberChar c = true := by
  rw [← cs.takeWhile_append_dropWhile (p := Char.isDigit)]
  exact fun c hc => (List.mem_append.mp hc).elim (forall_of_isDigits h c) (hrest c)

theorem forall_of_isFraction {cs : List Char} (h : isFraction cs = true) :
    ∀ c ∈ cs, isNumberChar c = true := by
  unfold isFraction at h
  split at h
  · rw [Bool.and_eq_true] at h
    exact List.forall_mem_cons.mpr ⟨rfl, forall_of_split h.1 (forall_of_isExponent h.2)⟩
  · exact forall_of_isExponent h

theorem forall_of_isUnsigned {cs : List Char} (h : isUnsigned cs = true) :
    ∀ c ∈ cs, isNumberChar c = true := by
  simp only [isUnsigned, isInteger, Bool.and_eq_true] at h
  exact forall_of_split h.1.1 (forall_of_isFraction h.2)

/-- A numeral without its sign begins with a digit. -/
theorem exists_of_isUnsigned {cs : List Char} (h : isUnsigned cs = true) :
    ∃ c rest, cs = c :: rest ∧ c.isDigit = true := by
  simp only [isUnsigned, isInteger, Bool.and_eq_true] at h
  obtain ⟨hne, hdigit⟩ := isDigits_iff.mp h.1.1
  cases cs with
  | nil => exact absurd rfl hne
  | cons c rest =>
    refine ⟨c, rest, rfl, ?_⟩
    by_contra hc
    exact hne (List.takeWhile_cons_of_neg hc)

/-- **The characters of a numeral** are characters of numerals. -/
theorem forall_of_isNumeral {cs : List Char} (h : isNumeral cs = true) :
    ∀ c ∈ cs, isNumberChar c = true := by
  unfold isNumeral at h
  split at h
  · exact List.forall_mem_cons.mpr ⟨rfl, forall_of_isUnsigned h⟩
  · exact forall_of_isUnsigned h

theorem exists_of_isNumeral {cs : List Char} (h : isNumeral cs = true) :
    ∃ c rest, cs = c :: rest ∧ (c.isDigit = true ∨ c = '-') := by
  unfold isNumeral at h
  split at h
  · exact ⟨_, _, rfl, .inr rfl⟩
  · obtain ⟨c, rest, heq, hc⟩ := exists_of_isUnsigned h
    exact ⟨c, rest, heq, .inl hc⟩

end Grammar

/-! ### The value of a numeral -/

/-- The value of some digits. -/
def digitsValue (cs : List Char) : ℕ := Nat.ofDigitChars 10 cs 0

/-- The value of an exponent. -/
def exponentValue : List Char → ℤ
  | [] => 0
  | _ :: '-' :: cs => -digitsValue cs
  | _ :: '+' :: cs => digitsValue cs
  | _ :: cs => digitsValue cs

/-- The value of a numeral without its sign. -/
def unsignedValue (cs : List Char) : ℚ :=
  let whole := cs.takeWhile Char.isDigit
  match cs.dropWhile Char.isDigit with
  | '.' :: rest =>
      let fraction := rest.takeWhile Char.isDigit
      digitsValue (whole ++ fraction) *
        10 ^ (exponentValue (rest.dropWhile Char.isDigit) - fraction.length)
  | rest => digitsValue whole * 10 ^ exponentValue rest

/-- The value of a numeral. -/
def numeralValue : List Char → ℚ
  | '-' :: cs => -unsignedValue cs
  | cs => unsignedValue cs

section Values

variable {cs whole fraction exponent : List Char} {x : ℚ}

/-- A text that is a numeral without sign, and its value. -/
structure Denotes (cs : List Char) (x : ℚ) : Prop where
  isUnsigned : isUnsigned cs = true
  value : unsignedValue cs = x

theorem isDigit_of_isExponent (h : isExponent exponent = true) :
    exponent.takeWhile Char.isDigit = [] ∧ exponent.dropWhile Char.isDigit = exponent := by
  cases exponent with
  | nil => exact ⟨rfl, rfl⟩
  | cons e cs =>
    have he : ¬ e.isDigit = true := by
      obtain ⟨hletter, -⟩ := Bool.and_eq_true_iff.mp h
      rcases Bool.or_eq_true_iff.mp hletter with he | he <;> rw [of_decide_eq_true he] <;> decide
    exact ⟨List.takeWhile_cons_of_neg he, List.dropWhile_cons_of_neg he⟩

theorem ne_point_of_isExponent (h : isExponent exponent = true) (rest : List Char) :
    exponent ≠ '.' :: rest := by
  rintro rfl
  cases h

/-- Digits are split from an exponent. -/
theorem split_exponent (hdigits : ∀ c ∈ whole, c.isDigit = true) (h : isExponent exponent = true) :
    (whole ++ exponent).takeWhile Char.isDigit = whole ∧
      (whole ++ exponent).dropWhile Char.isDigit = exponent := by
  obtain ⟨htake, hdrop⟩ := isDigit_of_isExponent h
  rw [List.takeWhile_append_of_pos hdigits, List.dropWhile_append_of_pos hdigits, htake, hdrop,
    List.append_nil]
  exact ⟨rfl, rfl⟩

/-- Digits are split from a point. -/
theorem split_point (hdigits : ∀ c ∈ whole, c.isDigit = true) (rest : List Char) :
    (whole ++ '.' :: rest).takeWhile Char.isDigit = whole ∧
      (whole ++ '.' :: rest).dropWhile Char.isDigit = '.' :: rest := by
  rw [List.takeWhile_append_of_pos hdigits, List.dropWhile_append_of_pos hdigits]
  exact ⟨List.append_nil whole, rfl⟩

theorem forall_of_isInteger (h : isInteger whole = true) : ∀ c ∈ whole, c.isDigit = true :=
  (isDigits_iff.mp (Bool.and_eq_true_iff.mp h).1).2

/-- **An integer**, with an exponent. -/
theorem denotes_whole (hwhole : isInteger whole = true) (hexponent : isExponent exponent = true) :
    Denotes (whole ++ exponent) (digitsValue whole * 10 ^ exponentValue exponent) := by
  obtain ⟨htake, hdrop⟩ := split_exponent (forall_of_isInteger hwhole) hexponent
  have hpoint := ne_point_of_isExponent hexponent
  constructor
  · rw [isUnsigned, htake, hdrop, hwhole, Bool.true_and, isFraction]
    · exact hexponent
    · exact hpoint
  · rw [unsignedValue, htake, hdrop]
    split
    next rest => exact absurd rfl (hpoint rest)
    next => rfl

/-- **A fraction**, with an exponent. -/
theorem denotes_point (hwhole : isInteger whole = true) (hfraction : isDigits fraction = true)
    (hexponent : isExponent exponent = true) :
    Denotes (whole ++ '.' :: (fraction ++ exponent))
      (digitsValue (whole ++ fraction) * 10 ^ (exponentValue exponent - fraction.length)) := by
  obtain ⟨htake, hdrop⟩ := split_point (forall_of_isInteger hwhole) (fraction ++ exponent)
  obtain ⟨htake', hdrop'⟩ := split_exponent (isDigits_iff.mp hfraction).2 hexponent
  constructor
  · rw [isUnsigned, htake, hdrop, hwhole, Bool.true_and, isFraction, htake', hdrop', hfraction,
      hexponent]
    rfl
  · rw [unsignedValue, htake, hdrop]
    simp only [htake', hdrop']

theorem Denotes.isNumeral (h : Denotes cs x) : isNumeral cs = true ∧ numeralValue cs = x := by
  obtain ⟨c, rest, rfl, hc⟩ := exists_of_isUnsigned h.isUnsigned
  have hminus : c ≠ '-' := by
    rintro rfl
    cases hc
  constructor
  · unfold Json.isNumeral
    split
    next heq => exact absurd (List.cons.inj heq).1 hminus
    next => exact h.isUnsigned
  · unfold numeralValue
    split
    next heq => exact absurd (List.cons.inj heq).1 hminus
    next => exact h.value

end Values

/-! ### What is printed -/

section Printed

/-- The digits of a natural number, other than zero, do not begin with zero. -/
theorem head?_toDigits_ne {n : ℕ} (hn : n ≠ 0) : (Nat.toDigits 10 n).head? ≠ some '0' := by
  induction n using Nat.strong_induction_on with
  | _ n ih =>
    rw [Nat.toDigits_eq_if (by decide)]
    split
    next hlt =>
      have hdigit : ∀ d < 10, d ≠ 0 → Nat.digitChar d ≠ '0' := by decide
      simpa using hdigit n hlt hn
    next hge =>
      have hquot : n / 10 ≠ 0 := by omega
      have hhead := ih (n / 10) (by omega) hquot
      cases hdigits : Nat.toDigits 10 (n / 10) with
      | nil => exact absurd hdigits Nat.toDigits_ne_nil
      | cons c cs => rwa [hdigits] at hhead

variable (d : Digits)

theorem digits_pos : 0 < d.s := lt_of_lt_of_le (Nat.pow_pos (by decide)) d.lower

theorem isDigit_of_mem_chars : ∀ c ∈ d.chars, c.isDigit = true := fun _ hc =>
  Nat.isDigit_of_mem_toDigits (by decide) (by decide) hc

theorem digitsValue_chars : digitsValue d.chars = d.s := Nat.ofDigitChars_ten_toDigits

/-- Digits that are written first. -/
theorem isInteger_of_chars {whole : List Char} (hne : whole ≠ [])
    (hdigits : ∀ c ∈ whole, c.isDigit = true) (hhead : whole.head? = d.chars.head?) :
    isInteger whole = true := by
  refine Bool.and_eq_true_iff.mpr ⟨isDigits_iff.mpr ⟨hne, hdigits⟩, Bool.or_eq_true_iff.mpr (.inr ?_)⟩
  rw [hhead]
  exact decide_eq_true (head?_toDigits_ne (digits_pos d).ne')

theorem chars_ne_nil : d.chars ≠ [] := Nat.toDigits_ne_nil

theorem isExponent_nil : isExponent [] = true := rfl

theorem isInteger_zero : isInteger ['0'] = true := rfl

theorem isExponent_exponentText (e : ℤ) : isExponent (Digits.exponentText e) = true := by
  have hdigits : isDigits (Nat.toDigits 10 e.natAbs) = true := isDigits_iff.mpr
    ⟨Nat.toDigits_ne_nil, fun _ hc => Nat.isDigit_of_mem_toDigits (by decide) (by decide) hc⟩
  rw [Digits.exponentText]
  split_ifs <;> exact hdigits

theorem exponentValue_exponentText (e : ℤ) : exponentValue (Digits.exponentText e) = e := by
  have hvalue : digitsValue (Nat.toDigits 10 e.natAbs) = e.natAbs := Nat.ofDigitChars_ten_toDigits
  rw [Digits.exponentText]
  split_ifs with hneg
  · rw [exponentValue, hvalue]
    omega
  · rw [exponentValue, hvalue]
    omega

/-- The first digits are an integer. -/
theorem isInteger_take {i : ℕ} (hi : i ≠ 0) : isInteger (d.chars.take i) = true := by
  refine isInteger_of_chars d ?_ (fun c hc => isDigit_of_mem_chars d c (List.mem_of_mem_take hc)) ?_
  · rw [ne_eq, List.take_eq_nil_iff, not_or]
    exact ⟨hi, chars_ne_nil d⟩
  · rw [List.head?_take, if_neg hi]

/-- The other digits are a fraction. -/
theorem isDigits_drop {i : ℕ} (hi : i < d.k) : isDigits (d.chars.drop i) = true := by
  refine isDigits_iff.mpr ⟨?_, fun c hc => isDigit_of_mem_chars d c (List.mem_of_mem_drop hc)⟩
  rw [ne_eq, List.drop_eq_nil_iff, d.length_chars]
  omega

/-- Zeros are digits. -/
theorem isDigit_of_mem_replicate {i : ℕ} {c : Char} (h : c ∈ List.replicate i '0') :
    c.isDigit = true := by
  rw [List.eq_of_mem_replicate h]
  rfl

/-- **A point among the digits**, and an exponent. -/
theorem denotes_split {i : ℕ} {exponent : List Char} (hi : i ≠ 0) (hlt : i < d.k)
    (hexponent : isExponent exponent = true) :
    Denotes (d.chars.take i ++ '.' :: (d.chars.drop i ++ exponent))
      (d.s * 10 ^ (exponentValue exponent - (d.k - i : ℕ))) := by
  have hdenotes := denotes_point (isInteger_take d hi) (isDigits_drop d hlt) hexponent
  rwa [List.take_append_drop, digitsValue_chars, List.length_drop, d.length_chars] at hdenotes

/-- **Zeros after the digits.** -/
theorem denotes_zeros (i : ℕ) : Denotes (d.chars ++ List.replicate i '0') (d.s * 10 ^ i) := by
  have hwhole : isInteger (d.chars ++ List.replicate i '0') = true := by
    refine isInteger_of_chars d (List.append_ne_nil_of_left_ne_nil (chars_ne_nil d) _) ?_
      (List.head?_append_of_ne_nil _ (chars_ne_nil d))
    exact fun c hc => (List.mem_append.mp hc).elim (isDigit_of_mem_chars d c) isDigit_of_mem_replicate
  have hvalue : digitsValue (d.chars ++ List.replicate i '0') = 10 ^ i * d.s := by
    rw [digitsValue, Nat.ofDigitChars_append, Nat.ofDigitChars_replicate_zero]
    exact congrArg _ (digitsValue_chars d)
  have hdenotes := denotes_whole hwhole isExponent_nil
  rw [List.append_nil, hvalue] at hdenotes
  simpa [exponentValue, mul_comm] using hdenotes

/-- **Zeros before the digits.** -/
theorem denotes_small (i : ℕ) : Denotes (['0'] ++ '.' :: (List.replicate i '0' ++ d.chars))
    (d.s * 10 ^ (-(i + d.k : ℕ) : ℤ)) := by
  have hfraction : isDigits (List.replicate i '0' ++ d.chars) = true := by
    refine isDigits_iff.mpr ⟨List.append_ne_nil_of_right_ne_nil _ (chars_ne_nil d), fun c hc => ?_⟩
    exact (List.mem_append.mp hc).elim isDigit_of_mem_replicate (isDigit_of_mem_chars d c)
  have hvalue : digitsValue (['0'] ++ (List.replicate i '0' ++ d.chars)) = d.s := by
    have hzero : Nat.ofDigitChars 10 ['0'] 0 = 0 := rfl
    rw [digitsValue, Nat.ofDigitChars_append, Nat.ofDigitChars_append,
      Nat.ofDigitChars_replicate_zero, hzero, Nat.mul_zero]
    exact digitsValue_chars d
  have hdenotes := denotes_point isInteger_zero hfraction isExponent_nil
  rwa [List.append_nil, hvalue, exponentValue, zero_sub, List.length_append, List.length_replicate,
    d.length_chars] at hdenotes

/-- **The text of some digits** is a numeral for the number that they write. -/
theorem denotes_text : Denotes d.text d.value := by
  have hpos := d.isPos
  rw [Digits.text, Digits.value]
  split_ifs with hzeros hpoint hsmall hone
  · have hexponent : d.n - d.k = ((d.n - d.k).toNat : ℤ) := (Int.toNat_of_nonneg (by omega)).symm
    rw [hexponent, zpow_natCast]
    exact denotes_zeros d _
  · have hexponent : d.n - d.k = 0 - ((d.k - d.n.toNat : ℕ) : ℤ) := by omega
    have hdenotes := denotes_split d (i := d.n.toNat) (by omega) (by omega) isExponent_nil
    rwa [List.append_nil, exponentValue, ← hexponent] at hdenotes
  · have hexponent : d.n - d.k = -(((-d.n).toNat + d.k : ℕ) : ℤ) := by omega
    rw [hexponent]
    exact denotes_small d _
  · have hwhole : isInteger d.chars = true :=
      isInteger_of_chars d (chars_ne_nil d) (isDigit_of_mem_chars d) rfl
    have hdenotes := denotes_whole hwhole (isExponent_exponentText (d.n - 1))
    rw [digitsValue_chars, exponentValue_exponentText] at hdenotes
    rwa [hone, Nat.cast_one]
  · have hexponent : d.n - d.k = d.n - 1 - ((d.k - 1 : ℕ) : ℤ) := by omega
    have hdenotes := denotes_split d one_ne_zero (by omega) (isExponent_exponentText (d.n - 1))
    rwa [exponentValue_exponentText, ← hexponent] at hdenotes

variable {x : ℚ}

/-- The text of a positive double. -/
theorem denotes_magnitudeText (hx : 0 < x) (h : IsDouble x) :
    ∃ y, Denotes (Double.magnitudeText x) y ∧ nearest y = x := by
  obtain ⟨d, hd⟩ := Double.exists_shortest hx h
  refine ⟨d.value, ?_, Double.nearest_of_shortest? hd⟩
  rw [Double.magnitudeText, hd]
  exact denotes_text d

/-- **The text of a double** is a numeral, and the double is the nearest to it. -/
theorem isNumeral_text (h : IsDouble x) :
    isNumeral (Double.text x) = true ∧ nearest (numeralValue (Double.text x)) = x := by
  rw [Double.text]
  split_ifs with hzero hneg
  · subst hzero
    have hvalue : numeralValue ['0'] = 0 := by decide +kernel
    exact ⟨rfl, by rw [hvalue, Double.nearest_of_isDouble h]⟩
  · obtain ⟨y, hdenotes, hy⟩ := denotes_magnitudeText (neg_pos.mpr hneg) h.neg
    refine ⟨hdenotes.isUnsigned, ?_⟩
    rw [numeralValue, hdenotes.value, Double.nearest_neg, hy, neg_neg]
  · obtain ⟨y, hdenotes, hy⟩ := denotes_magnitudeText
      (lt_of_le_of_ne (not_lt.mp hneg) (Ne.symm hzero)) h
    obtain ⟨hnumeral, hvalue⟩ := hdenotes.isNumeral
    exact ⟨hnumeral, by rw [hvalue, hy]⟩

end Printed

/-! ### Numbers -/

/-- A number: a finite double. -/
structure Number where
  value : ℚ
  isDouble : IsDouble value
  isFinite : |value| < overflow
  deriving DecidableEq

namespace Number

/-- `String(n)`. -/
def text (n : Number) : List Char := Double.text n.value

/-- The number that `JSON.parse` takes a numeral for, if it is finite. -/
def read (cs : List Char) : Option Number :=
  let x := nearest (numeralValue cs)
  if h : |x| < overflow then some ⟨x, Double.isDouble_nearest _, h⟩ else none

theorem valid (n : Number) : isNumeral n.text = true := (isNumeral_text n.isDouble).1

/-- **What is printed is read back.** -/
theorem read_text (n : Number) : read n.text = some n := by
  have hvalue : nearest (numeralValue n.text) = n.value := (isNumeral_text n.isDouble).2
  obtain ⟨x, hdouble, hfinite⟩ := n
  rw [read]
  simp only [hvalue, hfinite, dite_true]

/-- The characters of the text of a number. -/
theorem forall_mem (n : Number) : ∀ c ∈ n.text, isNumberChar c = true := forall_of_isNumeral n.valid

theorem exists_cons (n : Number) : ∃ c rest, n.text = c :: rest ∧ (c.isDigit = true ∨ c = '-') :=
  exists_of_isNumeral n.valid

/-- Is this the text of a number? -/
def isText (cs : List Char) : Bool := (read cs).any fun n => n.text = cs

theorem isText_iff {cs : List Char} : isText cs = true ↔ ∃ n : Number, n.text = cs := by
  rw [isText]
  constructor
  · intro h
    cases hread : read cs with
    | none =>
      rw [hread] at h
      cases h
    | some n =>
      rw [hread] at h
      exact ⟨n, of_decide_eq_true h⟩
  · rintro ⟨n, rfl⟩
    rw [read_text]
    exact decide_eq_true rfl

/-- `Number.MAX_VALUE`. -/
def largest : Number where
  value := (2 ^ 53 - 1) * 2 ^ 971
  isDouble := ⟨2 ^ 53 - 1, 971, by decide, by decide, by norm_num⟩
  isFinite := by
    have hpow : overflow = 2 ^ 53 * 2 ^ 971 := by
      rw [overflow]
      exact pow_add 2 53 971
    rw [abs_of_nonneg (by positivity), hpow]
    exact mul_lt_mul_of_pos_right (by norm_num) (by positivity)

/-- An integer as a number: the nearest double, and the largest for what is beyond it. -/
def ofInt (z : ℤ) : Number :=
  if h : |nearest (z : ℚ)| < overflow then ⟨nearest z, Double.isDouble_nearest _, h⟩
  else if 0 ≤ z then largest
  else ⟨-largest.value, largest.isDouble.neg, by rw [abs_neg]; exact largest.isFinite⟩

end Number

end Json
