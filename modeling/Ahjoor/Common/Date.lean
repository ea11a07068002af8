import Mathlib.Data.Int.Basic

/-!
# Dates and slices

A date is its time in milliseconds; `toISOString` is the text of it, in the proleptic Gregorian
calendar. `slicePrefix` counts as JavaScript does, in UTF-16 code units.
-/

namespace Ahjoor

/-- A number with leading zeros. -/
def padded (width n : ℕ) : String :=
  String.ofList (List.replicate (width - (Nat.toDigits 10 n).length) '0' ++ Nat.toDigits 10 n)

/-- `new Date(ms).toISOString()`. -/
def toISOString (ms : ℤ) : String :=
  let days := ms / 86400000 + 719468
  let rest := (ms % 86400000).toNat
  let era := days / 146097
  let dayOfEra := (days % 146097).toNat
  let yearOfEra := (dayOfEra - dayOfEra / 1460 + dayOfEra / 36524 - dayOfEra / 146096) / 365
  let dayOfYear := dayOfEra - (365 * yearOfEra + yearOfEra / 4 - yearOfEra / 100)
  let shifted := (5 * dayOfYear + 2) / 153
  let day := dayOfYear - (153 * shifted + 2) / 5 + 1
  let month := if shifted < 10 then shifted + 3 else shifted - 9
  let year : ℤ := yearOfEra + era * 400 + if month ≤ 2 then 1 else 0
  let yearText :=
    if 0 ≤ year ∧ year ≤ 9999 then padded 4 year.toNat
    else (if year < 0 then "-" else "+") ++ padded 6 year.natAbs
  yearText ++ "-" ++ padded 2 month ++ "-" ++ padded 2 day ++ "T" ++ padded 2 (rest / 3600000) ++ ":" ++
    padded 2 (rest / 60000 % 60) ++ ":" ++ padded 2 (rest / 1000 % 60) ++ "." ++ padded 3 (rest % 1000) ++
    "Z"

/-- The first `n` code units. A pair of surrogates that is cut leaves its first half, and a surrogate on
its own is written as the replacement character. -/
def sliceUnits : ℕ → List Char → List Char
  | _, [] => []
  | 0, _ => []
  | 1, c :: _ => if c.toNat < 0x10000 then [c] else [Char.ofNat 0xFFFD]
  | n + 2, c :: cs => c :: sliceUnits (if c.toNat < 0x10000 then n + 1 else n) cs

/-- `s.slice(0, n)`. -/
def slicePrefix (s : String) (n : ℕ) : String := String.ofList (sliceUnits n s.toList)

end Ahjoor
