import Mathlib.Data.List.Sort
import Mathlib.Data.Rat.Floor
import Mathlib.Tactic.Linarith

/-!
# Nearest-rank percentiles

A percentile of a list for a share `q` is an element with at least this share of the list up to it,
and less than this share below it. There is only one (`IsPercentile.unique`), it grows with the share
(`IsPercentile.le`), and it is found in the sorted list at the place `⌈q * n⌉`, counted from one
(`isPercentile_of_sorted`).
-/

namespace NearestRank

variable {α : Type*} [LinearOrder α] {l s : List α} {q q' : ℚ} {x y : α} {i : ℕ}

/-! ### Counting in a sorted list -/

/-- What stands at a place has the places before it up to it. -/
theorem lt_countP_of_sorted (hs : s.Pairwise (· ≤ ·)) (hx : s[i]? = some x) : i < s.countP (· ≤ x) := by
  induction s generalizing i with
  | nil => cases hx
  | cons a s ih =>
    obtain ⟨ha, hs⟩ := List.pairwise_cons.mp hs
    cases i with
    | zero =>
      obtain rfl : a = x := Option.some.inj hx
      simp
    | succ i =>
      have hax : a ≤ x := ha x (List.mem_of_getElem? hx)
      rw [List.countP_cons_of_pos (by simpa using hax)]
      exact Nat.succ_lt_succ (ih hs hx)

/-- Only places before it are below it. -/
theorem countP_lt_of_sorted (hs : s.Pairwise (· ≤ ·)) (hx : s[i]? = some x) : s.countP (· < x) ≤ i := by
  induction s generalizing i with
  | nil => cases hx
  | cons a s ih =>
    obtain ⟨ha, hs⟩ := List.pairwise_cons.mp hs
    cases i with
    | zero =>
      obtain rfl : a = x := Option.some.inj hx
      refine Nat.le_zero.mpr (List.countP_eq_zero.mpr fun b hb => ?_)
      have hab : a ≤ b := (List.mem_cons.mp hb).elim (fun h => h.ge) (ha b)
      simpa using hab
    | succ i =>
      rw [List.countP_cons]
      have hrest := ih hs hx
      split <;> omega

/-! ### Percentiles -/

/-- **A nearest-rank percentile.** -/
structure IsPercentile (q : ℚ) (l : List α) (x : α) : Prop where
  mem : x ∈ l
  upTo : q * l.length ≤ l.countP (· ≤ x)
  below : (l.countP (· < x) : ℚ) < q * l.length

/-- **What stands at the rank** in the sorted list is the percentile. -/
theorem isPercentile_of_sorted (hs : s.Pairwise (· ≤ ·)) (hperm : s.Perm l) (hx : s[i]? = some x)
    (hupTo : q * l.length ≤ i + 1) (hbelow : (i : ℚ) < q * l.length) : IsPercentile q l x := by
  refine ⟨hperm.mem_iff.mp (List.mem_of_getElem? hx), ?_, ?_⟩
  · rw [← hperm.countP_eq]
    have hcount : i + 1 ≤ s.countP (· ≤ x) := lt_countP_of_sorted hs hx
    have hcast : ((i : ℚ) + 1) ≤ (s.countP (· ≤ x) : ℚ) := by exact_mod_cast hcount
    exact hupTo.trans hcast
  · rw [← hperm.countP_eq]
    have hcast : (s.countP (· < x) : ℚ) ≤ i := by exact_mod_cast countP_lt_of_sorted hs hx
    exact hcast.trans_lt hbelow

/-- **A larger share** has a larger percentile. -/
theorem IsPercentile.le (hx : IsPercentile q l x) (hy : IsPercentile q' l y) (hq : q ≤ q') : x ≤ y := by
  by_contra hlt
  have hlt := not_le.mp hlt
  -- all that is up to `y` is below `x`
  have hcount : l.countP (· ≤ y) ≤ l.countP (· < x) := List.countP_mono_left fun a _ ha => by
    simpa using (of_decide_eq_true ha).trans_lt hlt
  have hcast : (l.countP (· ≤ y) : ℚ) ≤ (l.countP (· < x) : ℚ) := by exact_mod_cast hcount
  have hshare : q * l.length ≤ q' * l.length := mul_le_mul_of_nonneg_right hq (Nat.cast_nonneg _)
  linarith only [hy.upTo, hx.below, hcast, hshare]

/-- There is only one percentile. -/
theorem IsPercentile.unique (hx : IsPercentile q l x) (hy : IsPercentile q l y) : x = y :=
  le_antisymm (hx.le hy le_rfl) (hy.le hx le_rfl)

/-! ### The rank -/

/-- The place of the percentile in a sorted list of `n`, counted from zero: `max(0, ⌈q * n⌉ - 1)`. -/
def place (q : ℚ) (n : ℕ) : ℕ := (max 0 (⌈q * n⌉ - 1)).toNat

variable {n : ℕ}

theorem place_cast (hq : 0 < q) (hn : n ≠ 0) : (place q n : ℤ) = ⌈q * n⌉ - 1 := by
  have hpos : 0 < q * n := mul_pos hq (Nat.cast_pos.mpr (Nat.pos_of_ne_zero hn))
  have hceil : 1 ≤ ⌈q * n⌉ := Int.one_le_ceil_iff.mpr hpos
  rw [place, Int.toNat_of_nonneg (le_max_left _ _)]
  exact max_eq_right (by omega)

theorem place_lt (hq : 0 < q) (hq' : q ≤ 1) (hn : n ≠ 0) : place q n < n := by
  have hle : q * n ≤ (n : ℤ) := by
    have hone := mul_le_mul_of_nonneg_right hq' (Nat.cast_nonneg (α := ℚ) n)
    simpa using hone
  have hceil : ⌈q * n⌉ ≤ (n : ℤ) := Int.ceil_le.mpr hle
  have hplace := place_cast hq hn
  omega

/-- **The place is the right one.** -/
theorem isPercentile_place (hq : 0 < q) (hn : l ≠ []) (hs : s.Pairwise (· ≤ ·)) (hperm : s.Perm l)
    (hx : s[place q l.length]? = some x) : IsPercentile q l x := by
  have hlength : l.length ≠ 0 := fun h => hn (List.length_eq_zero_iff.mp h)
  have hplace : ((place q l.length : ℤ) : ℚ) = (⌈q * l.length⌉ : ℚ) - 1 := by
    rw [place_cast hq hlength]
    push_cast
    rfl
  have hcast : (place q l.length : ℚ) = (⌈q * l.length⌉ : ℚ) - 1 := by exact_mod_cast hplace
  refine isPercentile_of_sorted hs hperm hx ?_ ?_
  · linarith only [Int.le_ceil (q * l.length), hcast]
  · linarith only [Int.ceil_lt_add_one (q * l.length), hcast]

end NearestRank
