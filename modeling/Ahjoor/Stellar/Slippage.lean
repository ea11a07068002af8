import Ahjoor.Stellar.StellarService
import Mathlib.Tactic.FieldSimp
import Mathlib.Tactic.Linarith

/-!
# The send cap and the check of the rate

A path payment is submitted with a cap on the source amount, and what it has been executed for is
checked afterwards against a band around the locked rate. The cap bounds the source amount from
above, the check bounds the rate on both sides: a source amount far below the cap makes a rate above
the band, so that a payment the network has executed on better terms is reported as
`SLIPPAGE_EXCEEDED`. The decimals are exact here but for the roundings of `toFixed(7)`; with those
of `decimal.js` the definitions are the ones of the service (`pathPaymentResult_eq`).
-/

namespace Ahjoor.StellarService

/-! ### The arithmetic as a parameter -/

section Rounding

variable (round : ℚ → ℚ)

/-- `computeSendMax(destinationAmount, lockedRate, toleranceBps)`, where `round` follows every
operation. -/
def computeSendMaxWith (destinationAmount lockedRate : String) (toleranceBps : ℕ) :
    Except Exc String := do
  let dest ← newDecimal destinationAmount
  let rate ← newDecimal lockedRate
  if rate = 0 then pure destinationAmount
  else
    let source := round (dest / rate)
    let buffer := round (1 + round (toleranceBps / 10000))
    pure (Decimal.toFixed 7 (round (source * buffer)))

/-- `extractEffectiveRate(result, destinationAmount, lockedRate)`. -/
def extractEffectiveRateWith (result : SendReply) (destinationAmount lockedRate : String) :
    Except Exc String :=
  match (result.sourceAmount.or result.sendAmount).or result.source_amount with
  | some sourceAmount =>
      if (Decimal.ofString? sourceAmount).any (0 < ·) then do
        let dest ← newDecimal destinationAmount
        let src ← newDecimal sourceAmount
        pure (Decimal.toFixed 7 (round (dest / src)))
      else pure lockedRate
  | none => pure lockedRate

/-- `isRateWithinTolerance(lockedRate, effectiveRate, toleranceBps)`. -/
def isRateWithinToleranceWith (lockedRate effectiveRate : String) (toleranceBps : ℕ) :
    Except Exc Bool := do
  let locked ← newDecimal lockedRate
  let effective ← newDecimal effectiveRate
  if locked = 0 then pure false
  else
    let deviation := round (|round (effective - locked)| / locked)
    pure (decide (deviation ≤ round (toleranceBps / 10000)))

/-- What is reported of an executed payment, once its rate has been checked. -/
def report (within : Bool) (effectiveRate : String) (result : SendReply) (txHash destinationAmount
    destinationAssetCode lockedRate : String) (toleranceBps : ℕ) : PathPaymentResult :=
  if !within then {
    outcome := .slippageExceeded
    deliveredAmount := "0"
    requestedAmount := destinationAmount
    effectiveRate
    lockedRate
    txHash := some txHash
    reason := some s!"Effective rate {effectiveRate} deviates beyond {toleranceBps} bps from locked rate {lockedRate}" }
  else
    let delivered := extractDeliveredAmount result destinationAmount
    let full := (Decimal.ofString? delivered).any fun d =>
      (Decimal.ofString? destinationAmount).any (· ≤ d)
    if full then {
      outcome := .fullFill
      deliveredAmount := delivered
      requestedAmount := destinationAmount
      effectiveRate
      lockedRate
      txHash := some txHash }
    else {
      outcome := .partialFill
      deliveredAmount := delivered
      requestedAmount := destinationAmount
      effectiveRate
      lockedRate
      txHash := some txHash
      reason := some s!"Partial fill: delivered {delivered} of {destinationAmount} {destinationAssetCode}" }

/-- The result once the network has answered `sendTransaction`. -/
def pathPaymentResultWith (result : SendReply) (txHash destinationAmount destinationAssetCode
    lockedRate : String) (toleranceBps : ℕ) : Except Exc PathPaymentResult := do
  let effectiveRate ← extractEffectiveRateWith round result destinationAmount lockedRate
  let within ← isRateWithinToleranceWith round lockedRate effectiveRate toleranceBps
  pure (report within effectiveRate result txHash destinationAmount destinationAssetCode lockedRate
    toleranceBps)

end Rounding

theorem computeSendMax_eq : computeSendMax = computeSendMaxWith (Decimal.significant precision) :=
  rfl

/-- **With the twenty digits of `decimal.js`** the check is the one of the service. -/
theorem pathPaymentResult_eq :
    pathPaymentResult = pathPaymentResultWith (Decimal.significant precision) := by
  funext result txHash destinationAmount code lockedRate toleranceBps
  refine congrArg (extractEffectiveRate result destinationAmount lockedRate >>= ·) ?_
  funext effectiveRate
  refine congrArg (isRateWithinTolerance lockedRate effectiveRate toleranceBps >>= ·) ?_
  funext within
  cases within with
  | false => rfl
  | true => exact (apply_ite pure _ _ _).symm

/-! ### What is claimed -/

/-- **The payment is permitted**: it delivers the destination amount for a source amount within the
cap; all amounts are positive. -/
structure Permitted (destinationAmount lockedRate : String) (toleranceBps : ℕ) (result : SendReply)
    (d r s : ℚ) : Prop where
  destination : newDecimal destinationAmount = .ok d
  rate : newDecimal lockedRate = .ok r
  source : ∃ sourceAmount, newDecimal sourceAmount = .ok s ∧
    (result.sourceAmount.or result.sendAmount).or result.source_amount = some sourceAmount
  delivers : extractDeliveredAmount result destinationAmount = destinationAmount
  destination_pos : 0 < d
  rate_pos : 0 < r
  tolerance_pos : 0 < toleranceBps
  source_pos : 0 < s
  capped : ∃ sendMax m, computeSendMaxWith id destinationAmount lockedRate toleranceBps =
    .ok sendMax ∧ newDecimal sendMax = .ok m ∧ s ≤ m

/-- **The payment is accepted**: the check accepts its rate, and it is not reported as
`SLIPPAGE_EXCEEDED`. -/
def Accepted (destinationAmount lockedRate : String) (toleranceBps : ℕ) (result : SendReply) :
    Prop :=
  (do
    let effectiveRate ← extractEffectiveRateWith id result destinationAmount lockedRate
    isRateWithinToleranceWith id lockedRate effectiveRate toleranceBps) = .ok true ∧
  ∀ txHash code, ∃ res, pathPaymentResultWith id result txHash destinationAmount code lockedRate
    toleranceBps = .ok res ∧ res.outcome ≠ .slippageExceeded

/-! ### The condition -/

/-- The lowest rate in the band, in units of the seventh decimal. -/
def lowestRate (r : ℚ) (toleranceBps : ℕ) : ℤ := ⌈r * (1 - toleranceBps / 10000) * 10 ^ 7⌉

/-- The highest rate in the band, in units of the seventh decimal. -/
def highestRate (r : ℚ) (toleranceBps : ℕ) : ℤ := ⌊r * (1 + toleranceBps / 10000) * 10 ^ 7⌋

/-- The source amount is not so small that the rate is rounded to one above the band. -/
def NotTooCheap (d r s : ℚ) (toleranceBps : ℕ) : Prop :=
  2 * 10 ^ 7 * d < (2 * highestRate r toleranceBps + 1) * s

/-- The source amount is not so large that the rate is rounded to one below the band. -/
def NotTooDear (d r s : ℚ) (toleranceBps : ℕ) : Prop :=
  (2 * lowestRate r toleranceBps - 1) * s ≤ 2 * 10 ^ 7 * d

instance (d r s : ℚ) (toleranceBps : ℕ) : Decidable (NotTooCheap d r s toleranceBps) :=
  inferInstanceAs (Decidable (_ < _))

/-! ### The check -/

section Check

variable {d r s : ℚ} {toleranceBps : ℕ}

/-- A number of seventh decimals is within the band around the rate. -/
theorem within_iff (hr : 0 < r) (n : ℤ) :
    |(n : ℚ) / 10 ^ 7 - r| / r ≤ (toleranceBps : ℚ) / 10000 ↔
      lowestRate r toleranceBps ≤ n ∧ n ≤ highestRate r toleranceBps := by
  rw [lowestRate, highestRate, Int.ceil_le, Int.le_floor, div_le_iff₀ hr, abs_le]
  have h10 : (0 : ℚ) < 10 ^ 7 := by norm_num
  refine and_congr ?_ ?_
  · rw [neg_le_sub_iff_le_add, ← sub_le_iff_le_add, le_div_iff₀ h10]
    exact Iff.of_eq (congrArg (· ≤ (n : ℚ)) (by ring))
  · rw [sub_le_iff_le_add, div_le_iff₀ h10]
    exact Iff.of_eq (congrArg ((n : ℚ) ≤ ·) (by ring))

/-- **The rounded rate is within the band** when the source amount is within its bounds. -/
theorem within_round_iff (hd : 0 < d) (hr : 0 < r) (hs : 0 < s) :
    |Decimal.atScale 7 (d / s) - r| / r ≤ (toleranceBps : ℚ) / 10000 ↔
      NotTooDear d r s toleranceBps ∧ NotTooCheap d r s toleranceBps := by
  have hq : 0 ≤ d / s * 10 ^ 7 := by positivity
  have hscale : Decimal.atScale 7 (d / s) =
      (Decimal.halfUp (d / s * 10 ^ 7) : ℚ) / 10 ^ 7 := rfl
  rw [hscale, within_iff hr, Decimal.le_halfUp hq, Decimal.halfUp_le hq, NotTooDear, NotTooCheap]
  have hmul : d / s * 10 ^ 7 = d * 10 ^ 7 / s := by ring
  refine and_congr ?_ ?_
  · rw [hmul, le_div_iff₀ hs]
    constructor <;> intro h <;> linarith
  · rw [hmul, div_lt_iff₀ hs]
    constructor <;> intro h <;> linarith

theorem newDecimal_eq_ok {text : String} {q : ℚ} :
    newDecimal text = .ok q ↔ Decimal.ofString? text = some q := by
  rw [newDecimal]
  cases Decimal.ofString? text with
  | none => exact iff_of_false nofun nofun
  | some q' => rw [Except.ok.injEq, Option.some.injEq]

variable {destinationAmount lockedRate : String} {result : SendReply}

/-- The effective rate of a permitted payment. -/
theorem Permitted.effectiveRate
    (h : Permitted destinationAmount lockedRate toleranceBps result d r s) :
    extractEffectiveRateWith id result destinationAmount lockedRate =
      .ok (Decimal.toFixed 7 (d / s)) := by
  obtain ⟨sourceAmount, hsource, hresult⟩ := h.source
  have hpos : (Decimal.ofString? sourceAmount).any (0 < ·) = true := by
    rw [newDecimal_eq_ok.mp hsource]
    exact decide_eq_true h.source_pos
  rw [extractEffectiveRateWith, hresult]
  dsimp only
  rw [if_pos hpos, h.destination, hsource]
  rfl

/-- What the check says of it. -/
theorem Permitted.isRateWithinTolerance
    (h : Permitted destinationAmount lockedRate toleranceBps result d r s) :
    isRateWithinToleranceWith id lockedRate (Decimal.toFixed 7 (d / s)) toleranceBps =
      .ok (decide (|Decimal.atScale 7 (d / s) - r| / r ≤ (toleranceBps : ℚ) / 10000)) := by
  have heffective : newDecimal (Decimal.toFixed 7 (d / s)) = .ok (Decimal.atScale 7 (d / s)) :=
    newDecimal_eq_ok.mpr (Decimal.ofString?_toFixed 7 (d / s))
  rw [isRateWithinToleranceWith, h.rate, heffective]
  change (if r = 0 then _ else _) = _
  rw [if_neg h.rate_pos.ne']
  rfl

theorem outcome_report (within : Bool) (effectiveRate txHash code : String) :
    (report within effectiveRate result txHash destinationAmount code lockedRate
      toleranceBps).outcome = .slippageExceeded ↔ within = false := by
  cases within with
  | false => exact iff_of_true rfl rfl
  | true =>
    refine iff_of_false ?_ Bool.noConfusion
    rw [report, if_neg (c := (!true) = true) Bool.false_ne_true]
    dsimp only
    split_ifs <;> exact not_false

/-- **A permitted payment is accepted exactly when its source amount is neither too small nor too
large** for the band. -/
theorem acceptedUnderCap_iff (h : Permitted destinationAmount lockedRate toleranceBps result d r s) :
    Accepted destinationAmount lockedRate toleranceBps result ↔
      NotTooDear d r s toleranceBps ∧ NotTooCheap d r s toleranceBps := by
  rw [← within_round_iff h.destination_pos h.rate_pos h.source_pos]
  have hresult : ∀ txHash code, pathPaymentResultWith id result txHash destinationAmount code
      lockedRate toleranceBps = .ok (report
        (decide (|Decimal.atScale 7 (d / s) - r| / r ≤ (toleranceBps : ℚ) / 10000))
        (Decimal.toFixed 7 (d / s)) result txHash destinationAmount code lockedRate
          toleranceBps) := by
    intro txHash code
    rw [pathPaymentResultWith, h.effectiveRate]
    change isRateWithinToleranceWith id lockedRate (Decimal.toFixed 7 (d / s)) toleranceBps >>= _ = _
    rw [h.isRateWithinTolerance]
    rfl
  have hcheck : (do
      let effectiveRate ← extractEffectiveRateWith id result destinationAmount lockedRate
      isRateWithinToleranceWith id lockedRate effectiveRate toleranceBps) =
        .ok (decide (|Decimal.atScale 7 (d / s) - r| / r ≤ (toleranceBps : ℚ) / 10000)) := by
    rw [h.effectiveRate]
    exact h.isRateWithinTolerance
  rw [Accepted, hcheck, Except.ok.injEq, decide_eq_true_iff]
  refine and_iff_left_of_imp fun hwithin txHash code => ⟨_, hresult txHash code, fun hslippage => ?_⟩
  exact of_decide_eq_false ((outcome_report _ _ txHash code).mp hslippage) hwithin

/-! ### What the cap takes care of -/

/-- The cap is at most half a unit of the seventh decimal above the exact one. -/
theorem Permitted.source_le
    (h : Permitted destinationAmount lockedRate toleranceBps result d r s) :
    s ≤ d / r * (1 + toleranceBps / 10000) + 1 / (2 * 10 ^ 7) := by
  obtain ⟨sendMax, m, hcap, hm, hle⟩ := h.capped
  have hd := h.destination_pos
  have hr := h.rate_pos
  have hcap' : computeSendMaxWith id destinationAmount lockedRate toleranceBps =
      .ok (Decimal.toFixed 7 (d / r * (1 + toleranceBps / 10000))) := by
    rw [computeSendMaxWith, h.destination, h.rate]
    change (if r = 0 then _ else _) = _
    rw [if_neg hr.ne']
    rfl
  obtain rfl := Except.ok.inj (hcap'.symm.trans hcap)
  obtain rfl : m = Decimal.atScale 7 (d / r * (1 + toleranceBps / 10000)) := by
    have hread := newDecimal_eq_ok.mp hm
    rw [Decimal.ofString?_toFixed] at hread
    exact (Option.some.inj hread).symm
  refine hle.trans ?_
  have hnonneg : 0 ≤ d / r * (1 + (toleranceBps : ℚ) / 10000) * 10 ^ 7 := by positivity
  have hround := (Decimal.le_halfUp hnonneg).mp le_rfl
  have hscale : Decimal.atScale 7 (d / r * (1 + (toleranceBps : ℚ) / 10000)) =
      (Decimal.halfUp (d / r * (1 + (toleranceBps : ℚ) / 10000) * 10 ^ 7) : ℚ) / 10 ^ 7 := rfl
  rw [hscale, div_le_iff₀ (by norm_num)]
  linarith

/-- **The cap keeps the payment from being too dear**, as long as the tolerance is wide enough for
the two roundings. -/
theorem notTooDear_of_permitted
    (h : Permitted destinationAmount lockedRate toleranceBps result d r s)
    (hwide : r * (1 - toleranceBps / 10000) + d / r * (1 + toleranceBps / 10000) +
      1 / (2 * 10 ^ 7) ≤ 2 * 10 ^ 7 * (toleranceBps / 10000) ^ 2 * d) :
    NotTooDear d r s toleranceBps := by
  have hs := h.source_pos
  have hr := h.rate_pos
  have hd := h.destination_pos
  have hcap := h.source_le
  set t : ℚ := (toleranceBps : ℚ) / 10000 with ht
  have hlow : (2 * (lowestRate r toleranceBps : ℚ) - 1) ≤ 2 * (r * (1 - t) * 10 ^ 7) + 1 := by
    have hceil := (Int.ceil_lt_add_one (r * (1 - t) * 10 ^ 7)).le
    rw [lowestRate, ← ht]
    linarith
  rw [NotTooDear]
  calc (2 * (lowestRate r toleranceBps : ℚ) - 1) * s
      ≤ (2 * (r * (1 - t) * 10 ^ 7) + 1) * s := mul_le_mul_of_nonneg_right hlow hs.le
    _ ≤ 2 * 10 ^ 7 * d := by
      rcases le_or_gt 0 (2 * (r * (1 - t) * 10 ^ 7) + 1) with hpos | hneg
      · calc (2 * (r * (1 - t) * 10 ^ 7) + 1) * s
            ≤ (2 * (r * (1 - t) * 10 ^ 7) + 1) * (d / r * (1 + t) + 1 / (2 * 10 ^ 7)) :=
              mul_le_mul_of_nonneg_left hcap hpos
          _ = 2 * 10 ^ 7 * d - 2 * 10 ^ 7 * t ^ 2 * d +
                (r * (1 - t) + d / r * (1 + t) + 1 / (2 * 10 ^ 7)) := by
              field_simp
              ring
          _ ≤ 2 * 10 ^ 7 * d := by linarith
      · have hmul := mul_neg_of_neg_of_pos hneg hs
        have hrhs : 0 ≤ 2 * 10 ^ 7 * d := by positivity
        linarith

end Check

/-! ### A good price -/

namespace Sample

/-- The network's answer to a payment of 100 for this source amount. -/
def answer (sourceAmount : String) : SendReply where
  sourceAmount := some sourceAmount
  deliveredAmount := some "100"

/-- At a rate of 0.5 and with 200 basis points the cap is 204. -/
theorem permitted {sourceAmount : String} {s : ℚ} (hsource : newDecimal sourceAmount = .ok s)
    (hs : 0 < s) (hle : s ≤ 204) :
    Permitted "100" "0.5" 200 (answer sourceAmount) 100 (1 / 2) s where
  destination := newDecimal_eq_ok.mpr (by decide +kernel)
  rate := newDecimal_eq_ok.mpr (by decide +kernel)
  source := ⟨sourceAmount, hsource, rfl⟩
  delivers := rfl
  destination_pos := by norm_num
  rate_pos := by norm_num
  tolerance_pos := by norm_num
  source_pos := hs
  capped := ⟨"204.0000000", 204, by decide +kernel, newDecimal_eq_ok.mpr (by decide +kernel), hle⟩

end Sample

open Ahjoor.StellarService.Sample

/-- At the locked rate the payment is accepted. -/
theorem accepted_sample : Permitted "100" "0.5" 200 (answer "200") 100 (1 / 2) 200 ∧
    Accepted "100" "0.5" 200 (answer "200") := by
  have hpermitted : Permitted "100" "0.5" 200 (answer "200") 100 (1 / 2) 200 :=
    permitted (newDecimal_eq_ok.mpr (by decide +kernel)) (by norm_num) (by norm_num)
  exact ⟨hpermitted, (acceptedUnderCap_iff hpermitted).mpr
    ⟨notTooDear_of_permitted hpermitted (by norm_num), by decide +kernel⟩⟩

/-- A payment for 190 instead of 200 is reported as exceeding the slippage. -/
theorem not_accepted : ¬ ∀ (destinationAmount lockedRate : String) (toleranceBps : ℕ)
    (result : SendReply) (d r s : ℚ),
    Permitted destinationAmount lockedRate toleranceBps result d r s →
      Accepted destinationAmount lockedRate toleranceBps result := by
  intro h
  have hpermitted : Permitted "100" "0.5" 200 (answer "190") 100 (1 / 2) 190 :=
    permitted (newDecimal_eq_ok.mpr (by decide +kernel)) (by norm_num) (by norm_num)
  have hcheck := (h _ _ _ _ _ _ _ hpermitted).1
  have hrefused : (do
      let effectiveRate ← extractEffectiveRateWith id (answer "190") "100" "0.5"
      isRateWithinToleranceWith id "0.5" effectiveRate 200 : Except Exc Bool) ≠ .ok true := by
    decide +kernel
  exact hrefused hcheck

end Ahjoor.StellarService
