import Ahjoor.Contributions.ContributionsService

/-!
# Payments that are counted one to one

A payment in the unit of account of the group counts with its amount as it is, and no policy of
the group refuses it; any other payment is converted. Which of the two it is is decided by
`assetsEqual`, but on the asset that `getContributionAsset` makes of the payment, and there a
payment without an issuer, such as one in the native asset, gets that of the unit of account.
-/

namespace Ahjoor.FxService

open Async

variable {σ : Type} {group : Group} {tx : TxDetails}

/-! ### What is claimed -/

/-- What `createContribution` makes of the details of a transaction: the locked rate, and the amount
that counts. -/
def convert (cfg : Config) (group : Group) (tx : TxDetails) : Service σ (LockedFxRate × String) := do
  let contributionAsset := getContributionAsset group (upperCase tx.assetCode) tx.assetIssuer
  let lockedRate ← lockRate cfg group contributionAsset
  let normalizedAmount ← normalizeToUnitOfAccount group tx.amount contributionAsset lockedRate
  pure (lockedRate, normalizedAmount)

/-- **The payment is counted one to one**: at the rate 1, with its own amount, and whether or not
the group allows payments in other assets. -/
def CountedOneToOne (cfg : Config) (group : Group) (tx : TxDetails) : Prop :=
  ∀ (allowCrossAssetContributions : Option Bool) x L,
    Ends (fun _ => True) (convert cfg { group with allowCrossAssetContributions } tx ()) [] x L →
      ∃ lockedRate : LockedFxRate, x = (.ok (lockedRate, tx.amount), ()) ∧ lockedRate.rate = "1"

/-- The payment is in the unit of account of the group. -/
def InUnitOfAccount (group : Group) (tx : TxDetails) : Prop :=
  upperCase tx.assetCode = (getUnitOfAccount group).code ∧
    tx.assetIssuer = (getUnitOfAccount group).issuer

/-! ### The path of a payment -/

/-- The verification of a transaction converts what the chain says about it, and compares the result
with the contribution of the group. -/
theorem lockAndNormalize_eq (cfg : Config) (dto : CreateContributionDto) :
    (ContributionsService.lockAndNormalize cfg dto group : Service σ (LockedFxRate × String)) = (do
      let tx : TxDetails ← ask (.getTransactionAmount dto.transactionHash)
      let locked ← convert cfg group tx
      match Decimal.ofString? locked.2, Decimal.ofString? group.contributionAmount with
      | some normalizedNum, some requiredAmountNum => do
          throwIf (normalizedNum < requiredAmountNum)
            (badRequest ("Contribution value (" ++ locked.2 ++ " " ++
              (group.unitOfAccountAssetCode.or group.assetCode).getD "XLM" ++
              s!") is less than required contribution amount ({group.contributionAmount})"))
          pure locked
      | _, _ => throw (badRequest "Unable to parse transaction amount for verification")) := by
  simp only [convert, Routine.bind_assoc, Routine.pure_bind]
  rfl

/-- Only letters in the ASCII range change. -/
theorem toUpper_toUpper (c : Char) : c.toUpper.toUpper = c.toUpper := by
  by_cases h : c.toNat < 128
  · have hall : ∀ n < 128, (Char.ofNat n).toUpper.toUpper = (Char.ofNat n).toUpper := by decide
    have hc := hall c.toNat h
    rwa [Char.ofNat_toNat] at hc
  · have hsame : c.toUpper = c := by
      unfold Char.toUpper
      rw [dif_neg]
      rintro ⟨-, hle⟩
      have hz : c.toNat ≤ 'z'.toNat := hle
      exact h (Nat.lt_of_le_of_lt hz (by decide))
    rw [hsame, hsame]

theorem upperCase_upperCase (s : String) : upperCase (upperCase s) = upperCase s := by
  simp [upperCase, Function.comp_def, toUpper_toUpper]

/-- The code of the unit of account is in upper case. -/
theorem upperCase_unitOfAccount : upperCase (getUnitOfAccount group).code =
    (getUnitOfAccount group).code :=
  upperCase_upperCase _

/-- A payment has its own issuer or, without one, that of the unit of account. -/
theorem issuer_getContributionAsset (code : String) (issuer : Option String) :
    (getContributionAsset group code issuer).issuer =
      issuer.or (getUnitOfAccount group).issuer := by
  rw [getContributionAsset, getUnitOfAccount, Option.or_assoc]

theorem assetsEqual_iff :
    assetsEqual (getContributionAsset group (upperCase tx.assetCode) tx.assetIssuer)
        (getUnitOfAccount group) = true ↔
      upperCase tx.assetCode = (getUnitOfAccount group).code ∧
        tx.assetIssuer.or (getUnitOfAccount group).issuer = (getUnitOfAccount group).issuer := by
  rw [assetsEqual, Bool.and_eq_true, beq_iff_eq, beq_iff_eq, issuer_getContributionAsset,
    upperCase_unitOfAccount, getContributionAsset, upperCase_upperCase, upperCase_upperCase]

/-- A payment that is taken for one in the unit of account is locked at 1 and not converted. -/
theorem convert_of_equal (cfg : Config) (s : σ) (h : assetsEqual (getContributionAsset group
    (upperCase tx.assetCode) tx.assetIssuer) (getUnitOfAccount group) = true) :
    ∃ lockedRate : ℕ → LockedFxRate, (∀ now, (lockedRate now).rate = "1") ∧
      convert cfg group tx s = .op Op.now fun now => .ret (.ok (lockedRate now, tx.amount), s) := by
  refine ⟨fun now => {
    source := getContributionAsset group (upperCase tx.assetCode) tx.assetIssuer
    destination := getUnitOfAccount group
    rate := "1"
    capturedAt := now
    expiresAt := now + group.fxRateExpirySeconds.getD 900 * 1000
    toleranceBps := group.fxToleranceBps.getD 200 }, fun _ => rfl, ?_⟩
  simp only [convert, lockRate, normalizeToUnitOfAccount, h, Bool.not_true, Bool.and_false, if_true]
  rfl

/-- Any other payment is refused where the group does not allow it. -/
theorem convert_of_ne (cfg : Config) (s : σ)
    (hallow : group.allowCrossAssetContributions = some false)
    (h : assetsEqual (getContributionAsset group (upperCase tx.assetCode) tx.assetIssuer)
      (getUnitOfAccount group) = false) :
    ∃ e, convert cfg group tx s = .ret (.error e, s) := by
  refine ⟨badRequest s!"Cross-asset contributions are disabled for this group. Contributions must be in {(getUnitOfAccount group).code}.", ?_⟩
  simp only [convert, lockRate, hallow, h]
  rfl

/-- **A payment is counted one to one exactly when it is taken for one in the unit of account.** -/
theorem countedOneToOne_iff {cfg : Config} : CountedOneToOne cfg group tx ↔
    assetsEqual (getContributionAsset group (upperCase tx.assetCode) tx.assetIssuer)
      (getUnitOfAccount group) = true := by
  constructor
  · intro h
    by_contra hne
    -- a group that does not allow other assets refuses the payment
    let closed : Group := { group with allowCrossAssetContributions := some false }
    have hclosed : ∃ e, convert cfg closed tx () = .ret (.error e, ()) :=
      convert_of_ne cfg () rfl (Bool.eq_false_iff.mpr hne)
    obtain ⟨e, hrefused⟩ := hclosed
    obtain ⟨lockedRate, heq, -⟩ := h (some false) (.error e, ()) [] (by
      rw [hrefused]
      exact .ret _ _)
    cases heq
  · intro h allowed x L hends
    let group' : Group := { group with allowCrossAssetContributions := allowed }
    have hequal : assetsEqual (getContributionAsset group' (upperCase tx.assetCode) tx.assetIssuer)
      (getUnitOfAccount group') = true := h
    obtain ⟨lockedRate, hrate, hconvert⟩ := convert_of_equal cfg () hequal
    rw [hconvert] at hends
    cases hends with
    | op now hr hrest =>
      cases hrest
      exact ⟨_, rfl, hrate _⟩

/-! ### The condition -/

/-- **Only payments in the unit of account are counted one to one, and all of them**, exactly when
the payment has an issuer, or the unit of account has none, or their codes differ. -/
theorem onlyUnitOfAccount_iff (cfg : Config) (group : Group) (tx : TxDetails) :
    (CountedOneToOne cfg group tx ↔ InUnitOfAccount group tx) ↔
      (tx.assetIssuer = none → (getUnitOfAccount group).issuer = none ∨
        upperCase tx.assetCode ≠ (getUnitOfAccount group).code) := by
  rw [countedOneToOne_iff, assetsEqual_iff, InUnitOfAccount]
  cases hissuer : tx.assetIssuer with
  | some issuer => simp
  | none =>
    by_cases hcode : upperCase tx.assetCode = (getUnitOfAccount group).code
    · simp [hcode, eq_comm]
    · simp [hcode]

/-- A group in USDC as `createGroup` stores it: the code of the unit of account is the default of
the column. -/
def usdcGroup : Group where
  id := 7
  name := "Savings"
  adminWallet := "GADMIN"
  contributionAmount := "100"
  assetCode := some "USDC"
  assetIssuer := some "GA5ZSEJYB37JRC5AVCIA5MOP4RHTM335X2KGX3IHOJAPP5RE34K4KZVN"
  totalRounds := 3

/-- A payment of 100 in the native asset. -/
def nativePayment : TxDetails where
  amount := "100"
  assetCode := "XLM"
  assetIssuer := none

/-- The payment in the native asset is counted one to one. -/
theorem not_onlyUnitOfAccount : ¬ ∀ (cfg : Config) (group : Group) (tx : TxDetails),
    CountedOneToOne cfg group tx ↔ InUnitOfAccount group tx := by
  intro h
  have hcounted : CountedOneToOne Sample.cfg usdcGroup nativePayment :=
    countedOneToOne_iff.mpr (by decide)
  have hissuer := ((h Sample.cfg usdcGroup nativePayment).mp hcounted).2
  exact absurd hissuer (by decide)

end Ahjoor.FxService
