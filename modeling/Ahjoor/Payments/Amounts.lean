import Ahjoor.Payments.PenaltyClock
import Ahjoor.Payments.Serializability
import Mathlib.Algebra.BigOperators.Group.List.Basic

/-!
# The amounts of the instalments

A new plan gives every instalment the same amount, the quotient of the total and the number of
instalments, and no later request touches the amounts (`EvenlySplit`). What the quotient leaves
over is in no instalment, so that the amounts add up to the total exactly when there is nothing
left over.
-/

namespace Ahjoor.Payments

open Async Store

variable {p q : InstallmentPaymentPlan} {total : ℤ}

/-! ### What is claimed -/

/-- The amounts of a plan, as numbers. -/
def InstallmentPaymentPlan.amounts (p : InstallmentPaymentPlan) : Option (List ℤ) :=
  p.installmentAmounts.mapM bigInt?

/-- What the settled instalments amount to. -/
def InstallmentPaymentPlan.collected (p : InstallmentPaymentPlan) : Option ℤ :=
  p.amounts.map fun amounts => (amounts.take p.currentInstallment.toNat).sum

/-- **The instalments of a plan add up** to its total. -/
structure AddsUp (p : InstallmentPaymentPlan) (total : ℤ) (amounts : List ℤ) : Prop where
  length : (amounts.length : ℤ) = p.numInstallments
  nonneg : ∀ a ∈ amounts, 0 ≤ a
  even : ∀ a ∈ amounts, ∀ b ∈ amounts, a ≤ b + 1
  sum : amounts.sum = total
  collected : p.status = .completed → p.collected = some total

instance (p : InstallmentPaymentPlan) (total : ℤ) (amounts : List ℤ) :
    Decidable (AddsUp p total amounts) :=
  decidable_of_iff ((amounts.length : ℤ) = p.numInstallments ∧ (∀ a ∈ amounts, 0 ≤ a) ∧
      (∀ a ∈ amounts, ∀ b ∈ amounts, a ≤ b + 1) ∧ amounts.sum = total ∧
      (p.status = .completed → p.collected = some total))
    ⟨fun ⟨h₁, h₂, h₃, h₄, h₅⟩ => ⟨h₁, h₂, h₃, h₄, h₅⟩, fun ⟨h₁, h₂, h₃, h₄, h₅⟩ => ⟨h₁, h₂, h₃, h₄, h₅⟩⟩

/-! ### The split -/

/-- The plan has as many equal amounts as instalments, and is completed only after the last one. -/
structure EvenlySplit (p : InstallmentPaymentPlan) : Prop where
  positive : 1 ≤ p.numInstallments
  amounts : ∃ total, bigInt? p.totalAmount = some total ∧ p.installmentAmounts =
    List.replicate p.numInstallments.toNat s!"{total.tdiv p.numInstallments}"
  settled : p.status = .completed → p.numInstallments ≤ p.currentInstallment

/-- No decision touches the total and the amounts. -/
theorem EvenlySplit.of_decide {c : Call} {id : Uuid} {decide : InstallmentPaymentPlan → Decision}
    (hcall : c.target = some (id, decide)) (hq : decide p = .store q ∨ decide p = .expire q)
    (h : EvenlySplit p) : EvenlySplit q := by
  cases c with
  | createInstallmentPlan => cases hcall
  | settleInstallment planId ledger =>
    obtain ⟨-, rfl⟩ := Prod.mk.inj (Option.some.inj hcall)
    rcases hq with hq | hq
    · obtain ⟨hactive, -, -, rfl⟩ := decideSettle_store hq
      unfold InstallmentPaymentPlan.settled
      dsimp only
      split
      next hlast => exact ⟨h.positive, h.amounts, fun _ => hlast⟩
      next =>
        refine ⟨h.positive, h.amounts, fun hcompleted => ?_⟩
        change p.status = .completed at hcompleted
        rw [hactive] at hcompleted
        cases hcompleted
    · obtain ⟨-, -, rfl⟩ := decideSettle_expire hq
      exact ⟨h.positive, h.amounts, nofun⟩
  | pausePlan planId ledger now =>
    obtain ⟨-, rfl⟩ := Prod.mk.inj (Option.some.inj hcall)
    rcases hq with hq | hq
    · obtain ⟨-, -, -, rfl⟩ := decidePause_store hq
      exact ⟨h.positive, h.amounts, nofun⟩
    · exact absurd hq decidePause_ne_expire
  | resumePlan planId ledger =>
    obtain ⟨-, rfl⟩ := Prod.mk.inj (Option.some.inj hcall)
    rcases hq with hq | hq
    · obtain ⟨-, -, rfl⟩ := decideResume_store hq
      exact ⟨h.positive, h.amounts, nofun⟩
    · exact absurd hq decideResume_ne_expire

/-- What a request inserts is evenly split. -/
theorem EvenlySplit.of_insert {c : Call} {k : Op.Ret (.insert p) → Prog Op.Ret Result}
    (h : system.body c = .op (.insert p) k) : EvenlySplit p := by
  cases htarget : c.target with
  | some x =>
    obtain ⟨id, decide⟩ := x
    have hbody : system.body c = (request id decide ()).bind fun x => .ret x.1 :=
      congrArg (fun m : Service InstallmentPaymentPlan => (m ()).bind fun x => .ret x.1)
        (body_of_target htarget)
    rw [hbody] at h
    cases h
  | none =>
    cases c with
    | createInstallmentPlan merchant customer token totalAmount numInstallments intervalLedgers
        expiryLedger =>
      rcases body_createInstallmentPlan merchant customer token totalAmount numInstallments
        intervalLedgers expiryLedger with ⟨e, -, hbody⟩ | ⟨hnum, total, htotal, hbody⟩
      · rw [hbody] at h
        cases h
      · rw [hbody] at h
        obtain ⟨hinsert, -⟩ := Prog.op.inj h
        obtain rfl := Op.insert.inj hinsert
        exact ⟨hnum, ⟨total, htotal, rfl⟩, nofun⟩
    | settleInstallment | pausePlan | resumePlan => cases htarget

/-! ### Runs -/

/-- Every plan, stored or read, is evenly split. -/
structure AllSplit (h : PlanHist) : Prop where
  stored : ∀ id p, h.world.plans.row id = some p → EvenlySplit p
  read : ∀ pid id p, ⟨.findOne id, .ok (some p)⟩ ∈ log pid h.trace → EvenlySplit p

/-- **The step.** -/
theorem AllSplit.step {h h' : PlanHist} (hs : AllSplit h) (hstep : HistStep system Next h h') :
    AllSplit h' := by
  cases hstep with
  | idle e he hlive =>
    refine ⟨hs.stored, fun pid id p hp => hs.read pid id p ?_⟩
    rwa [Hist.push_trace, he] at hp
  | did pid c o choice r w hstart hnext hexec hlive =>
    -- what the operation leaves, and what it reads
    have hstored : ∀ id p, w.plans.row id = some p → EvenlySplit p := by
      have hput : ∀ q, EvenlySplit q → ∀ id p, (h.world.plans.put q).row id = some p →
          EvenlySplit p := by
        intro q hq id p hp
        rw [Table.row_put] at hp
        split at hp
        next => exact Option.some.inj hp ▸ hq
        next => exact hs.stored id p hp
      cases o with
      | findOne id =>
        obtain ⟨rfl, -⟩ := exec_findOne hexec
        exact hs.stored
      | insert plan =>
        obtain ⟨-, hbody⟩ := of_next_insert hnext
        rcases exec_insert hexec with ⟨rfl, -⟩ | ⟨-, rfl⟩
        · exact hs.stored
        · have hsplit := EvenlySplit.of_insert hbody
          exact hput _ ⟨hsplit.positive, hsplit.amounts, hsplit.settled⟩
      | save q =>
        obtain ⟨id, p, decide, hlog, hcall, hq⟩ := of_next_save hnext
        rcases exec_save hexec with ⟨rfl, -⟩ | ⟨-, rfl⟩
        · exact hs.stored
        · refine hput q ((hs.read pid id p ?_).of_decide hcall hq)
          rw [hlog]
          exact List.mem_cons_self
    refine ⟨hstored, fun i id p hp => ?_⟩
    by_cases hpid : pid = i
    · subst hpid
      rw [Hist.push_trace, log_did_self] at hp
      rcases List.mem_cons.mp hp with heq | hp
      · cases heq
        rcases exec_findOne hexec with ⟨-, ⟨msg, hr⟩ | hr⟩
        · cases hr
        · exact hs.stored id p (Except.ok.inj hr).symm
      · exact hs.read pid id p hp
    · rw [Hist.push_trace, log_cons_of_ne (e := .did pid o r h.world) hpid] at hp
      exact hs.read i id p hp

/-- **In every run the plans are evenly split.** -/
theorem evenlySplit_of_reachable {s : PlanState} (hr : system.Reachable (.init {}) s) {id : Uuid}
    (hrow : s.hist.world.plans.row id = some p) : EvenlySplit p := by
  have hall : AllSplit s.hist := by
    have hempty : AllSplit ⟨{}, []⟩ := by
      refine ⟨fun id p hp => ?_, fun pid id p hp => ?_⟩
      · cases hp
      · cases hp
    exact hist_invariant (I := AllSplit) follows_next hempty
      (fun h h' _ _ hs hstep _ => hs.step hstep) hr
  exact hall.stored id p hrow

/-! ### What the amounts add up to -/

/-- The amounts of a plan whose total is not negative. -/
theorem EvenlySplit.amounts_eq (h : EvenlySplit p) (htotal : bigInt? p.totalAmount = some total)
    (hnonneg : 0 ≤ total) :
    p.amounts = some (List.replicate p.numInstallments.toNat (total / p.numInstallments)) := by
  obtain ⟨total', htotal', hamounts⟩ := h.amounts
  obtain rfl : total = total' := Option.some.inj (htotal.symm.trans htotal')
  have hpositive := h.positive
  have hread : bigInt? s!"{total.tdiv p.numInstallments}" = some (total / p.numInstallments) := by
    have hquotient : 0 ≤ total / p.numInstallments := Int.ediv_nonneg hnonneg (by omega)
    obtain ⟨k, hk⟩ := Int.eq_ofNat_of_zero_le hquotient
    rw [Int.tdiv_eq_ediv_of_nonneg hnonneg, hk]
    exact bigInt?_natCast k
  rw [InstallmentPaymentPlan.amounts, hamounts]
  generalize p.numInstallments.toNat = n
  induction n with
  | zero => rfl
  | succ n ih =>
    rw [List.replicate_succ, List.replicate_succ, List.mapM_cons, ih, hread]
    rfl

/-- What the first instalments amount to. -/
theorem sum_take_replicate {n k : ℕ} (hk : n ≤ k) (a : ℤ) :
    ((List.replicate n a).take k).sum = n * a := by
  rw [List.take_of_length_le (by rwa [List.length_replicate]), List.sum_replicate, nsmul_eq_mul]

/-- **The amounts of a stored plan add up exactly when the number of instalments divides the
total.** -/
theorem addsUp_iff {s : PlanState} (hr : system.Reachable (.init {}) s) {id : Uuid}
    (hrow : s.hist.world.plans.row id = some p) (htotal : bigInt? p.totalAmount = some total)
    (hnonneg : 0 ≤ total) :
    (∃ amounts, p.amounts = some amounts ∧ AddsUp p total amounts) ↔ p.numInstallments ∣ total := by
  have hsplit := evenlySplit_of_reachable hr hrow
  have hamounts := hsplit.amounts_eq htotal hnonneg
  have hpositive := hsplit.positive
  have hcount : ((p.numInstallments.toNat : ℕ) : ℤ) = p.numInstallments := by omega
  have hsum : (List.replicate p.numInstallments.toNat (total / p.numInstallments)).sum =
      p.numInstallments * (total / p.numInstallments) := by
    rw [List.sum_replicate, nsmul_eq_mul, hcount]
  constructor
  · rintro ⟨amounts, ha, hadds⟩
    obtain rfl := Option.some.inj (hamounts.symm.trans ha)
    exact ⟨_, hadds.sum.symm.trans hsum⟩
  · intro hdvd
    have hexact := Int.mul_ediv_cancel' hdvd
    refine ⟨_, hamounts, ?_, fun a ha => ?_, fun a ha b hb => ?_, hsum.trans hexact, fun hdone => ?_⟩
    · rw [List.length_replicate, hcount]
    · rw [List.eq_of_mem_replicate ha]
      exact Int.ediv_nonneg hnonneg (by omega)
    · rw [List.eq_of_mem_replicate ha, List.eq_of_mem_replicate hb]
      omega
    · have hall := hsplit.settled hdone
      rw [InstallmentPaymentPlan.collected, hamounts, Option.map_some,
        sum_take_replicate (by omega), hcount, hexact]

/-! ### A plan of 100 -/

namespace Sample

/-- A plan of 100 in two or three instalments. -/
def instalments (n : ℤ) : List (Move Choice Call) :=
  [.start (.createInstallmentPlan 1 2 "USDC" "100" n 10 1000), .run 0 .done]

/-- The plan is stored with these amounts. -/
def storedAs (n : ℤ) (amounts : List String) (s : PlanState) : Bool :=
  s.hist.world.plans.row 0 = some (newPlan 1 2 "USDC" "100" n 10 1000 amounts)

end Sample

theorem addsUp_sample : ∃ amounts,
    (newPlan 1 2 "USDC" "100" 2 10 1000 ["50", "50"]).amounts = some amounts ∧
      AddsUp (newPlan 1 2 "USDC" "100" 2 10 1000 ["50", "50"]) 100 amounts := by
  obtain ⟨s, hr, hstored⟩ := System.exists_of_replay system (fun _ _ => True) (.init {})
    (Sample.instalments 2) (Sample.storedAs 2 ["50", "50"]) (by decide +kernel)
  exact (addsUp_iff hr (of_decide_eq_true hstored) (by decide) (by decide)).mpr (by decide)

/-- Three instalments of 100 are 33 each. -/
theorem not_addsUp : ¬ ∀ (s : PlanState), system.Reachable (.init {}) s → ∀ id p,
    s.hist.world.plans.row id = some p → ∀ total, bigInt? p.totalAmount = some total → 0 ≤ total →
      ∃ amounts, p.amounts = some amounts ∧ AddsUp p total amounts := by
  obtain ⟨s, hr, hstored⟩ := System.exists_of_replay system (fun _ _ => True) (.init {})
    (Sample.instalments 3) (Sample.storedAs 3 ["33", "33", "33"]) (by decide +kernel)
  intro hall
  obtain ⟨amounts, hamounts, hadds⟩ := hall s hr 0 _ (of_decide_eq_true hstored) 100 (by decide)
    (by decide)
  obtain rfl : [33, 33, 33] = amounts := Option.some.inj hamounts
  exact absurd hadds.sum (by decide)

end Ahjoor.Payments
