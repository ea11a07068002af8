import Ahjoor.Async.Recording
import Ahjoor.Penalties.PenaltyService
import Mathlib.Algebra.BigOperators.Group.List.Basic

/-!
# Deductions from a contribution

`deductPenaltiesFromContribution` turns the pending penalties of a user `PAID` one by one and
returns their total. It is given the amount of the contribution and does not look at it, and what
it has saved before a failure stays. So a deduction is backed by money exactly when the
contribution covers all the pending penalties and no step fails after the first save; besides, the
total must not lose a digit in `decimal.js`.
-/

namespace Ahjoor.Penalties

open Async Store StellarService

/-! ### What is claimed -/

/-- The amount as a number. -/
def Penalty.value (p : Penalty) : ℚ := (Decimal.ofString? p.amount).getD 0

/-- What the penalties amount to. -/
def owedTotal (ps : List Penalty) : ℚ := (ps.map Penalty.value).sum

/-- The amount is a number, and the total is at most that. -/
def AtMost (total : ℚ) (amount : String) : Prop := ∃ a ∈ Decimal.ofString? amount, total ≤ a

instance (total : ℚ) (amount : String) : Decidable (AtMost total amount) :=
  inferInstanceAs (Decidable (∃ a ∈ Decimal.ofString? amount, total ≤ a))

/-- The penalties that are reported as applied. -/
def reported : Except Exc (String × List Penalty) → List Penalty
  | .ok (_, penaltiesApplied) => penaltiesApplied
  | .error _ => []

/-- The penalty has turned `PAID`. -/
def TurnedPaid (t t' : Table Penalty) (id : Uuid) : Prop :=
  (∃ p ∈ t.row id, p.status ≠ .paid) ∧ ∃ p ∈ t'.row id, p.status = .paid

/-- **Backed by money**: the penalties reported are those that have turned `PAID`, by due date, the
others are as before, and the amount deducted is theirs and at most what is contributed. -/
structure BackedByMoney (contributionAmount : String) (t t' : Table Penalty)
    (x : Except Exc (String × List Penalty)) : Prop where
  turned : ∀ id, TurnedPaid t t' id ↔ ∃ p ∈ reported x, p.id = id
  others : ∀ id, ¬ TurnedPaid t t' id → t'.row id = t.row id
  ordered : (reported x).Pairwise fun p q => p.dueAt ≤ q.dueAt
  deducted : ∀ deductedAmount penaltiesApplied, x = .ok (deductedAmount, penaltiesApplied) →
    Decimal.ofString? deductedAmount = some (owedTotal penaltiesApplied) ∧
      AtMost (owedTotal penaltiesApplied) contributionAmount

/-! ### The condition -/

/-- The operation has its effect, whatever becomes of the reply. -/
def Choice.takesEffect : Choice → Bool
  | done | lost _ => true
  | _ => false

def Choice.isFailure : Choice → Bool
  | fails _ | lost _ => true
  | _ => false

def Op.isSave : Op → Bool
  | db (.savePenalty _) => true
  | _ => false

/-- A save has taken effect. -/
def TookEffect (ds : Record Op Choice) : Prop :=
  ∃ d ∈ ds, d.1.isSave = true ∧ d.2.takesEffect = true

instance (ds : Record Op Choice) : Decidable (TookEffect ds) :=
  inferInstanceAs (Decidable (∃ d ∈ ds, _))

/-- The call does not get to its end: an operation fails, or an amount is not a number. -/
def Breaks (pending : List Penalty) (ds : Record Op Choice) : Prop :=
  (∃ d ∈ ds, d.2.isFailure = true) ∨ ∃ p ∈ pending, Decimal.ofString? p.amount = none

instance (pending : List Penalty) (ds : Record Op Choice) : Decidable (Breaks pending ds) :=
  inferInstanceAs (Decidable ((∃ d ∈ ds, _) ∨ ∃ p ∈ pending, _))

/-- The sum as `decimal.js` computes it. -/
def decimalSum (total : ℚ) (ps : List Penalty) : ℚ :=
  ps.foldl (fun total p => Decimal.plus precision total p.value) total

/-- No digit of the sum is lost. -/
def Exact (ps : List Penalty) : Prop := Decimal.atScale 7 (decimalSum 0 ps) = owedTotal ps

instance (ps : List Penalty) : Decidable (Exact ps) := inferInstanceAs (Decidable (_ = _))

/-- **The contribution covers** the pending penalties; or the call breaks before the first save. -/
def Covered (contributionAmount : String) (pending : List Penalty) (ds : Record Op Choice) :
    Prop :=
  if Breaks pending ds then ¬ TookEffect ds
  else Exact pending ∧ AtMost (owedTotal pending) contributionAmount

instance (contributionAmount : String) (pending : List Penalty) (ds : Record Op Choice) :
    Decidable (Covered contributionAmount pending ds) :=
  inferInstanceAs (Decidable (if Breaks pending ds then _ else _ ∧ _))

/-! ### Paid copies -/

/-- The penalty as it is saved. -/
def PaidFrom (p q : Penalty) : Prop :=
  ∃ now, p = { q with status := .paid, paidAt := some now }

variable {t : Table Penalty} {p q : Penalty} {ps qs : List Penalty}

theorem forall₂_paidFrom_value (h : List.Forall₂ PaidFrom ps qs) :
    ps.map Penalty.value = qs.map Penalty.value := by
  induction h with
  | nil => rfl
  | cons hpq _ ih =>
    obtain ⟨now, rfl⟩ := hpq
    exact congrArg₂ List.cons rfl ih

theorem forall₂_paidFrom_dueAt (h : List.Forall₂ PaidFrom ps qs) :
    ps.map Penalty.dueAt = qs.map Penalty.dueAt := by
  induction h with
  | nil => rfl
  | cons hpq _ ih =>
    obtain ⟨now, rfl⟩ := hpq
    exact congrArg₂ List.cons rfl ih

theorem pairwise_dueAt_of_forall₂ (h : List.Forall₂ PaidFrom ps qs) :
    (ps.Pairwise fun p q => p.dueAt ≤ q.dueAt) ↔ qs.Pairwise fun p q => p.dueAt ≤ q.dueAt := by
  rw [← List.pairwise_map (f := Penalty.dueAt) (R := (· ≤ ·)),
    ← List.pairwise_map (f := Penalty.dueAt) (R := (· ≤ ·)), forall₂_paidFrom_dueAt h]

theorem pairwise_pending (t : Table Penalty) (userId groupId : Uuid) :
    (pendingPenalties t userId groupId).Pairwise fun p q => p.dueAt ≤ q.dueAt := by
  have : Std.Total fun a b : Penalty => a.dueAt ≤ b.dueAt := ⟨fun a b => le_total a.dueAt b.dueAt⟩
  have : IsTrans Penalty fun a b => a.dueAt ≤ b.dueAt := ⟨fun _ _ _ => le_trans⟩
  exact List.pairwise_insertionSort ..

/-- The pending penalties are stored as `PENDING`. -/
theorem row_of_mem_pending {userId groupId : Uuid} (h : p ∈ pendingPenalties t userId groupId) :
    t.row p.id = some p ∧ p.status = .pending := by
  obtain ⟨hrow, hsel⟩ := t.mem_filter.mp ((List.mem_insertionSort _).mp h)
  exact ⟨hrow, (of_decide_eq_true hsel).2.2⟩

/-- **Saving paid copies** of pending penalties turns these `PAID` and nothing else. -/
theorem turnedPaid_putAll (h : ∀ p ∈ ps, p.status = .paid ∧ ∃ q ∈ t.row p.id, q.status = .pending)
    (id : Uuid) : TurnedPaid t (t.putAll ps) id ↔ ∃ p ∈ ps, p.id = id := by
  constructor
  · rintro ⟨⟨q, hq, hstatus⟩, p, hp, hpaid⟩
    by_contra hnone
    have hsame : (t.putAll ps).row id = t.row id :=
      Table.row_putAll_of_ne fun p hp heq => hnone ⟨p, hp, heq⟩
    rw [hsame] at hp
    obtain rfl := Option.some.inj (hp.symm.trans hq)
    exact hstatus hpaid
  · rintro ⟨p, hp, rfl⟩
    obtain ⟨-, q, hq, hpending⟩ := h p hp
    obtain ⟨p', hp', hrow⟩ := Table.exists_row_putAll (t := t) ⟨p, hp, rfl⟩
    refine ⟨⟨q, hq, ?_⟩, p', hrow, (h p' hp').1⟩
    rw [hpending]
    exact PenaltyStatus.noConfusion

theorem row_putAll_of_not_turnedPaid
    (h : ∀ p ∈ ps, p.status = .paid ∧ ∃ q ∈ t.row p.id, q.status = .pending) {id : Uuid}
    (hid : ¬ TurnedPaid t (t.putAll ps) id) : (t.putAll ps).row id = t.row id :=
  Table.row_putAll_of_ne fun p hp heq => hid ((turnedPaid_putAll h id).mpr ⟨p, hp, heq⟩)

/-! ### The run -/

section Run

variable {w w₁ : World} {ds : Record Op Choice} {pending todo paid : List Penalty} {pid : ℕ}
  {userId groupId : Uuid}

/-- The copies that have been saved are those of pending penalties. -/
structure Deducting (w : World) (pending paid : List Penalty) (x : World × Record Op Choice) :
    Prop where
  table : x.1.penalties = w.penalties.putAll paid
  copies : ∀ p ∈ paid, ∃ q ∈ pending, PaidFrom p q
  saved : TookEffect x.2 ↔ paid ≠ []

/-- What is left when the call breaks. -/
def Broken (w : World) (pending : List Penalty) (x : World × Record Op Choice) : Prop :=
  Breaks pending x.2 ∧ ∃ paid, Deducting w pending paid x

/-- An operation that saves nothing. -/
theorem Deducting.other (h : Deducting w pending paid (w₁, ds)) {o : Op} {choice : Choice}
    (ho : o.isSave = false ∨ choice.takesEffect = false) {w₂ : World}
    (hw₂ : w₂.penalties = w₁.penalties) :
    Deducting w pending paid (w₂, (o, choice) :: ds) := by
  refine ⟨hw₂.trans h.table, h.copies, Iff.trans ?_ h.saved⟩
  simp only [TookEffect, List.exists_mem_cons_iff]
  refine or_iff_right fun htook => ?_
  rcases ho with ho | ho
  · rw [ho] at htook
    cases htook.1
  · rw [ho] at htook
    cases htook.2

/-- A copy is saved. -/
theorem Deducting.save (h : Deducting w pending paid (w₁, ds)) {choice : Choice}
    (heffect : choice.takesEffect = true) (hq : q ∈ pending) (hp : PaidFrom p q) :
    Deducting w pending (paid ++ [p]) ({ w₁ with penalties := w₁.penalties.put p },
      (.db (.savePenalty p), choice) :: ds) where
  table := by
    rw [h.table, Table.putAll, Table.putAll, List.foldl_append]
    rfl
  copies p' hp' := by
    rcases List.mem_append.mp hp' with hp' | hp'
    · exact h.copies p' hp'
    · obtain rfl := List.mem_singleton.mp hp'
      exact ⟨q, hq, hp⟩
  saved := iff_of_true ⟨_, List.mem_cons_self, rfl, heffect⟩ (List.append_ne_nil_of_right_ne_nil _ (List.cons_ne_nil _ _))

theorem exec_now {choice : Choice} {now : ℤ} {w₂ : World}
    (h : exec .now pid choice w₁ = some (now, w₂)) :
    w₂.penalties = w₁.penalties ∧ choice.isFailure = false := by
  cases choice with
  | time t =>
    rw [exec] at h
    split at h
    next =>
      cases h
      exact ⟨rfl, rfl⟩
    next => cases h
  | _ => cases h

/-- The loop saves copies of the penalties one by one, until it breaks. -/
theorem solo_deductPenalties {total : ℚ} (htodo : todo ⊆ pending)
    (h : Deducting w pending paid (w₁, ds)) (hds : ∀ d ∈ ds, d.2.isFailure = false) :
    Solo (recording exec) pid (deductPenalties total todo)
      (fun r _ x => List.Forall₂ PaidFrom r.2 todo ∧ r.1 = decimalSum total todo ∧
        Deducting w pending (paid ++ r.2) x ∧ (∀ d ∈ x.2, d.2.isFailure = false) ∧
        ∀ p ∈ todo, Decimal.ofString? p.amount ≠ none)
      (fun _ _ => Broken w pending) () (w₁, ds) := by
  induction todo generalizing total paid w₁ ds with
  | nil =>
    rw [← List.append_nil paid] at h
    exact Solo.pure ⟨.nil, rfl, h, hds, List.forall_mem_nil _⟩
  | cons q todo ih =>
    obtain ⟨hq, hrest⟩ := List.cons_subset.mp htodo
    cases hvalue : Decimal.ofString? q.amount with
    | none =>
      have hthrow : newDecimal q.amount =
          .error (.error s!"[DecimalError] Invalid argument: {q.amount}") := by
        rw [newDecimal, hvalue]
      refine Solo.bind ?_
      rw [hthrow]
      exact Solo.throw ⟨.inr ⟨q, hq, hvalue⟩, paid, h⟩
    | some v =>
    have hnumber : newDecimal q.amount = .ok v := by rw [newDecimal, hvalue]
    refine Solo.bind ?_
    rw [hnumber]
    refine Solo.pure (Solo.bind (Solo.perform_recording fun choice now w₂ hexec => ?_))
    obtain ⟨hpenalties, hfailure⟩ := exec_now hexec
    have hnow : Deducting w pending paid (w₂, (.now, choice) :: ds) := h.other (.inl rfl) hpenalties
    have hcopy : PaidFrom { q with status := .paid, paidAt := some now } q := ⟨now, rfl⟩
    refine Solo.bind (Solo.call_recording fun choice r w₃ hexec => ?_)
    cases choice with
    | done =>
      cases hexec
      refine Solo.bind ((ih hrest (hnow.save rfl hq hcopy) ?_).mono ?_ fun _ _ _ hx => hx)
      · exact List.forall_mem_cons.mpr ⟨rfl, List.forall_mem_cons.mpr ⟨hfailure, hds⟩⟩
      · rintro ⟨total', applied⟩ _ x ⟨hcopies, htotal, hx, hx', hvalues⟩
        refine Solo.pure ⟨.cons hcopy hcopies, ?_, ?_, hx', ?_⟩
        · have hq : q.value = v := by rw [Penalty.value, hvalue, Option.getD_some]
          rw [htotal, ← hq]
          rfl
        · rwa [List.append_assoc] at hx
        · exact List.forall_mem_cons.mpr ⟨by rw [hvalue]; exact Option.some_ne_none v, hvalues⟩
    | fails message =>
      cases hexec
      exact ⟨.inl ⟨_, List.mem_cons_self, rfl⟩, paid, hnow.other (.inr rfl) rfl⟩
    | lost message =>
      cases hexec
      exact ⟨.inl ⟨_, List.mem_cons_self, rfl⟩, _, hnow.save rfl hq hcopy⟩
    | time t => cases hexec

/-- **The run**: the call comes to its end with all pending penalties saved, or it breaks. -/
theorem solo_deductPenaltiesFromContribution (contributionAmount : String) :
    Solo (recording exec) pid
      (deductPenaltiesFromContribution userId groupId contributionAmount)
      (fun r _ x => List.Forall₂ PaidFrom r.2 (pendingPenalties w.penalties userId groupId) ∧
        Decimal.ofString? r.1 = some (Decimal.atScale 7
          (decimalSum 0 (pendingPenalties w.penalties userId groupId))) ∧
        Deducting w (pendingPenalties w.penalties userId groupId) r.2 x ∧
        ¬ Breaks (pendingPenalties w.penalties userId groupId) x.2)
      (fun _ _ => Broken w (pendingPenalties w.penalties userId groupId)) () (w, []) := by
  have hstart : Deducting w (pendingPenalties w.penalties userId groupId) [] (w, []) :=
    ⟨rfl, List.forall_mem_nil _, iff_of_false (by simp [TookEffect]) (by simp)⟩
  refine Solo.bind (Solo.call_recording fun choice r w₁ hexec => ?_)
  have hread : ∀ choice, Deducting w (pendingPenalties w.penalties userId groupId) []
      (w, [(.db (.findPending userId groupId), choice)]) := fun choice =>
    hstart.other (.inl rfl) rfl
  cases choice with
  | fails message =>
    cases hexec
    exact ⟨.inl ⟨_, List.mem_cons_self, rfl⟩, [], hread _⟩
  | lost message =>
    cases hexec
    exact ⟨.inl ⟨_, List.mem_cons_self, rfl⟩, [], hread _⟩
  | time t => cases hexec
  | done =>
  cases hexec
  refine Solo.ite (fun hnone => ?_) fun _ => ?_
  · have hpending : pendingPenalties w.penalties userId groupId = [] :=
      List.length_eq_zero_iff.mp hnone
    refine Solo.pure ⟨?_, ?_, hread .done, ?_⟩
    · rw [hpending]
      exact .nil
    · rw [hpending]
      decide +kernel
    · rw [hpending]
      simp [Breaks, Choice.isFailure]
  · refine Solo.bind ((solo_deductPenalties (List.Subset.refl _) (hread .done) ?_).mono ?_
      fun _ _ _ hx => hx)
    · exact List.forall_mem_singleton.mpr rfl
    · rintro ⟨total, applied⟩ _ x ⟨hcopies, htotal, hx, hx', hvalues⟩
      refine Solo.pure ⟨hcopies, ?_, hx, ?_⟩
      · rw [← htotal]
        exact Decimal.ofString?_toFixed 7 total
      · rintro (⟨d, hd, hfails⟩ | ⟨p, hp, hvalue⟩)
        · rw [hx' d hd] at hfails
          cases hfails
        · exact hvalues p hp hvalue

end Run

/-! ### The equivalence -/

section Equivalence

variable {w w' : World} {ds : Record Op Choice} {pid : ℕ} {userId groupId : Uuid}

/-- The penalties that have been saved have turned `PAID`, and the others are as before. -/
theorem Deducting.turned {x : World × Record Op Choice} {paid : List Penalty}
    (h : Deducting w (pendingPenalties w.penalties userId groupId) paid x) :
    ∀ p ∈ paid, p.status = .paid ∧ ∃ q ∈ w.penalties.row p.id, q.status = .pending := by
  intro p hp
  obtain ⟨q, hq, now, rfl⟩ := h.copies p hp
  obtain ⟨hrow, hpending⟩ := row_of_mem_pending hq
  exact ⟨rfl, q, hrow, hpending⟩

/-- **A deduction is backed by money exactly when the contribution covers it.** -/
theorem backedByMoney_iff {contributionAmount : String} {x : Except Exc (String × List Penalty)}
    (h : Alone (recording exec) pid
      (deductPenaltiesFromContribution userId groupId contributionAmount ()) (w, []) (x, ())
      (w', ds)) :
    BackedByMoney contributionAmount w.penalties w'.penalties x ↔
      Covered contributionAmount (pendingPenalties w.penalties userId groupId) ds := by
  have hpost := solo_deductPenaltiesFromContribution contributionAmount x () (w', ds) h
  cases x with
  | error e =>
    obtain ⟨hbreaks, paid, hpaid⟩ := hpost
    rw [Covered, if_pos hbreaks, hpaid.saved, not_ne_iff]
    have htable : w'.penalties = w.penalties.putAll paid := hpaid.table
    constructor
    · intro hbacked
      refine List.eq_nil_iff_forall_not_mem.mpr fun p hp => ?_
      have hturned := (turnedPaid_putAll hpaid.turned p.id).mpr ⟨p, hp, rfl⟩
      rw [← htable] at hturned
      obtain ⟨q, hq, -⟩ := (hbacked.turned p.id).mp hturned
      cases hq
    · rintro rfl
      refine ⟨fun id => ?_, fun id _ => ?_, .nil, nofun⟩
      · rw [htable]
        exact turnedPaid_putAll hpaid.turned id
      · rw [htable]
        rfl
  | ok r =>
    obtain ⟨deductedAmount, applied⟩ := r
    obtain ⟨hcopies, hdeducted, hpaid, hbreaks⟩ := hpost
    have htable : w'.penalties = w.penalties.putAll applied := hpaid.table
    have htotal : owedTotal applied = owedTotal (pendingPenalties w.penalties userId groupId) :=
      congrArg List.sum (forall₂_paidFrom_value hcopies)
    rw [Covered, if_neg hbreaks, Exact, ← htotal]
    constructor
    · intro hbacked
      obtain ⟨hsum, hle⟩ := hbacked.deducted _ _ rfl
      exact ⟨Option.some.inj (hdeducted.symm.trans hsum), hle⟩
    · rintro ⟨hsum, hle⟩
      refine ⟨fun id => ?_, fun id hid => ?_, ?_, ?_⟩
      · rw [htable]
        exact turnedPaid_putAll hpaid.turned id
      · rw [htable] at hid ⊢
        exact row_putAll_of_not_turnedPaid hpaid.turned hid
      · exact (pairwise_dueAt_of_forall₂ hcopies).mpr (pairwise_pending _ userId groupId)
      · rintro _ _ heq
        cases heq
        exact ⟨hdeducted.trans (congrArg some hsum), hle⟩

end Equivalence

/-! ### Sums that lose nothing -/

/-- The sum of amounts with seven decimals, as long as twenty digits suffice. -/
theorem decimalSum_eq {total : ℚ} {ps : List Penalty} {n : ℕ} (hn : total * 10 ^ 7 = n)
    (h : ∀ p ∈ ps, ∃ m : ℕ, p.value * 10 ^ 7 = m) (hlt : total + owedTotal ps < 10 ^ 13) :
    decimalSum total ps = total + owedTotal ps ∧
      ∃ m : ℕ, (total + owedTotal ps) * 10 ^ 7 = m := by
  induction ps generalizing total n with
  | nil =>
    rw [owedTotal, List.map_nil, List.sum_nil, add_zero]
    exact ⟨rfl, n, hn⟩
  | cons p ps ih =>
    obtain ⟨⟨m, hm⟩, hps⟩ := List.forall_mem_cons.mp h
    have htotal : total + owedTotal (p :: ps) = total + p.value + owedTotal ps := by
      rw [owedTotal, List.map_cons, List.sum_cons, ← add_assoc]
      rfl
    have hscaled : (total + p.value) * 10 ^ 7 = ((n + m : ℕ) : ℚ) := by
      rw [add_mul, hn, hm, Nat.cast_add]
    have hnonneg : 0 ≤ owedTotal ps := by
      refine List.sum_nonneg fun v hv => ?_
      obtain ⟨q, hq, rfl⟩ := List.mem_map.mp hv
      obtain ⟨k, hk⟩ := hps q hq
      have hk0 : (0 : ℚ) ≤ k := Nat.cast_nonneg k
      linarith
    rw [htotal] at hlt ⊢
    have hdigits : n + m < 10 ^ 20 := by
      have hq : ((n + m : ℕ) : ℚ) < 10 ^ 20 := by
        rw [← hscaled]
        linarith
      exact_mod_cast hq
    have hplus : Decimal.plus precision total p.value = total + p.value := by
      refine Decimal.significant_of_representable ⟨(n + m : ℕ), 7, ?_, ?_⟩
      · rw [Int.cast_natCast, ← hscaled]
        rfl
      · rw [Nat.abs_cast]
        exact_mod_cast hdigits
    have hsum := ih hscaled hps hlt
    rw [decimalSum, List.foldl_cons, hplus]
    exact hsum

/-- **Amounts with seven decimals** lose no digit as long as the total is below 10^13. -/
theorem exact_of_places {ps : List Penalty} (h : ∀ p ∈ ps, ∃ m : ℕ, p.value * 10 ^ 7 = m)
    (hlt : owedTotal ps < 10 ^ 13) : Exact ps := by
  have hzero : (0 : ℚ) * 10 ^ 7 = (0 : ℕ) := by norm_num
  obtain ⟨hsum, m, hm⟩ := decimalSum_eq hzero h (by linarith)
  rw [zero_add] at hsum hm
  rw [Exact, hsum]
  exact Decimal.atScale_of_eq_intCast (z := m) (by exact_mod_cast hm)

/-! ### A contribution that is too small -/

namespace Sample

/-- A penalty of five for a round. -/
def fine (roundNumber dueAt : ℤ) : Penalty where
  id := 0
  groupId := 0
  userId := 1
  roundNumber
  amount := "5.0000000"
  dueAt

/-- The member owes two of them. -/
def owing : World where
  penalties := ((Table.empty.insert (fine 2 20)).2.insert (fine 1 10)).2

/-- The choices with which both are saved. -/
def deducted : List Choice := [.done, .time 30, .done, .time 30, .done]

/-- What has become of the deduction. -/
abbrev Deduction := (Except Exc (String × List Penalty) × Unit) × (World × Record Op Choice)

/-- Penalties are reported, and the contribution covers them. -/
def coveredBy (contributionAmount : String) (x : Deduction) : Bool :=
  (reported x.1.1).length = 2 ∧
    Covered contributionAmount (pendingPenalties owing.penalties 1 0) x.2.2

/-- More is deducted than is contributed. -/
def overdrawn (contributionAmount : String) (x : Deduction) : Bool :=
  x.1.1.isOk = true ∧ ¬ AtMost (owedTotal (reported x.1.1)) contributionAmount

end Sample

open Ahjoor.Penalties.Sample

/-- Two penalties are paid from a contribution that is large enough. -/
theorem backedByMoney_sample : ∃ x w' ds,
    Alone (recording exec) 0 (deductPenaltiesFromContribution 1 0 "100" ()) (owing, []) (x, ())
      (w', ds) ∧ (reported x).length = 2 ∧
        BackedByMoney "100" owing.penalties w'.penalties x := by
  obtain ⟨⟨⟨x, _⟩, w', ds⟩, hreplay, hcovered⟩ := System.exists_of_any
    (x := (deductPenaltiesFromContribution 1 0 "100" ()).replay (recording exec) 0 deducted
      (owing, []))
    (p := coveredBy "100") (by decide +kernel)
  obtain ⟨hlength, hcovered⟩ := of_decide_eq_true hcovered
  have halone := alone_of_replay hreplay
  exact ⟨x, w', ds, halone, hlength, (backedByMoney_iff halone).mpr hcovered⟩

/-- Ten is deducted from a contribution of one. -/
theorem not_backedByMoney : ¬ ∀ (userId groupId : Uuid) (contributionAmount : String) (pid : ℕ)
    (w : World) x w' ds, Alone (recording exec) pid
      (deductPenaltiesFromContribution userId groupId contributionAmount ()) (w, []) (x, ())
      (w', ds) → BackedByMoney contributionAmount w.penalties w'.penalties x := by
  intro h
  obtain ⟨⟨⟨x, _⟩, w', ds⟩, hreplay, hoverdrawn⟩ := System.exists_of_any
    (x := (deductPenaltiesFromContribution 1 0 "1" ()).replay (recording exec) 0 deducted
      (owing, []))
    (p := overdrawn "1") (by decide +kernel)
  obtain ⟨hok, hover⟩ := of_decide_eq_true hoverdrawn
  have hbacked := h 1 0 "1" 0 owing x w' ds (alone_of_replay hreplay)
  cases x with
  | error => cases hok
  | ok r => exact hover (hbacked.deducted r.1 r.2 rfl).2

end Ahjoor.Penalties
