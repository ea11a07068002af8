import Ahjoor.Async.Solo
import Ahjoor.Penalties.Assessment

/-!
# Penalties stay owed until they are settled

What is owed is decided in two places by the status `PENDING` alone: `distributePayout` counts the
pending penalties of the recipient, and a deduction takes the pending ones. A penalty that has been
assessed stays pending until it is paid or waived, unless it is disputed: then neither sees it any
more, also when the dispute is rejected.
-/

namespace Ahjoor.Penalties

open Async Store StellarService

/-! ### What the payout service sees -/

/-- The columns of a penalty that the payout service uses. -/
def Penalty.row (p : Penalty) : Ahjoor.Penalty where
  id := p.id
  groupId := p.groupId
  userId := p.userId
  status := p.status

/-- The penalties as the payout service has them. -/
def payoutView (t : Table Penalty) : Table Ahjoor.Penalty := t.map Penalty.row fun _ => rfl

/-- **The payout is blocked**: in no state of the other tables does `distributePayout` get past its
checks, in whatever round, with that user as the recipient. -/
def BlocksPayout (t : Table Penalty) (userId groupId : Uuid) : Prop :=
  ∀ (w : Ahjoor.World) (pid : ℕ) (round : ℤ), w.db.penalties = payoutView t →
    ∀ found w', Alone Ahjoor.exec pid
      (PayoutService.findRecipient groupId round () : Prog Ahjoor.Op.Ret _) w (.ok found, ()) w' →
        found.2.2.userId ≠ userId

section Payout

variable {w : Ahjoor.World} {pid : ℕ} {α : Type}

/-- A read outside a transaction. -/
theorem solo_query {q : Ahjoor.Query} {a : q.Ret} {Q : q.Ret → Unit → Ahjoor.World → Prop}
    (hq : q.eval w.db = (.ok a, w.db)) (h : Q a () w) :
    Solo Ahjoor.exec pid (query q : Ahjoor.Service Unit q.Ret) Q (fun _ _ _ => True) () w := by
  refine Solo.call fun choice r w' hexec => ?_
  cases choice with
  | done =>
    rw [Ahjoor.exec] at hexec
    split at hexec
    · cases hexec
    · rw [hq] at hexec
      cases hexec
      exact h
  | fails msg =>
    cases hexec
    trivial
  | lost msg =>
    rw [Ahjoor.exec] at hexec
    split at hexec
    · cases hexec
    · cases hexec
      trivial
  | _ => cases hexec

theorem solo_throwIf {c : Bool} {e : Exc} {Q : Unit → Unit → Ahjoor.World → Prop} (h : Q () () w) :
    Solo Ahjoor.exec pid (throwIf c e : Ahjoor.Service Unit Unit) Q (fun _ _ _ => True) () w := by
  cases c with
  | true => exact Solo.throw trivial
  | false => exact Solo.pure h

theorem solo_orThrow {v : Option α} {e : Exc} {Q : α → Unit → Ahjoor.World → Prop}
    (h : ∀ a, Q a () w) :
    Solo Ahjoor.exec pid (orThrow v e : Ahjoor.Service Unit α) Q (fun _ _ _ => True) () w := by
  cases v with
  | some a => exact Solo.pure (h a)
  | none => exact Solo.throw trivial

variable {t : Table Penalty} {userId groupId : Uuid}

/-- A pending penalty is counted. -/
theorem count_pos {p : Penalty} (hp : t.row p.id = some p) (hstatus : p.status = .pending) :
    0 < ((payoutView t).filter fun p' => p'.userId == p.userId && p'.groupId == p.groupId &&
      [PenaltyStatus.pending].contains p'.status).length := by
  refine List.length_pos_of_mem (a := p.row) (Table.mem_filter _ |>.mpr ⟨?_, ?_⟩)
  · change (t.row p.id).map Penalty.row = _
    rw [hp]
    rfl
  · simp [Penalty.row, hstatus]

/-- **A pending penalty blocks** the payout of its debtor. -/
theorem blocksPayout_of_pending {p : Penalty} (hp : t.row p.id = some p)
    (hstatus : p.status = .pending) : BlocksPayout t p.userId p.groupId := by
  intro w pid round hview
  have hsolo : Solo Ahjoor.exec pid (PayoutService.findRecipient p.groupId round)
      (fun found _ _ => found.2.2.userId ≠ p.userId) (fun _ _ _ => True) () w := by
    refine Solo.bind (solo_query rfl (Solo.bind (solo_orThrow fun group => ?_)))
    refine Solo.bind (solo_throwIf (Solo.bind (solo_throwIf ?_)))
    refine Solo.bind (solo_query rfl (Solo.bind (solo_orThrow fun recipient => ?_)))
    refine Solo.bind (solo_throwIf (Solo.bind (solo_query rfl ?_)))
    refine Solo.ite (fun _ => Solo.bind ?_) fun hnone => Solo.pure fun huser => hnone ?_
    · refine Solo.call fun choice r w' hexec => ?_
      cases r with
      | ok a => exact Solo.throw trivial
      | error e => trivial
    · change recipient.userId = p.userId at huser
      rw [hview, huser]
      exact count_pos hp hstatus
  intro found w' halone
  exact hsolo (.ok found) () w' halone

/-- A read outside a transaction, when no transaction is open. -/
theorem possible_query {q : Ahjoor.Query} {a : q.Ret} {Q : q.Ret → Unit → Ahjoor.World → Prop}
    (hfree : w.sessions = []) (hq : q.eval w.db = (.ok a, w.db)) (h : Q a () w) :
    Possible Ahjoor.exec pid (query q : Ahjoor.Service Unit q.Ret) Q () w := by
  have hblocked : w.blocked pid q = false := by
    rw [Ahjoor.World.blocked, Ahjoor.World.sessionsWithout, hfree]
    rfl
  have hexec : Ahjoor.exec (.db q) pid .done w = some (.ok a, w) := by
    rw [Ahjoor.exec, hblocked, hq]
    rfl
  exact Possible.call .done hexec rfl h

/-- The tables of a group in which the user is next, with these penalties. -/
def dueNext (t : Table Penalty) (userId groupId : Uuid) : Database where
  groups := Table.empty.put
    { id := groupId
      name := "group"
      contractAddress := some "contract"
      adminWallet := "admin"
      contributionAmount := "100"
      status := .active
      currentRound := 1
      totalRounds := 1 }
  memberships := Table.empty.put
    { id := 0, groupId, userId, walletAddress := "wallet", payoutOrder := some 0 }
  payoutTransactions := .empty
  contributions := .empty
  penalties := payoutView t

/-- Without a pending penalty nothing is in the way. -/
theorem not_blocksPayout (hnone : ∀ p, t.row p.id = some p → p.status = .pending →
    p.userId = userId → p.groupId ≠ groupId) : ¬ BlocksPayout t userId groupId := by
  intro hblocks
  have hcount : ((payoutView t).filter fun p' => p'.userId == userId && p'.groupId == groupId &&
      [PenaltyStatus.pending].contains p'.status).length = 0 := by
    refine List.length_eq_zero_iff.mpr (List.eq_nil_iff_forall_not_mem.mpr fun p' hp' => ?_)
    obtain ⟨hrow, hselected⟩ := (Table.mem_filter _).mp hp'
    obtain ⟨p, hp, rfl⟩ := Option.map_eq_some_iff.mp hrow
    simp only [Bool.and_eq_true, beq_iff_eq, List.contains_cons, List.contains_nil, Bool.or_false]
      at hselected
    exact hnone p hp hselected.2 hselected.1.1 hselected.1.2
  have hgroup : (dueNext t userId groupId).groups.row groupId = some _ := Table.row_put_self ..
  have hmember : (dueNext t userId groupId).memberships.find? (MembershipWhere.selects
      { groupId := some groupId, payoutOrder := some 0 }) = some
        { id := 0, groupId, userId, walletAddress := "wallet", payoutOrder := some 0 } := by
    simp [dueNext, Table.find?, Table.rows, Table.put, Table.empty, MembershipWhere.selects, given,
      Entity.id, List.range_succ]
  have hpossible : Possible Ahjoor.exec 0 (PayoutService.findRecipient groupId 1)
      (fun found _ _ => found.2.2.userId = userId) () { db := dueNext t userId groupId } := by
    refine Possible.bind (possible_query rfl (congrArg (fun found => (Except.ok found, _)) hgroup) ?_)
    refine Possible.bind (Possible.pure (Possible.bind (Possible.pure (Possible.bind
      (Possible.pure ?_)))))
    refine Possible.bind (possible_query rfl (congrArg (fun found => (Except.ok found, _)) hmember) ?_)
    refine Possible.bind (Possible.pure (Possible.bind (Possible.pure ?_)))
    refine Possible.bind (possible_query rfl (congrArg (fun n : ℕ => (Except.ok n, _)) hcount) ?_)
    exact Possible.pure rfl
  obtain ⟨found, ⟨⟩, w', halone, huser⟩ := hpossible
  exact hblocks _ 0 1 rfl found w' halone huser

end Payout

/-! ### Runs -/

/-- The penalty is settled, or it blocks the payout of its debtor and can be deducted. -/
def Owed (t : Table Penalty) (p : Penalty) : Prop :=
  p.status = .paid ∨ p.status = .waived ∨
    BlocksPayout t p.userId p.groupId ∧ p ∈ pendingPenalties t p.userId p.groupId

/-- The penalty is not in dispute, and no dispute about it has been rejected. -/
def Penalty.Stands (p : Penalty) : Prop := p.status ≠ .disputed ∧ p.status ≠ .rejected

instance (p : Penalty) : Decidable p.Stands := inferInstanceAs (Decidable (_ ∧ _))

theorem Penalty.Stands.owed {t : Table Penalty} {p : Penalty} (h : p.Stands)
    (hp : t.row p.id = some p) : Owed t p := by
  obtain ⟨hdisputed, hrejected⟩ := h
  cases hstatus : p.status with
  | pending =>
    refine .inr (.inr ⟨blocksPayout_of_pending hp hstatus, ?_⟩)
    refine (List.perm_insertionSort ..).mem_iff.mpr ((Table.mem_filter _).mpr ⟨hp, ?_⟩)
    exact decide_eq_true ⟨rfl, rfl, hstatus⟩
  | paid => exact .inl hstatus
  | waived => exact .inr (.inl hstatus)
  | disputed => exact absurd hstatus hdisputed
  | rejected => exact absurd hstatus hrejected

/-- The operation puts the penalty with a key in dispute. -/
def Op.disputes (id : Uuid) : Op → Bool
  | .db (.savePenalty p) => p.id = id ∧ p.status = .disputed
  | _ => false

/-- The condition on a step: it does not put the penalty in dispute. -/
def Undisputed (id : Uuid) (_ h' : PenaltiesHist) : Prop :=
  match h'.trace with
  | .did _ o _ _ :: _ => o.disputes id = false
  | _ => True

/-- What holds of a penalty that nobody disputes. -/
structure StandsIn (id : Uuid) (h : PenaltiesHist) : Prop where
  known : Known h
  row : ∀ p, h.world.penalties.row id = some p → p.Stands
  shown : ∀ pid, ∀ q ∈ (log pid h.trace).flatMap shows, q.id = id → q.Stands

/-- A copy of the penalty is saved that was not rejected when it was read, nor is it disputed. -/
theorem Penalty.SavedFrom.stands {p q : Penalty} (hp : p.SavedFrom q) (hq : q.Stands)
    (hundisputed : p.status ≠ .disputed) : p.Stands := by
  refine ⟨hundisputed, fun hrejected => ?_⟩
  rcases hp.status with h | h | h | ⟨-, hdisputed⟩
  · exact absurd (h.symm.trans hrejected) nofun
  · exact absurd (h.symm.trans hrejected) nofun
  · exact hundisputed h
  · exact hq.1 hdisputed

theorem StandsIn.step {id : Uuid} {h h' : PenaltiesHist} (hi : StandsIn id h)
    (hs : HistStep system (fun _ => Saves) h h') (hok : Undisputed id h h') : StandsIn id h' := by
  obtain ⟨-, hknown⟩ := hi.known.step hs
  cases hs with
  | idle e he hlive =>
    exact ⟨hknown, hi.row, fun pid q hq => hi.shown pid q ((he pid h.trace) ▸ hq)⟩
  | did pid c o choice r w hstart hD hexec hlive =>
    have hshown : ∀ p, ∀ q ∈ (log p (h.push (.did pid o r h.world) w).trace).flatMap shows,
        q.id = id → q.Stands := by
      intro p q hq hid
      by_cases hp : pid = p
      · subst hp
        rw [Hist.push_trace, log_did_self, List.flatMap_cons] at hq
        rcases List.mem_append.mp hq with hq | hq
        · exact hi.row q (hid ▸ shows_of_exec hexec hq)
        · exact hi.shown pid q hq hid
      · rw [Hist.push_trace, log_cons_of_ne (e := .did pid o r h.world) hp] at hq
        exact hi.shown p q hq hid
    refine ⟨hknown, ?_, hshown⟩
    rw [Hist.push_world]
    rcases penalties_of_exec hexec with hsame | hwrite
    · rw [hsame]
      exact hi.row
    rw [hwrite]
    cases o with
    | db q =>
      cases q with
      | insertPenalty p =>
        intro p' hp'
        change (h.world.penalties.put { p with id := h.world.penalties.next }).row id = some p' at hp'
        rw [Table.row_put] at hp'
        split at hp'
        next =>
          obtain rfl := Option.some.inj hp'
          constructor <;> exact fun hstatus => absurd (hD.1.symm.trans hstatus) nofun
        next => exact hi.row p' hp'
      | savePenalty p =>
        intro p' hp'
        change (h.world.penalties.put p).row id = some p' at hp'
        rw [Table.row_put] at hp'
        split at hp'
        next hid =>
          obtain rfl := Option.some.inj hp'
          obtain ⟨q, hq, hpq⟩ := hD
          have hundisputed : ¬ (p.id = id ∧ p.status = .disputed) := of_decide_eq_false hok
          exact hpq.stands (hi.shown pid q hq (hpq.id.symm.trans hid.symm))
            fun hstatus => hundisputed ⟨hid.symm, hstatus⟩
        next => exact hi.row p' hp'
      | _ => exact hi.row
    | _ => exact hi.row

/-- **Penalties stay owed**: in every run of assessments, waivers, deductions and disputes, whatever
other services do in between, a penalty that nobody puts in dispute is owed until it is settled. -/
theorem owed_of_reachable {w : World} {id : Uuid}
    (hw : ∀ p, w.penalties.row id = some p → p.Stands) {s : PenaltiesState}
    (hs : system.ReachableWhen (Undisputed id) (.init w) s) {p : Penalty}
    (hp : s.hist.world.penalties.row id = some p) : Owed s.hist.world.penalties p := by
  have hstands : StandsIn id s.hist :=
    hist_invariant (D := fun _ => Saves) (Q := fun _ _ _ => True) follows_saves (I := StandsIn id)
      ⟨fun _ _ hq => absurd hq List.not_mem_nil, hw, fun _ _ hq => absurd hq List.not_mem_nil⟩
      (fun _ _ _ _ hi hstep hok => hi.step hstep hok) hs
  obtain rfl : p.id = id := s.hist.world.penalties.id_of_row hp
  exact (hstands.row p hp).owed hp

instance (id : Uuid) : DecidableRel (Undisputed id) := fun _ h' => by
  unfold Undisputed
  split <;> infer_instance

/-- An assessment leaves a penalty that is owed. -/
theorem owed_of_reachable_sample : ∃ s : PenaltiesState, ∃ p,
    system.ReachableWhen (Undisputed 0) (.init Sample.world) s ∧
      s.hist.world.penalties.row 0 = some p ∧ Owed s.hist.world.penalties p := by
  obtain ⟨s, hs, hrow⟩ := System.exists_of_replay system (Undisputed 0) (.init Sample.world)
    Sample.oneByOne (fun s => (s.hist.world.penalties.row 0).isSome) (by decide +kernel)
  obtain ⟨p, hp⟩ := Option.isSome_iff_exists.mp hrow
  exact ⟨s, p, hs, hp, owed_of_reachable (fun p hp => by cases hp) hs hp⟩

/-- A dispute releases the debtor. -/
theorem not_owed : ¬ ∀ (w : World) (id : Uuid), (∀ p, w.penalties.row id = some p → p.Stands) →
    ∀ s : PenaltiesState, system.Reachable (.init w) s → ∀ p,
      s.hist.world.penalties.row id = some p → Owed s.hist.world.penalties p := by
  intro hall
  obtain ⟨s, hs, hrows⟩ := System.exists_of_replay system (fun _ _ => True) (.init Sample.world)
    (Sample.oneByOne ++ .start (.disputePenalty 0 1 ⟨"late", none⟩) ::
      [.run 2 .done, .run 2 (.time 0), .run 2 .done])
    (fun s => s.hist.world.penalties.rows.all (·.status = .disputed) &&
      (s.hist.world.penalties.row 0).isSome) (by decide +kernel)
  obtain ⟨hdisputed, hrow⟩ := Bool.and_eq_true_iff.mp hrows
  obtain ⟨p, hp⟩ := Option.isSome_iff_exists.mp hrow
  have hstatus : ∀ q, s.hist.world.penalties.row q.id = some q → q.status = .disputed := fun q hq =>
    of_decide_eq_true (List.all_eq_true.mp hdisputed q (Table.mem_rows _ |>.mpr hq))
  have hid : p.id = 0 := s.hist.world.penalties.id_of_row hp
  have hnow : p.status = .disputed := hstatus p (hid.symm ▸ hp)
  rcases hall Sample.world 0 (fun p hp => by cases hp) s hs p hp with h | h | ⟨hblocks, -⟩
  · exact absurd (h.symm.trans hnow) nofun
  · exact absurd (h.symm.trans hnow) nofun
  · exact not_blocksPayout (fun q hq hpending => absurd (hpending.symm.trans (hstatus q hq)) nofun)
      hblocks

end Ahjoor.Penalties
