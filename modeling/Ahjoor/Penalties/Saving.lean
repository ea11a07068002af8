import Ahjoor.Async.Discipline
import Ahjoor.Penalties.PenaltyService

/-!
# How penalties are saved

A penalty is stored as `PENDING` after a lookup that has found none for its user, group and round;
it is saved later on by calls that have read it. So a penalty always stays what it is for, and a
`REJECTED` one has been `DISPUTED`.
-/

namespace Ahjoor.Penalties

open Async Store StellarService

/-! ### The discipline -/

/-- The penalties that a reply shows. -/
def shows : Entry Op.Ret → List Penalty
  | ⟨.db (.findPenalty _), .ok (some p)⟩ => [p]
  | ⟨.db (.findPending _ _), .ok ps⟩ => ps
  | _ => []

/-- What a call has looked for before an assessment, and whether it has found nothing. -/
def lookup : Entry Op.Ret → Option (Missed × Bool)
  | ⟨.db (.findPenaltyFor missed), .ok none⟩ => some (missed, true)
  | ⟨.db (.findPenaltyFor missed), _⟩ => some (missed, false)
  | _ => none

/-- The penalty is a changed copy of one that was read. -/
structure Penalty.SavedFrom (p q : Penalty) : Prop where
  id : p.id = q.id
  missed : p.missed = q.missed
  status : p.status = .paid ∨ p.status = .waived ∨ p.status = .disputed ∨
    p.status = .rejected ∧ q.status = .disputed

/-- The operations that follow from what a call has done and read. -/
def Saves (L : Log Op.Ret) : Op → Prop
  | .db (.insertPenalty p) =>
      p.status = .pending ∧ (L.filterMap lookup).head? = some (p.missed, true)
  | .db (.savePenalty p) => ∃ q ∈ L.flatMap shows, p.SavedFrom q
  | _ => True

variable {L : Log Op.Ret} {α : Type}

/-- What was shown stays so. -/
theorem mem_shown_cons {q : Penalty} (hq : q ∈ L.flatMap shows) (e : Entry Op.Ret) :
    q ∈ (e :: L).flatMap shows := by
  rw [List.flatMap_cons]
  exact List.mem_append_right _ hq

theorem obeys_db {q : Query} (hq : Saves L (.db q)) {Q : q.Ret → Unit → Log Op.Ret → Prop}
    (hok : ∀ a, Q a () (⟨.db q, .ok a⟩ :: L)) : Obeys Saves (db q) Q Anyhow () L := by
  refine Obeys.call hq fun r => ?_
  cases r with
  | ok a => exact hok a
  | error e => trivial

theorem obeys_read {q : Query} (hq : q.isRead = true) {Q : q.Ret → Unit → Log Op.Ret → Prop}
    (hok : ∀ a, Q a () (⟨.db q, .ok a⟩ :: L)) : Obeys Saves (db q) Q Anyhow () L := by
  refine obeys_db ?_ hok
  cases q with
  | insertPenalty p => cases hq
  | savePenalty p => cases hq
  | _ => trivial

/-- A changed copy of a penalty that was read. -/
theorem obeys_save {p q : Penalty} {Q : Unit → Unit → Log Op.Ret → Prop} (hq : q ∈ L.flatMap shows)
    (hp : p.SavedFrom q) (hok : Q () () (⟨.db (.savePenalty p), .ok ()⟩ :: L)) :
    Obeys Saves (db (.savePenalty p)) Q Anyhow () L :=
  obeys_db (q := .savePenalty p) ⟨q, hq, hp⟩ fun _ => hok

/-- What reaches something other than the database, at the end of a body. -/
theorem obeys_effect {o : Op} {out : o.Ret → Except Exc α} (ho : Saves L o) :
    Obeys Saves (Routine.call o out) Anyhow Anyhow () L := by
  refine Obeys.call ho fun r => ?_
  cases out r with
  | ok a => trivial
  | error e => trivial

theorem obeys_evaluate {x : Except Exc α} {Q : α → Unit → Log Op.Ret → Prop}
    (hok : ∀ a, Q a () L) : Obeys Saves (evaluate x) Q Anyhow () L := by
  cases x with
  | ok a => exact Obeys.pure (hok a)
  | error e => exact Obeys.throw trivial

/-- A last effect, after which the body returns. -/
theorem obeys_effect_pure {o : Op} {out : o.Ret → Except Exc Unit} (ho : ∀ L, Saves L o) {a : α} :
    Obeys Saves (do
      Routine.call o out
      pure a : Service α) Anyhow Anyhow () L :=
  Obeys.bind ((obeys_effect (ho L)).mono (fun _ _ _ _ => Obeys.pure trivial) fun _ _ _ _ => trivial)

/-- The result of a body that nobody looks at. -/
theorem obeys_ignored {m : Service α} (hm : Obeys Saves m Anyhow Anyhow () L) :
    Obeys Saves (do
      let _ ← m
      pure () : Service Unit) Anyhow Anyhow () L :=
  Obeys.bind (hm.mono (fun _ _ _ _ => Obeys.pure trivial) fun _ _ _ _ => trivial)

/-! ### Assessments -/

theorem obeys_assessMember (group : GroupRow) (groupId : Uuid) (roundNumber : ℤ) (m : Membership) :
    Obeys Saves (assessMember group groupId roundNumber m) Anyhow Anyhow () L := by
  refine Obeys.bind (obeys_read rfl fun contribution => ?_)
  cases contribution with
  | some c => exact Obeys.pure trivial
  | none =>
  refine Obeys.bind (obeys_evaluate fun penaltyAmount => ?_)
  refine Obeys.bind (obeys_read rfl fun existingPenalty => ?_)
  cases existingPenalty with
  | some p => exact Obeys.pure trivial
  | none =>
  refine Obeys.bind (Obeys.perform trivial fun now => ?_)
  refine Obeys.bind (obeys_db (q := .insertPenalty _) ⟨rfl, rfl⟩ fun _ => ?_)
  exact obeys_effect_pure fun _ => by trivial

theorem obeys_assessMembers (group : GroupRow) (groupId : Uuid) (roundNumber : ℤ)
    (ms : List Membership) :
    Obeys Saves (assessMembers group groupId roundNumber ms) Anyhow Anyhow () L := by
  induction ms generalizing L with
  | nil => exact Obeys.pure trivial
  | cons m ms ih =>
    refine Obeys.bind ((obeys_assessMember group groupId roundNumber m).mono (fun assessed _ L _ => ?_)
      fun _ _ _ _ => trivial)
    exact Obeys.bind (ih.mono (fun _ _ _ _ => Obeys.pure trivial) fun _ _ _ _ => trivial)

theorem obeys_assessPenaltiesForRound (groupId : Uuid) (roundNumber : ℤ) :
    Obeys Saves (assessPenaltiesForRound groupId roundNumber) Anyhow Anyhow () L := by
  refine Obeys.bind (obeys_read rfl fun found => ?_)
  refine Obeys.bind (Obeys.valueOr (fun group _ => ?_) fun _ => trivial)
  refine Obeys.bind (obeys_read rfl fun memberships => ?_)
  exact obeys_assessMembers group groupId roundNumber memberships

theorem obeys_assessGroups (groups : List GroupRow) :
    Obeys Saves (assessGroups groups) Anyhow Anyhow () L := by
  induction groups generalizing L with
  | nil => exact Obeys.pure trivial
  | cons group groups ih =>
    refine Obeys.bind (Obeys.tryCatch (Obeys.bind ((obeys_assessPenaltiesForRound group.id
      group.currentRound).mono (fun penaltyCount _ L _ => ?_) fun e _ L _ => ?_)))
    · exact Obeys.pure (Obeys.bind (ih.mono (fun _ _ _ _ => Obeys.pure trivial)
        fun _ _ _ _ => trivial))
    · exact Obeys.pure (Obeys.bind (ih.mono (fun _ _ _ _ => Obeys.pure trivial)
        fun _ _ _ _ => trivial))

/-! ### Changes -/

theorem obeys_waivePenalty (penaltyId : Uuid) (waiverReason : String) (adminUserId : Uuid) :
    Obeys Saves (waivePenalty penaltyId waiverReason adminUserId) Anyhow Anyhow () L := by
  refine Obeys.bind (obeys_read rfl fun found => ?_)
  cases found with
  | none => exact Obeys.bind (Obeys.throw trivial)
  | some penalty =>
  refine Obeys.bind (Obeys.pure (Obeys.bind (Obeys.throwWhen (fun _ => trivial) fun _ => ?_)))
  refine Obeys.bind (Obeys.perform trivial fun now => ?_)
  refine Obeys.bind (obeys_save (q := penalty) List.mem_cons_self ?_ ?_)
  · exact ⟨rfl, rfl, .inr (.inl rfl)⟩
  refine Obeys.bind (obeys_read rfl fun group => ?_)
  exact obeys_effect_pure fun _ => by trivial

/-- The loop over the pending penalties, which have been read. -/
theorem obeys_deductPenalties (total : ℚ) {penalties : List Penalty}
    (hread : penalties ⊆ L.flatMap shows) :
    Obeys Saves (deductPenalties total penalties) Anyhow Anyhow () L := by
  induction penalties generalizing L total with
  | nil => exact Obeys.pure trivial
  | cons penalty penalties ih =>
    obtain ⟨hpenalty, hrest⟩ := List.cons_subset.mp hread
    refine Obeys.bind (obeys_evaluate fun penaltyAmount => ?_)
    refine Obeys.bind (Obeys.perform trivial fun now => ?_)
    refine Obeys.bind (obeys_save hpenalty ?_ ?_)
    · exact ⟨rfl, rfl, .inl rfl⟩
    refine Obeys.bind (Obeys.mono (ih _ ?_) (fun _ _ _ _ => Obeys.pure trivial) fun _ _ _ _ => trivial)
    exact fun p hp => mem_shown_cons (mem_shown_cons (hrest hp) _) _

theorem obeys_deductPenaltiesFromContribution (userId groupId : Uuid) (contributionAmount : String) :
    Obeys Saves (deductPenaltiesFromContribution userId groupId contributionAmount)
      Anyhow Anyhow () L := by
  refine Obeys.bind (obeys_read rfl fun pending => ?_)
  dsimp only
  split
  · exact Obeys.pure trivial
  refine Obeys.bind ((obeys_deductPenalties 0 ?_).mono (fun _ _ _ _ => Obeys.pure trivial)
    fun _ _ _ _ => trivial)
  rw [List.flatMap_cons]
  exact List.subset_append_left ..

theorem obeys_disputePenalty (penaltyId userId : Uuid) (dto : DisputePenaltyDto) :
    Obeys Saves (disputePenalty penaltyId userId dto) Anyhow Anyhow () L := by
  refine Obeys.bind (obeys_read rfl fun found => ?_)
  cases found with
  | none => exact Obeys.bind (Obeys.throw trivial)
  | some penalty =>
  refine Obeys.bind (Obeys.pure (Obeys.bind (Obeys.throwWhen (fun _ => trivial) fun _ => ?_)))
  refine Obeys.bind (Obeys.throwWhen (fun _ => trivial) fun _ => ?_)
  refine Obeys.bind (Obeys.perform trivial fun now => ?_)
  refine Obeys.bind (obeys_save (q := penalty) List.mem_cons_self ?_ ?_)
  · exact ⟨rfl, rfl, .inr (.inr (.inl rfl))⟩
  refine Obeys.bind ((obeys_effect (by trivial)).mono (fun _ _ L _ => ?_) fun _ _ _ _ => trivial)
  refine Obeys.bind (obeys_read rfl fun group => ?_)
  cases group with
  | none => exact Obeys.pure trivial
  | some group =>
  refine Obeys.bind (Obeys.bind (obeys_read rfl fun adminMembership => ?_))
  cases adminMembership with
  | none => exact Obeys.pure (Obeys.pure trivial)
  | some m =>
    exact (obeys_effect (by trivial)).mono (fun _ _ _ _ => Obeys.pure trivial) fun _ _ _ _ => trivial

theorem obeys_resolveDispute (penaltyId adminUserId : Uuid) (dto : ResolvePenaltyDto) :
    Obeys Saves (resolveDispute penaltyId adminUserId dto) Anyhow Anyhow () L := by
  refine Obeys.bind (obeys_read rfl fun found => ?_)
  cases found with
  | none => exact Obeys.bind (Obeys.throw trivial)
  | some penalty =>
  refine Obeys.bind (Obeys.pure (Obeys.bind (Obeys.throwWhen (fun _ => trivial) fun hdisputed => ?_)))
  have hstatus : penalty.status = .disputed := not_not.mp (of_decide_eq_false hdisputed)
  refine Obeys.bind (obeys_read rfl fun found => ?_)
  refine Obeys.bind (Obeys.valueOr (fun group _ => ?_) fun _ => trivial)
  refine Obeys.bind (obeys_read rfl fun adminMembership => ?_)
  refine Obeys.bind (Obeys.perform trivial fun now => ?_)
  refine Obeys.bind (obeys_save (q := penalty) ?_ ?_ ?_)
  · exact mem_shown_cons (mem_shown_cons (mem_shown_cons List.mem_cons_self _) _) _
  · refine ⟨rfl, rfl, ?_⟩
    cases dto.resolution with
    | waive => exact .inr (.inl rfl)
    | reject => exact .inr (.inr (.inr ⟨rfl, hstatus⟩))
  refine Obeys.bind ((obeys_effect (by trivial)).mono (fun _ _ L _ => ?_) fun _ _ _ _ => trivial)
  exact obeys_effect_pure fun _ => by trivial

/-- **Every call** saves penalties as it has found them. -/
theorem follows_saves (c : Call) : Follows (Saves) (fun _ _ => True) (system.body c) [] := by
  have hbody : Obeys Saves c.body Anyhow Anyhow () [] := by
    cases c with
    | assessPenaltiesForRound groupId roundNumber =>
      exact obeys_ignored (obeys_assessPenaltiesForRound groupId roundNumber)
    | assessPenalties => exact obeys_ignored (Obeys.bind (obeys_read rfl fun groups =>
      obeys_assessGroups groups))
    | waivePenalty penaltyId waiverReason adminUserId =>
      exact obeys_ignored (obeys_waivePenalty penaltyId waiverReason adminUserId)
    | deductPenaltiesFromContribution userId groupId contributionAmount =>
      exact obeys_ignored (obeys_deductPenaltiesFromContribution userId groupId contributionAmount)
    | disputePenalty penaltyId userId dto =>
      exact obeys_ignored (obeys_disputePenalty penaltyId userId dto)
    | resolveDispute penaltyId adminUserId dto =>
      exact obeys_ignored (obeys_resolveDispute penaltyId adminUserId dto)
    | change rest => exact Obeys.perform trivial fun _ => trivial
  exact hbody.follows.bind fun _ _ _ => trivial

end Ahjoor.Penalties
