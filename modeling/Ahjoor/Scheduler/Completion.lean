import Ahjoor.Async.Discipline
import Ahjoor.Scheduler.Services

/-!
# When a group completes

A group is over when each of its rounds has been advanced past. The versions of the row tell which
rounds that are: `advances` lists them since the last activation. The advances add the round that
they leave and complete the group behind the last one; the sweep over the statuses completes it
while the last round is open, and activates it before the first one.

What the advances do in a run is derived from what a single save does to the status and the round
(`Turn`), for calls whose copies of the row are not out of date.
-/

namespace Ahjoor.Scheduler

open Async

/-! ### The rounds that a group has left -/

/-- The status, the round and the number of rounds. -/
def GroupRow.phase (group : GroupRow) : GroupStatus × ℤ × ℤ :=
  (group.status, group.currentRound, group.totalRounds)

/-- The rounds that were advanced past since the group was last `PENDING`, the last one first. -/
def advances : List GroupRow → List ℤ
  | v :: u :: rest =>
      if u.status = .pending then []
      else if v.currentRound = u.currentRound + 1 then u.currentRound :: advances (u :: rest)
      else advances (u :: rest)
  | _ => []

/-- The rounds up to `n`, the last one first. -/
def roundsUpTo : ℕ → List ℤ
  | 0 => []
  | n + 1 => (n + 1 : ℤ) :: roundsUpTo n

/-- If the latest version has become `COMPLETED`, every round has been advanced past, once. -/
def EndsPlayed : List GroupRow → Prop
  | v :: u :: rest => v.status = .completed → u.status ≠ .completed →
      advances (v :: u :: rest) = roundsUpTo v.totalRounds.toNat
  | _ => True

instance (versions : List GroupRow) : Decidable (EndsPlayed versions) := by
  unfold EndsPlayed
  split <;> infer_instance

/-- **The group completes only when all rounds have been played**, whenever it does. -/
def CompletesPlayed (versions : List GroupRow) : Prop := ∀ vs ∈ versions.tails, EndsPlayed vs

instance (versions : List GroupRow) : Decidable (CompletesPlayed versions) :=
  inferInstanceAs (Decidable (∀ vs ∈ versions.tails, EndsPlayed vs))

/-! ### One save -/

/-- What a save of `saved` makes of `copy`, as far as the status and the round go. -/
inductive Turn (copy saved : GroupRow) : Prop
  | stay (h : saved.phase = copy.phase)
  | activate (hpending : copy.status = .pending) (h : saved.phase = (.active, 1, copy.totalRounds))
  | rollBack (h : saved.phase = (.pending, 0, copy.totalRounds))
  | advance (hactive : copy.status = .active)
      (h : saved.phase = (GroupsService.advanced copy).phase)

/-- The versions of a group of `n` rounds that has only been turned: while it is active, it is in
one of its rounds, and has left the ones before. -/
structure Played (n : ℤ) (row : GroupRow) (rest : List GroupRow) : Prop where
  completes : CompletesPlayed (row :: rest)
  totalRounds : row.totalRounds = n
  active : row.status = .active → 1 ≤ row.currentRound ∧ row.currentRound ≤ n ∧
    advances (row :: rest) = roundsUpTo (row.currentRound - 1).toNat

section Turns

variable {n : ℤ} {row copy saved : GroupRow} {rest : List GroupRow}

theorem completesPlayed_cons (h : CompletesPlayed (row :: rest))
    (hends : EndsPlayed (saved :: row :: rest)) : CompletesPlayed (saved :: row :: rest) := by
  intro vs hvs
  rw [List.tails_cons] at hvs
  rcases List.mem_cons.mp hvs with rfl | hvs
  · exact hends
  · exact h vs hvs

theorem phase_eq_iff {a b : GroupRow} : a.phase = b.phase ↔
    a.status = b.status ∧ a.currentRound = b.currentRound ∧ a.totalRounds = b.totalRounds := by
  simp only [GroupRow.phase, Prod.mk.injEq]

/-- **Leaving a round** lists it. -/
theorem played_advance (h : Played n row rest) (hactive : row.status = .active)
    (hround : saved.currentRound = row.currentRound + 1) (htotal : saved.totalRounds = n)
    (hended : saved.status = .completed → n < row.currentRound + 1)
    (hruns : saved.status = .active → row.currentRound + 1 ≤ n) :
    Played n saved (row :: rest) := by
  obtain ⟨hfirst, hlast, hadvances⟩ := h.active hactive
  have hleft : advances (saved :: row :: rest) = roundsUpTo row.currentRound.toNat := by
    obtain ⟨k, hk⟩ : ∃ k : ℕ, row.currentRound = (k : ℤ) + 1 :=
      ⟨(row.currentRound - 1).toNat, by omega⟩
    have hpred : (row.currentRound - 1).toNat = k := by omega
    have hsucc : row.currentRound.toNat = k + 1 := by omega
    rw [advances, if_neg (by rw [hactive]; decide), if_pos hround, hadvances, hpred, hsucc,
      roundsUpTo, hk]
  refine ⟨completesPlayed_cons h.completes fun hcompleted _ => ?_, htotal, fun hactive' => ?_⟩
  · have hlt := hended hcompleted
    have heq : row.currentRound = n := by omega
    rw [hleft, htotal, heq]
  · have hle := hruns hactive'
    refine ⟨by omega, by omega, ?_⟩
    rw [hleft, hround, add_sub_cancel_right]

/-- **A turn** of a copy that is up to date keeps the books. -/
theorem played_turn (hn : 1 ≤ n) (h : Played n row rest) (hcopy : row.phase = copy.phase)
    (hturn : Turn copy saved) : Played n saved (row :: rest) := by
  obtain ⟨hstatus, hround, htotal⟩ := phase_eq_iff.mp hcopy
  have htotal' : copy.totalRounds = n := htotal ▸ h.totalRounds
  cases hturn with
  | stay hphase =>
    obtain ⟨hstatus', hround', hrounds⟩ := phase_eq_iff.mp (hphase.trans hcopy.symm)
    have hopen : EndsPlayed (saved :: row :: rest) := fun hcompleted hne =>
      absurd (hstatus'.symm.trans hcompleted) hne
    refine ⟨completesPlayed_cons h.completes hopen, hrounds.trans h.totalRounds, fun hactive => ?_⟩
    have hactive' : row.status = .active := hstatus'.symm.trans hactive
    obtain ⟨hfirst, hlast, hadvances⟩ := h.active hactive'
    rw [hround']
    refine ⟨hfirst, hlast, ?_⟩
    rw [advances, if_neg (by rw [hactive']; decide), if_neg (by omega), hadvances]
  | activate hpending hphase =>
    simp only [GroupRow.phase, Prod.mk.injEq] at hphase
    obtain ⟨hactive, hone, hrounds⟩ := hphase
    have hopen : EndsPlayed (saved :: row :: rest) := fun hcompleted _ => by
      rw [hactive] at hcompleted
      cases hcompleted
    refine ⟨completesPlayed_cons h.completes hopen, hrounds.trans htotal', fun _ => ?_⟩
    rw [hone, advances, if_pos (hstatus.trans hpending)]
    exact ⟨le_rfl, hn, rfl⟩
  | rollBack hphase =>
    simp only [GroupRow.phase, Prod.mk.injEq] at hphase
    obtain ⟨hpending, -, hrounds⟩ := hphase
    have hopen : EndsPlayed (saved :: row :: rest) := fun hcompleted _ => by
      rw [hpending] at hcompleted
      cases hcompleted
    refine ⟨completesPlayed_cons h.completes hopen, hrounds.trans htotal', fun hactive => ?_⟩
    rw [hpending] at hactive
    cases hactive
  | advance hactive hphase =>
    obtain ⟨hstatus', hround', hrounds⟩ := phase_eq_iff.mp hphase
    refine played_advance h (hstatus.trans hactive) (hround'.trans ?_) (hrounds.trans htotal')
      (fun hcompleted => ?_) fun hruns => ?_
    · rw [GroupsService.advanced, hround]
    · rw [hstatus', GroupsService.advanced] at hcompleted
      by_contra hle
      rw [if_neg (by omega), hactive] at hcompleted
      cases hcompleted
    · rw [hstatus', GroupsService.advanced] at hruns
      by_contra hlt
      rw [if_pos (by omega)] at hruns
      cases hruns

/-- A turn does not depend on the other columns. -/
theorem Turn.congr {saved' : GroupRow} (h : Turn copy saved) (hphase : saved'.phase = saved.phase) :
    Turn copy saved' := by
  cases h with
  | stay h => exact .stay (hphase.trans h)
  | activate hpending h => exact .activate hpending (hphase.trans h)
  | rollBack h => exact .rollBack (hphase.trans h)
  | advance hactive h => exact .advance hactive (hphase.trans h)

end Turns

/-! ### What the calls save -/

/-- The copy of the row that a call works on: the last one that it has read or saved. -/
def copyOf : Log Op.Ret → Option GroupRow
  | [] => none
  | ⟨.findGroup, .ok found⟩ :: _ => found
  | ⟨.findGroupWithMembers, .ok found⟩ :: _ => found.map Prod.fst
  | ⟨.saveGroup group, _⟩ :: _ => some group
  | _ :: L => copyOf L

/-- The copies of the row that a call has read together with the members. -/
def copiesRead : Log Op.Ret → List GroupRow
  | [] => []
  | ⟨.findGroupWithMembers, .ok (some found)⟩ :: L => found.1 :: copiesRead L
  | _ :: L => copiesRead L

/-- The saves of the call are turns of its copy. -/
def Call.turns : Call → Bool
  | activateGroup _ _ | transferAdmin _ _ | advanceRound _ | tryAdvanceRound
  | processDeadlinedGroups | advanceStalledRounds | detectAndFlagStaleGroups | clearStaleFlag
  | handleRoundCompleted | changeMembers _ | changeContract _ | wait => true
  | updateGroupStatuses | update _ _ _ | handleSyncOnChainEvent _ | handleSyncGroupState _ _ =>
      false

/-- What a call that turns the group may do next. -/
def Turning (L : Log Op.Ret) : Op → Prop
  | .saveGroup group => ∃ copy, copyOf L = some copy ∧ Turn copy group
  | .commit _ group => ∃ copy, copyOf L = some copy ∧
      (∃ validated ∈ copiesRead L, validated.status = .active) ∧
        group.phase = (GroupsService.advanced copy).phase
  | _ => True

/-- The operation commits a transaction. -/
def Op.isCommit : Op → Bool
  | commit _ _ => true
  | _ => false

/-- The call is the sweep over the statuses. -/
def Call.isSweep : Call → Bool
  | updateGroupStatuses => true
  | _ => false

/-- The discipline of a call. The sweep saves what it likes, and has no transaction. -/
def turnDiscipline (c : Call) (L : Log Op.Ret) (o : Op) : Prop :=
  if c.turns then Turning L o
  else c.isSweep = true → o.isCommit = false

section Bodies

variable {L : Log Op.Ret} {group : GroupRow} {α : Type}

/-- The body turns the group, whatever the replies. -/
abbrev Turns (m : Service α) (L : Log Op.Ret) : Prop :=
  Obeys Turning m (fun _ _ _ => True) (fun _ _ _ => True) () L

/-- The operation stores no version. -/
def Op.stores : Op → Bool
  | saveGroup _ | commit _ _ => true
  | _ => false

/-- What does not store a version is allowed. -/
theorem turns_of_uses {m : Service α} (hm : Routine.Uses (fun o => o.stores = false) m) :
    Turns m L := by
  have hadmits : Admits Turning (fun o => o.stores = false) fun _ => True := by
    refine ⟨fun L o _ ho => ?_, fun _ _ _ _ _ => trivial⟩
    cases o with
    | saveGroup group => cases ho
    | commit members group => cases ho
    | _ => trivial
  exact (Obeys.of_uses hadmits hm trivial).mono (fun _ _ _ _ => trivial) fun _ _ _ _ => trivial

/-- An operation that stores no version. -/
theorem turns_call {β : Type} {o : Op} {out : o.Ret → Except Exc β} {f : β → Service α}
    (ho : o.stores = false) (hok : ∀ r a, out r = .ok a → Turns (f a) (⟨o, r⟩ :: L)) :
    Turns (Routine.call o out >>= f) L := by
  refine Obeys.bind (Obeys.call ?_ fun r => ?_)
  · cases o with
    | saveGroup group => cases ho
    | commit members group => cases ho
    | _ => trivial
  · cases hout : out r with
    | ok a => exact hok r a hout
    | error e => trivial

theorem turns_findGroup {f : Option GroupRow → Service α}
    (hf : ∀ found, Turns (f found) (⟨.findGroup, .ok found⟩ :: L)) :
    Turns (findGroup >>= f) L :=
  turns_call rfl fun _ found hr => hr ▸ hf found

theorem turns_findGroupWithMembers {f : Option (GroupRow × List Membership) → Service α}
    (hf : ∀ found, Turns (f found) (⟨.findGroupWithMembers, .ok found⟩ :: L)) :
    Turns (findGroupWithMembers >>= f) L :=
  turns_call rfl fun _ found hr => hr ▸ hf found

theorem turns_dateNow {f : ℤ → Service α} (hf : ∀ now, Turns (f now) (⟨.now, now⟩ :: L)) :
    Turns (dateNow >>= f) L :=
  Obeys.bind (Obeys.perform trivial hf)

/-- A save of a turned copy; what comes after it works on the version that it has saved. -/
theorem turns_save (copy : GroupRow) {f : Unit → Service α} (hcopy : copyOf L = some copy)
    (hturn : Turn copy group) (hf : ∀ r, Turns (f ()) (⟨.saveGroup group, r⟩ :: L)) :
    Turns (save group >>= f) L := by
  refine Obeys.bind (Obeys.call ⟨copy, hcopy, hturn⟩ fun r => ?_)
  cases r with
  | ok _ => exact hf _
  | error e => trivial

/-- A last save. -/
theorem turns_save_last (copy : GroupRow) (hcopy : copyOf L = some copy) (hturn : Turn copy group) :
    Turns (save group) L := by
  refine Obeys.call ⟨copy, hcopy, hturn⟩ fun r => ?_
  cases r <;> trivial

theorem turns_valueOr {β : Type} {value : Option β} {e : Exc} {f : β → Service α}
    (hf : ∀ a, value = some a → Turns (f a) L) : Turns (Routine.valueOr value e >>= f) L :=
  Obeys.bind (Obeys.valueOr hf fun _ => trivial)

theorem turns_throwWhen {c : Bool} {e : Exc} {f : Unit → Service α}
    (hf : c = false → Turns (f ()) L) : Turns (Routine.throwWhen c e >>= f) L :=
  Obeys.bind (Obeys.throwWhen (fun _ => trivial) hf)

/-- A failure that is only logged. -/
theorem turns_ignoreFailure {m : Service Unit} (hm : Turns m L) : Turns (ignoreFailure m) L :=
  Obeys.tryCatch (Obeys.mono hm (fun _ _ _ _ => trivial) fun _ _ _ _ => Obeys.pure trivial)

/-! ### The bodies -/

theorem uses_notify (ns : List Notification) :
    Routine.Uses (fun o => o.stores = false) (notify ns) := Routine.uses_call rfl

theorem uses_ignoreFailure {m : Service Unit} (hm : Routine.Uses (fun o => o.stores = false) m) :
    Routine.Uses (fun o => o.stores = false) (ignoreFailure m) :=
  Routine.uses_tryCatch hm fun _ => Routine.uses_pure ()

theorem turns_transferAdmin (adminWallet : String) (newAdminUserId : Uuid) :
    Turns (GroupsService.transferAdmin adminWallet newAdminUserId) L := by
  refine turns_findGroup fun found => turns_valueOr fun group hfound => ?_
  refine turns_throwWhen fun _ => turns_call rfl fun target _ _ => turns_valueOr fun m _ => ?_
  refine turns_save group hfound (.stay rfl) fun _ => turns_of_uses ?_
  exact Routine.uses_bind (Routine.uses_call rfl) fun _ =>
    Routine.uses_bind (Routine.uses_call rfl) fun _ => uses_notify _

theorem turns_detectAndFlagStaleGroups (nullSelects : Bool) (maxStaleDays : ℤ) :
    Turns (StaleGroupDetectionService.detectAndFlagStaleGroups nullSelects maxStaleDays) L := by
  refine turns_dateNow fun now => turns_findGroup fun found => ?_
  split
  · exact Obeys.pure trivial
  · next group hfilter =>
    refine turns_ignoreFailure (turns_dateNow fun now => ?_)
    exact turns_save group (Option.filter_eq_some_iff.mp hfilter).1 (.stay rfl)
      fun _ => turns_of_uses (uses_notify _)

theorem turns_clearStaleFlag : Turns StaleGroupDetectionService.clearStaleFlag L := by
  refine turns_ignoreFailure (turns_findGroup fun found => ?_)
  split
  · exact Obeys.pure trivial
  · next group hfilter =>
    exact turns_save_last group (Option.filter_eq_some_iff.mp hfilter).1 (.stay rfl)

theorem turns_tryAdvanceRound : Turns RoundService.tryAdvanceRound L := by
  refine turns_findGroup fun found => ?_
  cases found with
  | none => exact Obeys.pure trivial
  | some group =>
    by_cases hactive : group.status = .active
    · have hturn : Turn group (GroupsService.advanced group) := .advance hactive rfl
      have hdispatch : Routine.Uses (fun o => o.stores = false)
          (ignoreFailure (dispatchEvent "GROUP_COMPLETED")) :=
        uses_ignoreFailure (Routine.uses_call rfl)
      have hpayout : Routine.Uses (fun o => o.stores = false) (ignoreFailure
          (Routine.call (.distributePayout group.currentRound) fun r => r)) :=
        uses_ignoreFailure (Routine.uses_call rfl)
      change Turns (if group.status ≠ .active then pure false else _) _
      rw [if_neg (not_not.mpr hactive)]
      refine turns_call rfl fun r memberships _ => ?_
      split_ifs
      · exact Obeys.pure trivial
      · exact Obeys.pure trivial
      · refine turns_save group rfl hturn fun _ => turns_of_uses ?_
        exact Routine.uses_bind hdispatch fun _ => Routine.uses_bind hpayout fun _ =>
          Routine.uses_pure true
      · refine turns_call rfl fun _ _ _ => turns_save group rfl hturn fun _ =>
          turns_of_uses ?_
        exact Routine.uses_bind hpayout fun _ =>
          Routine.uses_bind (uses_ignoreFailure (uses_notify _)) fun _ => Routine.uses_pure true
    · change Turns (if group.status ≠ .active then pure false else _) _
      rw [if_pos hactive]
      exact Obeys.pure trivial

theorem turns_advanceStalledRounds : Turns GroupStatusService.advanceStalledRounds L := by
  refine turns_findGroup fun found => ?_
  split
  · exact Obeys.pure trivial
  · refine turns_dateNow fun now => ?_
    split_ifs
    · exact Obeys.bind (turns_tryAdvanceRound.mono (fun _ _ _ _ => Obeys.pure trivial)
        fun _ _ _ _ => trivial)
    · exact Obeys.pure trivial

theorem turns_processDeadlinedGroups (gracePeriodHours : ℚ) :
    Turns (RoundAdvanceService.processDeadlinedGroups gracePeriodHours) L := by
  refine turns_dateNow fun now => turns_findGroupWithMembers fun found => ?_
  split
  · exact Obeys.pure trivial
  · next group members hfilter =>
    obtain ⟨rfl, hactive⟩ := Option.filter_eq_some_iff.mp hfilter
    have hturn : Turn group (GroupsService.advanced group) :=
      .advance (of_decide_eq_true hactive) rfl
    refine turns_ignoreFailure ?_
    split_ifs
    · exact Obeys.pure trivial
    · change Turns (if _ then _ else _) _
      split_ifs
      · rw [RoundAdvanceService.advanceGroupRound]
        split_ifs
        · exact turns_save_last group rfl hturn
        · exact turns_call rfl fun _ _ _ => turns_call rfl fun _ _ _ =>
            turns_save_last group rfl hturn
      · exact turns_of_uses (uses_notify _)

/-- **The administrator's advance** commits what its transaction has read, after it has found the
group active. -/
theorem turns_advanceRound (adminWallet : String) :
    Turns (GroupsService.advanceRound adminWallet) L := by
  refine turns_findGroupWithMembers fun found => turns_valueOr fun a hfound => ?_
  obtain ⟨group, members⟩ := a
  subst hfound
  refine turns_throwWhen fun _ => turns_throwWhen fun hactive => turns_throwWhen fun _ => ?_
  have hvalidated : group.status = .active := not_not.mp (of_decide_eq_false hactive)
  have hpay : ∀ recipient, Obeys Turning (GroupsService.payRecipient group recipient)
      (fun _ _ L' => group ∈ copiesRead L') (fun _ _ _ => True) ()
      (⟨.findGroupWithMembers, .ok (some (group, members))⟩ :: L) := by
    intro recipient
    have hread : group ∈ copiesRead
        (⟨.findGroupWithMembers, .ok (some (group, members))⟩ :: L) := List.mem_cons_self
    unfold GroupsService.payRecipient
    split
    · refine Obeys.tryCatch (Obeys.call trivial fun r => ?_)
      cases r with
      | ok txHash => exact hread
      | error e => exact Obeys.throw trivial
    · exact Obeys.pure hread
  refine Obeys.bind ((hpay _).mono (fun txHash _ L₁ hread => ?_) fun _ _ _ _ => trivial)
  refine turns_findGroupWithMembers fun found => turns_valueOr fun a hfound => ?_
  obtain ⟨lockedGroup, lockedMembers⟩ := a
  subst hfound
  refine Obeys.bind (Obeys.call ⟨lockedGroup, rfl, ⟨group, ?_, hvalidated⟩, rfl⟩ fun r => ?_)
  · exact List.mem_cons_of_mem lockedGroup hread
  · cases r with
    | error e => trivial
    | ok _ =>
      change Turns (if _ then _ else _) _
      split_ifs
      · exact Obeys.pure trivial
      · exact turns_of_uses (uses_notify _)

theorem uses_assignPayoutOrders (strategy : Members.PayoutOrderStrategy) (random : ℕ → ℕ)
    (members : List Membership) :
    Routine.Uses (fun o => ∃ saved, o = .saveMembers saved)
      (GroupsService.assignPayoutOrders strategy random members) := by
  cases strategy with
  | sequential => exact Routine.uses_pure ()
  | random => exact Routine.uses_forEach fun x _ => Routine.uses_call ⟨_, rfl⟩
  | adminDefined =>
    exact Routine.uses_bind (Routine.uses_throwWhen _ _) fun _ => Routine.uses_throwWhen _ _

theorem turns_rollBackActivation (copy saved : GroupRow) (hcopy : copyOf L = some copy)
    (htotal : saved.totalRounds = copy.totalRounds) :
    Turns (GroupsService.rollBackActivation saved) L := by
  have hphase : GroupRow.phase { saved with status := .pending, currentRound := 0 } =
      (.pending, 0, copy.totalRounds) := by
    rw [← htotal]
    rfl
  exact turns_save copy hcopy (.rollBack hphase) fun _ => Obeys.throw trivial

/-- **The activation** works on the row that it has read, and then on its own version. -/
theorem turns_activateGroup (adminWallet : String) (random : ℕ → ℕ) :
    Turns (GroupsService.activateGroup adminWallet random) L := by
  refine turns_findGroupWithMembers fun found => turns_valueOr fun a hfound => ?_
  obtain ⟨group, members⟩ := a
  subst hfound
  refine turns_throwWhen fun _ => turns_throwWhen fun hstatus => turns_throwWhen fun _ => ?_
  have hpending : group.status = .pending := not_not.mp (of_decide_eq_false hstatus)
  have hadmits : Admits Turning (fun o => ∃ saved, o = .saveMembers saved)
      fun L => copyOf L = some group := by
    constructor
    · rintro L o - ⟨saved, rfl⟩
      trivial
    · rintro L o r hcopy ⟨saved, rfl⟩
      exact hcopy
  refine Obeys.bind_uses hadmits (uses_assignPayoutOrders _ random members) rfl
    (fun _ L₁ hcopy => ?_) fun _ _ _ => trivial
  let saved : GroupRow := { group with status := .active, currentRound := 1 }
  refine turns_save group hcopy (.activate hpending rfl) fun r₁ => ?_
  have hsaved : copyOf (⟨.saveGroup saved, r₁⟩ :: L₁) = some saved := rfl
  refine Obeys.bind (Obeys.tryCatch (Obeys.call trivial fun r => ?_))
  cases r with
  | error e =>
    exact Obeys.pure (turns_rollBackActivation saved saved hsaved rfl)
  | ok contractAddress =>
    let stored : GroupRow := { saved with contractAddress := some contractAddress }
    change Turns (tryCatch (GroupsService.storeContractAddress stored) _) _
    refine Obeys.tryCatch (Obeys.bind (Obeys.call ⟨saved, hsaved, .stay rfl⟩ fun r₂ => ?_))
    cases r₂ with
    | error e => exact turns_rollBackActivation stored stored rfl rfl
    | ok _ =>
      refine Obeys.tryCatch (Obeys.call trivial fun r₃ => ?_)
      cases r₃ with
      | ok _ => trivial
      | error e => exact Obeys.pure trivial

/-- The sweep has no transaction. -/
theorem uses_updateGroupStatuses :
    Routine.Uses (fun o => o.isCommit = false) GroupStatusService.updateGroupStatuses := by
  have hfinish : ∀ group checked, Routine.Uses (fun o => o.isCommit = false)
      (GroupStatusService.checkAndUpdateGroupStatus.finish group checked) := by
    intro group checked
    rw [GroupStatusService.checkAndUpdateGroupStatus.finish]
    split_ifs
    · exact Routine.uses_call rfl
    · exact Routine.uses_pure ()
  refine Routine.uses_bind (Routine.uses_call rfl) fun found => ?_
  split
  · exact Routine.uses_pure ()
  · next group _ =>
    rw [GroupStatusService.checkAndUpdateGroupStatus]
    split_ifs
    · exact Routine.uses_bind (Routine.uses_call rfl) fun _ => hfinish group _
    · exact hfinish group group

/-- **Every call** follows its discipline. -/
theorem follows_body (cfg : Config) (c : Call) :
    Follows (turnDiscipline c) (fun _ _ => True) ((system cfg).body c) [] := by
  by_cases hc : c.turns = true
  · have hbody : Turns (c.body cfg) [] := by
      cases c with
      | activateGroup adminWallet random => exact turns_activateGroup adminWallet random
      | transferAdmin adminWallet userId => exact turns_transferAdmin adminWallet userId
      | advanceRound adminWallet => exact turns_advanceRound adminWallet
      | tryAdvanceRound =>
        exact Obeys.bind (turns_tryAdvanceRound.mono (fun _ _ _ _ => Obeys.pure trivial)
          fun _ _ _ _ => trivial)
      | processDeadlinedGroups => exact turns_processDeadlinedGroups cfg.gracePeriodHours
      | advanceStalledRounds => exact turns_advanceStalledRounds
      | detectAndFlagStaleGroups => exact turns_detectAndFlagStaleGroups _ _
      | clearStaleFlag => exact turns_clearStaleFlag
      | handleRoundCompleted =>
        exact turns_call rfl fun _ _ _ => turns_of_uses (Routine.uses_call rfl)
      | changeMembers members => exact turns_of_uses (Routine.uses_perform rfl)
      | changeContract state => exact turns_of_uses (Routine.uses_perform rfl)
      | wait => exact turns_dateNow fun _ => Obeys.pure trivial
      | _ => cases hc
    have hD : turnDiscipline c = Turning := funext fun L => funext fun o => if_pos hc
    rw [hD]
    exact hbody.follows.bind fun _ _ _ => trivial
  · have hD : turnDiscipline c = fun _ o => c.isSweep = true → o.isCommit = false :=
      funext fun L => funext fun o => if_neg hc
    rw [hD]
    cases c with
    | updateGroupStatuses =>
      have hadmits : Admits
          (fun _ o => Call.updateGroupStatuses.isSweep = true → o.isCommit = false)
          (fun o => o.isCommit = false) fun _ : Log Op.Ret => True :=
        ⟨fun _ _ _ ho _ => ho, fun _ _ _ _ _ => trivial⟩
      exact (Obeys.of_uses hadmits uses_updateGroupStatuses trivial).follows.bind fun _ _ _ =>
        trivial
    | _ =>
      refine Follows.of_forall ?_ (fun _ _ _ => trivial) _
      exact fun _ _ _ h => nomatch h

end Bodies

/-! ### Runs -/

/-- The calls of the runs that the property is about: activation, advances by any path, sweeps over
the statuses, and what leaves the status and the round alone. -/
def Call.plays (c : Call) : Bool := c.turns || c.isSweep

/-- The row has the status and the round of the copy. -/
def UpToDate (w : World) (copy : GroupRow) : Prop :=
  w.group.map GroupRow.phase = some copy.phase

instance (w : World) (copy : GroupRow) : Decidable (UpToDate w copy) :=
  inferInstanceAs (Decidable (_ = _))

/-- **The condition on an operation** of a call with the log `L`: what stores a version works on a
copy of the row that is up to date; the sweep changes the group only behind its last round, and the
contract's event comes in a round before the last. -/
def Unspoiled (c : Call) (L : Log Op.Ret) (w : World) : Op → Prop
  | .saveGroup _ =>
      (∀ copy ∈ (copyOf L).toList, UpToDate w copy) ∧ (c.isSweep = true →
        w.group.any (fun row => row.status = .active ∧ row.totalRounds < row.currentRound) = true)
  | .commit _ _ =>
      (∀ copy ∈ (copyOf L).toList, UpToDate w copy) ∧ ∀ copy ∈ copiesRead L, UpToDate w copy
  | .increment =>
      w.group.any (fun row => row.status = .active ∧ row.currentRound < row.totalRounds) = true
  | _ => True

instance (c : Call) (L : Log Op.Ret) (w : World) (o : Op) : Decidable (Unspoiled c L w o) := by
  unfold Unspoiled
  split <;> infer_instance

/-- The calls that have started under a number. -/
def startsOf (pid : ℕ) (es : List (Event Op.Ret World Call (Except Exc Unit))) : List Call :=
  es.filterMap fun
    | .start p c => if p = pid then some c else none
    | _ => none

/-- Only playing calls start. -/
def Playing (_ h' : SchedulerHist) : Prop :=
  match h'.trace with
  | .start _ c :: _ => c.plays = true
  | _ => True

/-- The operation just performed was not spoiled. -/
def LastUnspoiled (_ h' : SchedulerHist) : Prop :=
  match h'.trace with
  | .did pid o _ before :: es => ∀ c ∈ startsOf pid es, Unspoiled c (log pid es) before o
  | _ => True

instance : DecidableRel Playing := fun h h' => by
  unfold Playing
  split <;> infer_instance

instance : DecidableRel LastUnspoiled := fun h h' => by
  unfold LastUnspoiled
  split <;> infer_instance

/-- The books of a group of `n` rounds are in order, and only playing calls have started. -/
structure Kept (n : ℤ) (h : SchedulerHist) : Prop where
  plays : ∀ pid c, Event.start pid c ∈ h.trace → c.plays = true
  played : ∃ row rest, h.world.versions = row :: rest ∧ Played n row rest

section Runs

variable {cfg : Config} {n : ℤ} {h h' : SchedulerHist} {w w' : World} {row group : GroupRow}
  {rest : List GroupRow}

theorem mem_startsOf {pid : ℕ} {c : Call} {es : List (Event Op.Ret World Call (Except Exc Unit))}
    (h : Event.start pid c ∈ es) : c ∈ startsOf pid es :=
  List.mem_filterMap.mpr ⟨_, h, if_pos rfl⟩

/-- **A save** of a turn keeps the books. -/
theorem played_save (hn : 1 ≤ n) (hversions : w.versions = row :: rest) (h : Played n row rest)
    {copy saved : GroupRow} (hcopy : UpToDate w copy) (hturn : Turn copy saved) :
    ∃ row' rest', (w.save saved).versions = row' :: rest' ∧ Played n row' rest' := by
  have hrow : w.group = some row := congrArg List.head? hversions
  have hphase : row.phase = copy.phase := by
    rw [UpToDate, hrow] at hcopy
    exact Option.some.inj hcopy
  rw [World.save]
  split_ifs
  · exact ⟨row, rest, hversions, h⟩
  · exact ⟨_, _, congrArg _ hversions, played_turn hn h hphase (hturn.congr rfl)⟩

theorem played_increment (hversions : w.versions = row :: rest) (h : Played n row rest)
    (hactive : row.status = .active) (hlt : row.currentRound < row.totalRounds) :
    ∃ row' rest', w.increment.versions = row' :: rest' ∧ Played n row' rest' := by
  have hrow : w.group = some row := congrArg List.head? hversions
  rw [World.increment, hrow]
  refine ⟨_, _, congrArg _ hversions, played_advance h hactive rfl h.totalRounds ?_ ?_⟩
  · intro hcompleted
    exact absurd (hactive.symm.trans hcompleted) (by decide)
  · intro _
    rw [← h.totalRounds]
    exact hlt

/-- **One operation** of a playing call keeps the books, if it is not spoiled. -/
theorem played_write (hn : 1 ≤ n) (hversions : w.versions = row :: rest) (h : Played n row rest)
    {c : Call} {L : Log Op.Ret} {o : Op} (hplays : c.plays = true) (hD : turnDiscipline c L o)
    (hok : Unspoiled c L w o) :
    ∃ row' rest', (o.write w).versions = row' :: rest' ∧ Played n row' rest' := by
  have hrow : w.group = some row := congrArg List.head? hversions
  have hturning : c.isSweep ≠ true → Turning L o := by
    intro hne
    have hturns : c.turns = true := (Bool.or_eq_true_iff.mp hplays).resolve_right hne
    rwa [turnDiscipline, if_pos hturns] at hD
  cases o with
  | saveGroup group =>
    obtain ⟨hcopies, hsweep⟩ := hok
    have hne : c.isSweep ≠ true := by
      intro heq
      -- an active group is in one of its rounds
      have hover := hsweep heq
      rw [hrow] at hover
      obtain ⟨hactive, hlt⟩ := of_decide_eq_true hover
      have hle := (h.active hactive).2.1
      rw [h.totalRounds] at hlt
      omega
    obtain ⟨copy, hcopy, hturn⟩ := hturning hne
    exact played_save hn hversions h (hcopies copy (Option.mem_toList.mpr hcopy)) hturn
  | commit members group =>
    obtain ⟨hcopies, hread⟩ := hok
    have hne : c.isSweep ≠ true := by
      intro heq
      have hturns : c.turns ≠ true := by
        cases c with
        | updateGroupStatuses => decide
        | _ => cases heq
      rw [turnDiscipline, if_neg hturns] at hD
      cases hD heq
    obtain ⟨copy, hcopy, ⟨validated, hvalidated, hactive⟩, hphase⟩ := hturning hne
    have hupToDate := hcopies copy (Option.mem_toList.mpr hcopy)
    have hsame : copy.phase = validated.phase :=
      Option.some.inj (hupToDate.symm.trans (hread validated hvalidated))
    have hcopyActive : copy.status = .active := (congrArg Prod.fst hsame).trans hactive
    let w' : World := { w with members := w.members.saveAll members }
    have hversions' : w'.versions = row :: rest := hversions
    exact played_save hn hversions' h hupToDate (.advance hcopyActive hphase)
  | increment =>
    have hbefore : w.group.any (fun row => row.status = .active ∧
      row.currentRound < row.totalRounds) = true := hok
    rw [hrow] at hbefore
    obtain ⟨hactive, hlt⟩ := of_decide_eq_true hbefore
    exact played_increment hversions h hactive hlt
  | _ => exact ⟨row, rest, hversions, h⟩

/-- **A step** of a run keeps the books. -/
theorem kept_step (hn : 1 ≤ n) (hkept : Kept n h)
    (hstep : HistStep (system cfg) turnDiscipline h h') (hplaying : Playing h h')
    (hlast : LastUnspoiled h h') : Kept n h' := by
  obtain ⟨row, rest, hversions, hplayed⟩ := hkept.played
  cases hstep with
  | idle e he hlive =>
    refine ⟨fun pid c hstart => ?_, row, rest, hversions, hplayed⟩
    rcases List.mem_cons.mp hstart with rfl | hold
    · exact hplaying
    · exact hkept.plays pid c hold
  | did pid c o choice r w' hstart hD hexec hlive =>
    refine ⟨fun pid c hstart => ?_, ?_⟩
    · rcases List.mem_cons.mp hstart with heq | hold
      · cases heq
      · exact hkept.plays pid c hold
    · rcases world_of_exec hexec with rfl | rfl | ⟨-, t, -, rfl⟩
      · exact played_write hn hversions hplayed (hkept.plays pid c hstart) hD
          (hlast c (mem_startsOf hstart))
      · exact ⟨row, rest, hversions, hplayed⟩
      · exact ⟨row, rest, hversions, hplayed⟩

/-- **A group completes only when all rounds have been played**, in every run in which no operation
is spoiled. -/
theorem completesPlayed_of_reachable {s : SchedulerState} (hversions : w.versions = [group])
    (hpending : group.status = .pending) (hrounds : 1 ≤ group.totalRounds)
    (hr : (system cfg).ReachableWhen (fun h h' => Playing h h' ∧ LastUnspoiled h h') (.init w) s) :
    CompletesPlayed s.hist.world.versions := by
  have hcompletes : CompletesPlayed [group] := by
    intro vs hvs
    rcases List.mem_cons.mp hvs with rfl | hvs
    · trivial
    · obtain rfl := List.mem_singleton.mp hvs
      trivial
  have hplayed : Played group.totalRounds group [] := by
    refine ⟨hcompletes, rfl, fun hactive => ?_⟩
    rw [hpending] at hactive
    cases hactive
  have hkept : Kept group.totalRounds s.hist :=
    hist_invariant (follows_body cfg) ⟨by simp, group, [], hversions, hplayed⟩
      (fun h h' _ _ hkept hstep hok => kept_step hrounds hkept hstep hok.1 hok.2) hr
  obtain ⟨row, rest, hrow, hends⟩ := hkept.played
  rw [hrow]
  exact hends.completes

end Runs

/-! ### Two rounds -/

namespace Sample

/-- A group of two rounds and two members, who have paid. -/
def twoRounds : World where
  versions := [{ monthly with totalRounds := 2 }]
  members := { rows := [
    { id := 0, groupId := 0, userId := 0, walletAddress := "G0", hasPaidCurrentRound := true },
    { id := 1, groupId := 0, userId := 1, walletAddress := "G1", hasPaidCurrentRound := true }] }

/-- The group is activated, and leaves its first round. -/
def firstRound : List (Move Choice Call) :=
  [.start (.activateGroup "admin" fun _ => 0), .run 0 .done, .run 0 .done, .run 0 (.text "C"),
    .run 0 .done, .run 0 .done, .finish 0, .start .tryAdvanceRound, .run 1 .done, .run 1 .done,
    .run 1 .done, .run 1 .done, .run 1 .done, .run 1 .done, .finish 1]

/-- The members pay again, and the group leaves its second round. -/
def secondRound : List (Move Choice Call) :=
  [.start (.changeMembers twoRounds.members), .run 2 .done, .finish 2, .start .tryAdvanceRound,
    .run 3 .done, .run 3 .done, .run 3 .done, .run 3 .done, .run 3 .done, .finish 3]

/-- The sweep finds the group in its second round. -/
def sweep : List (Move Choice Call) :=
  [.start .updateGroupStatuses, .run 2 .done, .run 2 .done, .finish 2]

/-- The group is over. -/
def isOver (s : SchedulerState) : Bool := s.hist.world.group.any fun row => row.status = .completed

end Sample

open Ahjoor.Scheduler.Sample

/-- Two rounds are played, and the group is over. -/
theorem completesPlayed_of_reachable_sample : ∃ s : SchedulerState, isOver s = true ∧
    CompletesPlayed s.hist.world.versions := by
  obtain ⟨s, hr, hover⟩ := System.exists_of_replay (system {})
    (fun h h' => Playing h h' ∧ LastUnspoiled h h') (.init twoRounds) (firstRound ++ secondRound)
    isOver (by decide +kernel)
  exact ⟨s, hover, completesPlayed_of_reachable rfl rfl (by decide) hr⟩

/-- In every run of activations, advances and sweeps the group completes only when all rounds have
been played. -/
def PlaysOut (cfg : Config) : Prop :=
  ∀ w group s, w.versions = [group] → group.status = .pending → 1 ≤ group.totalRounds →
    (system cfg).ReachableWhen Playing (.init w) s → CompletesPlayed s.hist.world.versions

/-- The sweep ends the group in its second round, which nobody has left. -/
theorem not_playsOut : ¬ PlaysOut {} := by
  intro h
  obtain ⟨s, hr, hover⟩ := System.exists_of_replay (system {}) Playing (.init twoRounds)
    (firstRound ++ sweep) (fun s => ¬ CompletesPlayed s.hist.world.versions) (by decide +kernel)
  exact of_decide_eq_true hover (h twoRounds _ s rfl rfl (by decide) hr)

end Ahjoor.Scheduler
