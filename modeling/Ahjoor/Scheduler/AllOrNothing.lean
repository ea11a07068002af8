import Ahjoor.Async.Recording
import Ahjoor.Scheduler.Activation

/-!
# All or nothing

An advance of the round is two writes: the flags of the active members are reset, then the group is
saved with the next round. Neither is in a transaction with the other, and between them
`advanceGroupRound` awaits a batch of notifications. What an advance leaves depends on which of the
two writes have taken effect (`Advancing`), so the advance is all or nothing exactly when a reset
that changes something comes with the save, and the save with a reset of all the flags.
-/

namespace Ahjoor.Scheduler

open Async
open GroupsService (advanced)

/-! ### What is claimed -/

/-- The round. -/
def World.round (w : World) : Option ℤ := w.group.map (·.currentRound)

/-- The flags of the members. -/
def World.flags (w : World) : List (Uuid × Bool) :=
  w.members.rows.map fun m => (m.id, m.hasPaidCurrentRound)

/-- **All or nothing**: the round and the flags are as before, or the round has advanced and all
flags are reset. -/
def AllOrNothing (w w' : World) : Prop :=
  w'.round = w.round ∧ w'.flags = w.flags ∨
    w'.round = w.round.map (· + 1) ∧ ∀ f ∈ w'.flags, f.2 = false

instance (w w' : World) : Decidable (AllOrNothing w w') :=
  inferInstanceAs (Decidable (_ ∧ _ ∨ _ ∧ _))

/-- The methods that advance a round without a transaction. -/
inductive Advance
  | tryAdvanceRound
  | advanceGroupRound

/-- The body of a method; `advanceGroupRound` is given the group with its members as they are
loaded. -/
def Advance.body : Advance → Service Unit
  | tryAdvanceRound => do
      let _ ← RoundService.tryAdvanceRound
      pure ()
  | advanceGroupRound => do
      let found ← findGroupWithMembers
      match found with
      | none => pure ()
      | some (group, members) =>
          RoundAdvanceService.advanceGroupRound group (members.filter (·.status = .active))

/-! ### The condition -/

/-- The operation has its effect, whatever becomes of the reply. -/
def Choice.takesEffect : Choice → Bool
  | done | lost _ => true
  | _ => false

/-- A write of flags. -/
def Op.isReset : Op → Bool
  | resetPaid _ | saveMembers _ => true
  | _ => false

/-- A write of the group. -/
def Op.isSave : Op → Bool
  | saveGroup _ => true
  | _ => false

/-- An operation of this kind has taken effect. -/
def TookEffect (kind : Op → Bool) (ds : Record Op Choice) : Prop :=
  ∃ d ∈ ds, kind d.1 = true ∧ d.2.takesEffect = true

instance (kind : Op → Bool) (ds : Record Op Choice) : Decidable (TookEffect kind ds) :=
  inferInstanceAs (Decidable (∃ d ∈ ds, _))

/-- **The writes come together**: the group is saved after a reset, and no member keeps the flag; or
the group is not saved, and there was no reset, or nothing to reset. -/
def Together (w : World) (ds : Record Op Choice) : Prop :=
  if TookEffect Op.isSave ds then
    ∀ m ∈ w.members.rows, m.hasPaidCurrentRound = true →
      TookEffect Op.isReset ds ∧ m.status = .active
  else
    TookEffect Op.isReset ds →
      ∀ m ∈ w.members.rows, m.status = .active → m.hasPaidCurrentRound = false

instance (w : World) (ds : Record Op Choice) : Decidable (Together w ds) :=
  inferInstanceAs (Decidable (if TookEffect Op.isSave ds then _ else _))

/-! ### One operation -/

/-- The flag of an active member is reset. -/
def reset (m : Membership) : Membership :=
  if m.status = .active then { m with hasPaidCurrentRound := false } else m

/-- What the writes that have taken effect have made of `w`, whose group is `group`. -/
structure Advancing (w : World) (group : GroupRow) (w' : World) (ds : Record Op Choice) : Prop where
  round : w'.round = some (group.currentRound + if TookEffect Op.isSave ds then 1 else 0)
  rows : w'.members.rows = if TookEffect Op.isReset ds then w.members.rows.map reset
    else w.members.rows

/-- What an advance may do once the group is known. -/
def Advances (w : World) (group : GroupRow) : Op → Prop
  | .saveGroup saved => saved.currentRound = group.currentRound + 1
  | .saveMembers members => members = ((w.members.rows.filter (·.status = .active)).map
      fun m => { m with hasPaidCurrentRound := false })
  | .resetPaid onlyActive => onlyActive = true
  | .findActiveMembers | .distributePayout _ | .notify _ | .dispatchEvent _ => True
  | _ => False

theorem tookEffect_cons {kind : Op → Bool} {o : Op} {choice : Choice} {ds : Record Op Choice} :
    TookEffect kind ((o, choice) :: ds) ↔
      kind o = true ∧ choice.takesEffect = true ∨ TookEffect kind ds := by
  simp [TookEffect]

/-- An operation of another kind, or without an effect, is not one. -/
theorem tookEffect_cons_of_not {kind : Op → Bool} {o : Op} {choice : Choice}
    {ds : Record Op Choice} (h : kind o = false ∨ choice.takesEffect = false) :
    TookEffect kind ((o, choice) :: ds) ↔ TookEffect kind ds := by
  rw [tookEffect_cons]
  refine or_iff_right fun htook => ?_
  rcases h with h | h <;> simp [h] at htook

theorem tookEffect_cons_of {kind : Op → Bool} {o : Op} {choice : Choice} {ds : Record Op Choice}
    (ho : kind o = true) (h : choice.takesEffect = true) :
    TookEffect kind ((o, choice) :: ds) :=
  tookEffect_cons.mpr (.inl ⟨ho, h⟩)

theorem reset_reset (m : Membership) : reset (reset m) = reset m := by
  unfold reset
  split_ifs <;> simp_all

theorem id_reset (m : Membership) : (reset m).id = m.id := by
  unfold reset
  split_ifs <;> rfl

/-- The update resets the flags. -/
theorem rows_resetPaid (ms : Memberships) : (ms.resetPaid true).rows = ms.rows.map reset := by
  refine List.map_congr_left fun m _ => ?_
  unfold reset
  by_cases hm : m.status = .active <;> simp [hm]

/-! ### Saving members -/

/-- The row that is left when these rows are saved one after another. -/
def replaced (xs : List Membership) (m : Membership) : Membership :=
  xs.foldl (fun m x => if m.id = x.id then x else m) m

theorem rows_saveAll {xs : List Membership} {ms : Memberships}
    (hmem : ∀ x ∈ xs, x.id ∈ ms.rows.map (·.id)) :
    (ms.saveAll xs).rows = ms.rows.map (replaced xs) := by
  induction xs generalizing ms with
  | nil => exact (List.map_id _).symm
  | cons x xs ih =>
    obtain ⟨hx, hxs⟩ := List.forall_mem_cons.mp hmem
    have hsave : (ms.save x).rows = ms.rows.map fun m => if m.id = x.id then x else m := by
      rw [Memberships.save, dif_pos hx]
      rfl
    have hids : (ms.save x).rows.map (·.id) = ms.rows.map (·.id) := by
      rw [hsave, List.map_map]
      refine List.map_congr_left fun m _ => ?_
      by_cases hm : m.id = x.id <;> simp [hm]
    change ((ms.save x).saveAll xs).rows = _
    rw [ih (hids.symm ▸ hxs), hsave, List.map_map]
    rfl

theorem replaced_of_notMem {xs : List Membership} {m : Membership} (h : ∀ x ∈ xs, m.id ≠ x.id) :
    replaced xs m = m := by
  induction xs with
  | nil => rfl
  | cons x xs ih =>
    obtain ⟨hx, hxs⟩ := List.forall_mem_cons.mp h
    rw [replaced, List.foldl_cons, if_neg hx]
    exact ih hxs

/-- The only row with its key is the one that is left. -/
theorem replaced_of_mem {xs : List Membership} {m x : Membership} (hid : m.id = x.id)
    (hx : m = x ∨ x ∈ xs) (hunique : ∀ y ∈ xs, y.id = x.id → y = x) : replaced xs m = x := by
  induction xs generalizing m with
  | nil => exact hx.resolve_right List.not_mem_nil
  | cons y xs ih =>
    obtain ⟨hy, hys⟩ := List.forall_mem_cons.mp hunique
    rw [replaced, List.foldl_cons]
    by_cases hsame : m.id = y.id
    · rw [if_pos hsame]
      obtain rfl := hy (hsame.symm.trans hid)
      exact ih rfl (.inl rfl) hys
    · rw [if_neg hsame]
      refine ih hid (hx.imp_right fun hmem => ?_) hys
      exact (List.mem_cons.mp hmem).resolve_left fun heq => hsame (hid.trans (congrArg _ heq))

/-- Saving the active members with their flags reset resets the flags. -/
theorem replaced_active {rows : List Membership} (hnodup : (rows.map (·.id)).Nodup)
    {m m' : Membership} (hm : m ∈ rows) (hm' : m' = m ∨ m' = reset m) :
    replaced ((rows.filter (·.status = .active)).map
      fun m => { m with hasPaidCurrentRound := false }) m' = reset m := by
  have hid : m'.id = m.id := by
    rcases hm' with rfl | rfl
    · rfl
    · exact id_reset m
  have hsame : ∀ n ∈ rows, n.id = m.id → n = m := fun n hn heq =>
    List.inj_on_of_nodup_map hnodup hn hm heq
  by_cases hactive : m.status = .active
  · have hreset : reset m = { m with hasPaidCurrentRound := false } := if_pos hactive
    rw [hreset]
    refine replaced_of_mem hid (.inr (List.mem_map.mpr ⟨m, ?_, rfl⟩)) fun y hy heq => ?_
    · exact List.mem_filter.mpr ⟨hm, decide_eq_true hactive⟩
    · obtain ⟨n, hn, rfl⟩ := List.mem_map.mp hy
      rw [hsame n (List.mem_filter.mp hn).1 heq]
  · have hreset : reset m = m := if_neg hactive
    obtain rfl : m' = m := by
      rcases hm' with rfl | rfl
      · rfl
      · exact hreset
    rw [hreset]
    refine replaced_of_notMem fun x hx heq => ?_
    obtain ⟨n, hn, rfl⟩ := List.mem_map.mp hx
    obtain ⟨hrow, hstatus⟩ := List.mem_filter.mp hn
    exact hactive (hsame n hrow heq.symm ▸ of_decide_eq_true hstatus)

/-! ### One operation -/

section Step

variable {w w₁ w₂ : World} {group : GroupRow} {ds : Record Op Choice} {pid : ℕ}

/-- A write that takes effect, or nothing. -/
theorem exec_cases {o : Op} {choice : Choice} {r : o.Ret}
    (ho : Advances w group o) (h : exec o pid choice w₁ = some (r, w₂)) :
    w₂ = if choice.takesEffect then o.write w₁ else w₁ := by
  cases o with
  | saveGroup | saveMembers | resetPaid | findActiveMembers | distributePayout | notify
    | dispatchEvent => cases choice <;> cases h <;> rfl
  | _ => cases ho

/-- An operation that neither saves the group nor resets a flag. -/
theorem Advancing.other (h : Advancing w group w₁ ds) {o : Op} {choice : Choice}
    (hsave : o.isSave = false ∨ choice.takesEffect = false)
    (hreset : o.isReset = false ∨ choice.takesEffect = false) :
    Advancing w group w₁ ((o, choice) :: ds) := by
  refine ⟨?_, ?_⟩
  · simp only [tookEffect_cons_of_not hsave]
    exact h.round
  · simp only [tookEffect_cons_of_not hreset]
    exact h.rows

/-- The flags are reset, whether or not they have been before. -/
theorem Advancing.resets (h : Advancing w group w₁ ds) {o : Op} {choice : Choice}
    (ho : o.isReset = true) (hsave : o.isSave = false) (heffect : choice.takesEffect = true)
    {ms : Memberships} {f : Membership → Membership} (hms : ms.rows = w₁.members.rows.map f)
    (hf : ∀ m ∈ w.members.rows, f m = reset m ∧
      f (reset m) = reset m) :
    Advancing w group { w₁ with members := ms } ((o, choice) :: ds) := by
  refine ⟨?_, ?_⟩
  · simp only [tookEffect_cons_of_not (.inl hsave)]
    exact h.round
  · rw [if_pos (tookEffect_cons_of ho heffect)]
    change ms.rows = _
    rw [hms, h.rows]
    split
    next =>
      rw [List.map_map]
      exact List.map_congr_left fun m hm => (hf m hm).2
    next => exact List.map_congr_left fun m hm => (hf m hm).1

/-- **The step**: what an operation leaves is what the writes on record have made. -/
theorem Advancing.step (h : Advancing w group w₁ ds) {o : Op} {choice : Choice} {r : o.Ret}
    (ho : Advances w group o) (hexec : exec o pid choice w₁ = some (r, w₂)) :
    Advancing w group w₂ ((o, choice) :: ds) := by
  have hw₂ := exec_cases ho hexec
  cases heffect : choice.takesEffect with
  | false =>
    rw [heffect, if_neg Bool.false_ne_true] at hw₂
    exact hw₂ ▸ h.other (.inr heffect) (.inr heffect)
  | true =>
    rw [heffect, if_pos rfl] at hw₂
    subst hw₂
    cases o with
    | saveGroup saved =>
      obtain ⟨updatedAt, hgroup⟩ := group_save w₁ saved
      have hround : (w₁.save saved).round = some (group.currentRound + 1) := by
        rw [World.round, hgroup]
        exact congrArg some ho
      have hreset : TookEffect Op.isReset ((.saveGroup saved, choice) :: ds) ↔
          TookEffect Op.isReset ds := tookEffect_cons_of_not (.inl rfl)
      refine ⟨?_, ?_⟩
      · rw [if_pos (tookEffect_cons_of rfl heffect)]
        exact hround
      · simp only [hreset]
        exact (congrArg Memberships.rows (members_save w₁ saved)).trans h.rows
    | saveMembers members =>
      obtain rfl := ho
      have hids : ∀ x ∈ ((w.members.rows.filter (·.status = .active)).map fun m =>
          { m with hasPaidCurrentRound := false }), x.id ∈ w₁.members.rows.map (·.id) := by
        intro x hx
        obtain ⟨m, hm, rfl⟩ := List.mem_map.mp hx
        have hrow := List.mem_of_mem_filter hm
        rw [h.rows]
        split
        next =>
          rw [List.map_map]
          exact List.mem_map.mpr ⟨m, hrow, id_reset m⟩
        next => exact List.mem_map.mpr ⟨m, hrow, rfl⟩
      exact h.resets rfl rfl heffect (rows_saveAll hids) fun m hm =>
        ⟨replaced_active w.members.nodup hm (.inl rfl),
          replaced_active w.members.nodup hm (.inr rfl)⟩
    | resetPaid onlyActive =>
      obtain rfl : onlyActive = true := ho
      exact h.resets rfl rfl heffect (rows_resetPaid w₁.members) fun m _ => ⟨rfl, reset_reset m⟩
    | findActiveMembers => exact h.other (.inl rfl) (.inl rfl)
    | distributePayout round => exact h.other (.inl rfl) (.inl rfl)
    | notify ns => exact h.other (.inl rfl) (.inl rfl)
    | dispatchEvent event => exact h.other (.inl rfl) (.inl rfl)
    | _ => cases ho

end Step

/-! ### The methods -/

section Methods

variable {w : World} {group : GroupRow} {pid : ℕ}

theorem performs_call {α : Type} {o : Op} {out : o.Ret → Except Exc α} (h : Advances w group o) :
    Routine.Performs (Advances w group) (Routine.call o out : Service α) :=
  (Routine.uses_call (P := Advances w group) h).performs

theorem performs_pure {α : Type} (a : α) :
    Routine.Performs (Advances w group) (pure a : Service α) :=
  (Routine.uses_pure (P := Advances w group) a).performs

theorem performs_ignoreFailure {m : Service Unit} (hm : Routine.Performs (Advances w group) m) :
    Routine.Performs (Advances w group) (ignoreFailure m) :=
  Routine.performs_tryCatch hm fun _ => performs_pure ()

theorem performs_advanceGroupRound : Routine.Performs (Advances w group)
    (RoundAdvanceService.advanceGroupRound group
      (w.members.rows.filter (·.status = .active))) := by
  refine Routine.performs_ite (performs_call rfl) ?_
  refine Routine.performs_bind (performs_call rfl) fun _ => ?_
  exact Routine.performs_bind (performs_call trivial) fun _ => performs_call rfl

/-- What is left of `tryAdvanceRound` once the group is known. -/
theorem performs_tryAdvanceRound : Routine.Performs (Advances w group)
    (if group.status ≠ .active then pure false
      else do
        let memberships : List Membership ← Routine.call .findActiveMembers fun r => r
        if memberships.length = 0 then pure false
        else if !memberships.all (·.hasPaidCurrentRound) then pure false
        else if group.totalRounds < group.currentRound + 1 then do
          save (advanced group)
          ignoreFailure (dispatchEvent "GROUP_COMPLETED")
          ignoreFailure (Routine.call (.distributePayout group.currentRound) fun r => r)
          pure true
        else do
          Routine.call (.resetPaid true) fun r => r
          save (advanced group)
          ignoreFailure (Routine.call (.distributePayout group.currentRound) fun r => r)
          ignoreFailure (notify (roundOpened (advanced group) memberships))
          pure true : Service Bool) := by
  have hpayout : Routine.Performs (Advances w group)
      (ignoreFailure (Routine.call (.distributePayout group.currentRound) fun r => r)) :=
    performs_ignoreFailure (performs_call trivial)
  refine Routine.performs_ite (performs_pure false) ?_
  refine Routine.performs_bind (performs_call trivial) fun memberships => ?_
  refine Routine.performs_ite (performs_pure false) ?_
  refine Routine.performs_ite (performs_pure false) (Routine.performs_ite ?_ ?_)
  · refine Routine.performs_bind (performs_call rfl) fun _ => ?_
    refine Routine.performs_bind (performs_ignoreFailure (performs_call trivial)) fun _ => ?_
    exact Routine.performs_bind hpayout fun _ => performs_pure true
  · refine Routine.performs_bind (performs_call rfl) fun _ => ?_
    refine Routine.performs_bind (performs_call rfl) fun _ => ?_
    refine Routine.performs_bind hpayout fun _ => ?_
    refine Routine.performs_bind (performs_ignoreFailure (performs_call trivial)) fun _ => ?_
    exact performs_pure true

/-- Nothing has been performed. -/
theorem Advancing.start (hrow : w.group = some group) : Advancing w group w [] :=
  ⟨(congrArg (Option.map _) hrow).trans (congrArg some (add_zero _).symm), rfl⟩

theorem solo_remaining {m : Service Bool} {ds : Record Op Choice}
    (hm : Routine.Performs (Advances w group) m) (h : Advancing w group w ds) :
    Solo (recording exec) pid m (fun _ _ x => Advancing w group x.1 x.2)
      (fun _ _ x => Advancing w group x.1 x.2) () (w, ds) :=
  Solo.keeps_recording (J := Advancing w group)
    (fun _ _ _ _ _ _ ho hexec hds => hds.step ho hexec) hm h

/-- **What an advance leaves** is what its writes have made of the group and its members. -/
theorem solo_advance (hrow : w.group = some group) (method : Advance) :
    Solo (recording exec) pid method.body (fun _ _ x => Advancing w group x.1 x.2)
      (fun _ _ x => Advancing w group x.1 x.2) () (w, []) := by
  have hstart := Advancing.start hrow
  cases method with
  | tryAdvanceRound =>
    refine Solo.bind (Solo.bind (Solo.call_recording fun choice r w' hexec => ?_))
    cases choice <;> cases hexec
    · rw [hrow]
      exact (solo_remaining performs_tryAdvanceRound
        (hstart.other (.inl rfl) (.inl rfl))).mono (fun _ _ _ hx => Solo.pure hx) fun _ _ _ hx => hx
    · exact hstart.other (.inl rfl) (.inl rfl)
  | advanceGroupRound =>
    refine Solo.bind (Solo.call_recording fun choice r w' hexec => ?_)
    cases choice <;> cases hexec
    · rw [hrow]
      exact Solo.keeps_recording (J := Advancing w group)
        (fun _ _ _ _ _ _ ho hexec hds => hds.step ho hexec) performs_advanceGroupRound
        (hstart.other (.inl rfl) (.inl rfl))
    · exact hstart.other (.inl rfl) (.inl rfl)

/-- Nothing has been written. -/
def Unwritten (w : World) (x : World × Record Op Choice) : Prop :=
  x.1 = w ∧ ¬ TookEffect Op.isSave x.2 ∧ ¬ TookEffect Op.isReset x.2

/-- Without a group nothing is written. -/
theorem solo_without (hrow : w.group = none) (method : Advance) :
    Solo (recording exec) pid method.body (fun _ _ => Unwritten w) (fun _ _ => Unwritten w) ()
      (w, []) := by
  have hread : ∀ (o : Op) (choice : Choice), o.isSave = false → o.isReset = false →
      Unwritten w (w, [(o, choice)]) := fun o choice hsave hreset =>
    ⟨rfl, by simp [TookEffect, hsave], by simp [TookEffect, hreset]⟩
  cases method with
  | tryAdvanceRound =>
    refine Solo.bind (Solo.bind (Solo.call_recording fun choice r w' hexec => ?_))
    cases choice <;> cases hexec
    · rw [hrow]
      exact Solo.pure (Solo.pure (hread _ _ rfl rfl))
    · exact hread _ _ rfl rfl
  | advanceGroupRound =>
    refine Solo.bind (Solo.call_recording fun choice r w' hexec => ?_)
    cases choice <;> cases hexec
    · rw [hrow]
      exact Solo.pure (hread _ _ rfl rfl)
    · exact hread _ _ rfl rfl

end Methods

/-! ### The equivalence -/

section Equivalence

variable {w w' : World} {group : GroupRow} {ds : Record Op Choice} {pid : ℕ}

theorem paid_reset (m : Membership) : (reset m).hasPaidCurrentRound = true ↔
    m.hasPaidCurrentRound = true ∧ m.status ≠ .active := by
  unfold reset
  split_ifs with hactive <;> simp [hactive]

/-- The flags that are left after a reset. -/
theorem flags_reset_eq {rows : List Membership} :
    (rows.map reset).map (fun m => (m.id, m.hasPaidCurrentRound)) =
        rows.map (fun m => (m.id, m.hasPaidCurrentRound)) ↔
      ∀ m ∈ rows, m.status = .active → m.hasPaidCurrentRound = false := by
  rw [List.map_map, List.map_inj_left]
  refine forall₂_congr fun m _ => ?_
  have hflag := paid_reset m
  simp only [Function.comp_apply, id_reset, Prod.mk.injEq, true_and]
  cases hm : m.hasPaidCurrentRound <;> cases hr : (reset m).hasPaidCurrentRound <;> simp_all

/-- Everything is as the writes on record have made it. -/
theorem Advancing.together_iff (h : Advancing w group w' ds) (hrow : w.group = some group) :
    AllOrNothing w w' ↔ Together w ds := by
  have hround : w.round = some group.currentRound := congrArg (Option.map _) hrow
  have hflags : w'.flags = (if TookEffect Op.isReset ds then w.members.rows.map reset
      else w.members.rows).map fun m => (m.id, m.hasPaidCurrentRound) :=
    congrArg (List.map _) h.rows
  unfold AllOrNothing Together
  rw [h.round, hround, hflags]
  by_cases hsave : TookEffect Op.isSave ds
  · -- the round has advanced: the flags have to be reset
    rw [if_pos hsave, if_pos hsave, or_iff_right fun hsame => by simpa using hsame.1]
    rw [Option.map_some, and_iff_right rfl, List.forall_mem_map]
    by_cases hreset : TookEffect Op.isReset ds
    · rw [if_pos hreset, List.forall_mem_map]
      refine forall₂_congr fun m _ => ?_
      have hflag := paid_reset m
      rw [← Bool.not_eq_true, hflag, not_and_not_right, and_iff_right hreset]
    · rw [if_neg hreset]
      refine forall₂_congr fun m _ => ?_
      rw [← Bool.not_eq_true]
      exact ⟨fun hunset hset => absurd hset hunset, fun hset hpaid => hreset (hset hpaid).1⟩
  · -- the round stays: the flags have to stay
    rw [if_neg hsave, if_neg hsave, or_iff_left fun hnext => by simpa using hnext.1]
    rw [add_zero, and_iff_right rfl]
    by_cases hreset : TookEffect Op.isReset ds
    · rw [if_pos hreset, imp_iff_right hreset]
      exact flags_reset_eq
    · rw [if_neg hreset]
      exact iff_of_true rfl fun hreset' => absurd hreset' hreset

/-- **An advance is all or nothing exactly when its writes come together.** -/
theorem allOrNothing_iff (method : Advance) {x : Except Exc Unit × Unit}
    (h : Alone (recording exec) pid (method.body ()) (w, []) x (w', ds)) :
    AllOrNothing w w' ↔ Together w ds := by
  obtain ⟨y, s⟩ := x
  cases hrow : w.group with
  | none =>
    have hpost := solo_without hrow method y s (w', ds) h
    have hunwritten : Unwritten w (w', ds) := by cases y <;> exact hpost
    obtain ⟨rfl, hsave, hreset⟩ := hunwritten
    refine iff_of_true (.inl ⟨rfl, rfl⟩) ?_
    rw [Together, if_neg hsave]
    exact fun hreset' => absurd hreset' hreset
  | some group =>
    have hpost := solo_advance hrow method y s (w', ds) h
    have hadvancing : Advancing w group w' ds := by cases y <;> exact hpost
    exact hadvancing.together_iff hrow

end Equivalence

/-! ### A batch of notifications that fails -/

/-- A step of an advance: the reset, the batch of notifications or the save. -/
def Op.isStep : Op → Bool
  | notify _ => true
  | o => o.isReset || o.isSave

def Choice.isFailure : Choice → Bool
  | fails _ | lost _ => true
  | _ => false

/-- A step of the advance has failed. -/
def StepFails (ds : Record Op Choice) : Prop := ∃ d ∈ ds, d.1.isStep = true ∧ d.2.isFailure = true

instance (ds : Record Op Choice) : Decidable (StepFails ds) :=
  inferInstanceAs (Decidable (∃ d ∈ ds, _))

namespace Sample

/-- The first of three rounds, which both members have paid. -/
def paidWorld : World where
  versions := [{ monthly with status := .active, currentRound := 1, totalRounds := 3 }]
  members := { rows := [{ member 0 with hasPaidCurrentRound := true },
    { member 1 with hasPaidCurrentRound := true }] }

/-- A step fails, and the writes have come together. -/
def harmless (x : (Except Exc Unit × Unit) × (World × Record Op Choice)) : Bool :=
  StepFails x.2.2 ∧ Together paidWorld x.2.2

/-- A step fails, and the payments are forgotten. -/
def forgetful (x : (Except Exc Unit × Unit) × (World × Record Op Choice)) : Bool :=
  StepFails x.2.2 ∧ ¬ AllOrNothing paidWorld x.2.1

end Sample

open Ahjoor.Scheduler.Sample

/-- The reset fails, and nothing is lost. -/
theorem allOrNothing_sample : ∃ x w' ds,
    Alone (recording exec) 0 (Advance.tryAdvanceRound.body ()) (paidWorld, []) x (w', ds) ∧
      StepFails ds ∧ AllOrNothing paidWorld w' := by
  obtain ⟨⟨x, w', ds⟩, hreplay, hharmless⟩ := System.exists_of_any
    (x := (Advance.tryAdvanceRound.body ()).replay (recording exec) 0
      [.done, .done, .fails "connection terminated"] (paidWorld, []))
    (p := harmless) (by decide +kernel)
  obtain ⟨hfails, htogether⟩ := of_decide_eq_true hharmless
  have halone := alone_of_replay hreplay
  exact ⟨x, w', ds, halone, hfails, (allOrNothing_iff .tryAdvanceRound halone).mpr htogether⟩

/-- After the flags have been reset the batch fails, and the round stays the same. -/
theorem not_allOrNothing : ¬ ∀ (method : Advance) (pid : ℕ) (w : World) x w' ds,
    Alone (recording exec) pid (method.body ()) (w, []) x (w', ds) → StepFails ds →
      AllOrNothing w w' := by
  intro h
  obtain ⟨⟨x, w', ds⟩, hreplay, hforgetful⟩ := System.exists_of_any
    (x := (Advance.advanceGroupRound.body ()).replay (recording exec) 0
      [.done, .done, .fails "connection terminated"] (paidWorld, []))
    (p := forgetful) (by decide +kernel)
  obtain ⟨hfails, hforgotten⟩ := of_decide_eq_true hforgetful
  exact hforgotten (h .advanceGroupRound 0 _ _ _ _ (alone_of_replay hreplay) hfails)

end Ahjoor.Scheduler
