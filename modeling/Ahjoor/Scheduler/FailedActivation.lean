import Ahjoor.Scheduler.AllOrNothing

/-!
# A failed activation

`activateGroup` saves the drawn places one by one, then the group, then the address of the deployed
contract, and takes only the group back when the deployment fails. What an activation that fails
has left is followed through from point to point (`Left`): the places that have been saved stay, and
the rollback brings back the status and round 0, neither the address nor the time stamp.

**The clock stands still within a call**: the rows that one activation saves have one time stamp, that
of its beginning.
-/

namespace Ahjoor.Scheduler

open Async

/-! ### What is claimed -/

/-- **No trace**: the row of the group and the rows of its members are as before. -/
def Untouched (w w' : World) : Prop :=
  w'.group = w.group ∧ w'.members.rows = w.members.rows

instance (w w' : World) : Decidable (Untouched w w') :=
  inferInstanceAs (Decidable (_ ∧ _))

/-! ### The condition -/

def Op.savesMembers : Op → Bool
  | saveMembers _ => true
  | _ => false

def Op.deploys : Op → Bool
  | deployRoscaContract _ => true
  | _ => false

/-- The address with which the contract has been deployed. -/
def Choice.address? : Choice → Option String
  | text s => some s
  | _ => none

/-- How many saves of a member have taken effect. -/
def memberSaves (ds : Record Op Choice) : ℕ :=
  ds.countP fun d => d.1.savesMembers && d.2.takesEffect

/-- The address of the contract, if it has been deployed. -/
def deployed (ds : Record Op Choice) : Option String :=
  ds.findSome? fun d => if d.1.deploys then d.2.address? else none

/-- The last operation is a save of the group after the deployment, and it has taken effect. -/
def RolledBack : Record Op Choice → Bool
  | [] => false
  | d :: ds => d.1.isSave && d.2.takesEffect && ds.any (·.1.deploys)

/-- The members with the places that are drawn for them. -/
def drawn (w : World) (random : ℕ → ℕ) : List (Membership × ℤ) :=
  w.members.rows.zip (Members.shuffledIndices random w.members.rows.length)

/-- The rollback brings back what was there: the group was in round 0, it had the address of the
contract already, if that has been deployed, and it was changed at this very time. -/
def Restores (w : World) (ds : Record Op Choice) (group : GroupRow) : Prop :=
  group.currentRound = 0 ∧ (deployed ds).or group.contractAddress = group.contractAddress ∧
    group.updatedAt = w.clock

/-- **Nothing is left**: the members whose saves have taken effect had the places that were drawn
for them, and the save of the group, if it has taken effect, has been rolled back to what was
there. -/
def LeavesNothing (w : World) (random : ℕ → ℕ) (ds : Record Op Choice) : Prop :=
  (∀ x ∈ (drawn w random).take (memberSaves ds), x.1.payoutOrder = some x.2) ∧
    (TookEffect Op.isSave ds → RolledBack ds = true ∧ ∀ group ∈ w.group, Restores w ds group)

instance (w : World) (ds : Record Op Choice) (group : GroupRow) : Decidable (Restores w ds group) :=
  inferInstanceAs (Decidable (_ ∧ _ ∧ _))

instance (w : World) (random : ℕ → ℕ) (ds : Record Op Choice) :
    Decidable (LeavesNothing w random ds) :=
  inferInstanceAs (Decidable ((∀ x ∈ (drawn w random).take (memberSaves ds), _) ∧ (_ → _)))

/-! ### Points of a run -/

/-- The member in its place. -/
def place (x : Membership × ℤ) : Membership := { x.1 with payoutOrder := some x.2 }

/-- The places have been saved as far as the record says. -/
def Placed (w : World) (random : ℕ → ℕ) (x : World × Record Op Choice) : Prop :=
  x.1.members.rows = ((drawn w random).take (memberSaves x.2)).map place ++
    ((drawn w random).drop (memberSaves x.2)).map Prod.fst

/-- Some places have been saved, and the rest is as before. -/
structure Placing (w : World) (random : ℕ → ℕ) (x : World × Record Op Choice) : Prop where
  placed : Placed w random x
  group : x.1.group = w.group
  clock : x.1.clock = w.clock
  unsaved : ¬ TookEffect Op.isSave x.2
  undeployed : x.2.any (·.1.deploys) = false

/-- What is left of the group: it is as before, or active, or rolled back. -/
inductive LeftGroup (w : World) (x : World × Record Op Choice) : Prop
  | same (hsave : ¬ TookEffect Op.isSave x.2) (hgroup : x.1.group = w.group)
  | active (hsave : TookEffect Op.isSave x.2) (hback : RolledBack x.2 = false)
      (group row : GroupRow) (hrow : w.group = some group) (hpending : group.status = .pending)
      (hgroup : x.1.group = some row) (hactive : row.status = .active)
  | back (hsave : TookEffect Op.isSave x.2) (hback : RolledBack x.2 = true) (group : GroupRow)
      (hrow : w.group = some group) (hpending : group.status = .pending)
      (hgroup : x.1.group = some { group with
        currentRound := 0
        contractAddress := (deployed x.2).or group.contractAddress
        updatedAt := w.clock })

/-- What is left when the activation fails. -/
structure Left (w : World) (random : ℕ → ℕ) (x : World × Record Op Choice) : Prop where
  placed : Placed w random x
  group : LeftGroup w x

section Points

variable {w : World} {random : ℕ → ℕ} {x : World × Record Op Choice}

theorem Placing.left (h : Placing w random x) : Left w random x :=
  ⟨h.placed, .same h.unsaved h.group⟩

theorem map_fst_drawn (w : World) (random : ℕ → ℕ) :
    (drawn w random).map Prod.fst = w.members.rows := by
  refine List.map_fst_zip ?_
  rw [Members.length_shuffledIndices]

/-- The members keep their rows exactly when those that have been saved had their places. -/
theorem Placed.rows_eq_iff (h : Placed w random x) : x.1.members.rows = w.members.rows ↔
    ∀ y ∈ (drawn w random).take (memberSaves x.2), y.1.payoutOrder = some y.2 := by
  have hsplit : w.members.rows = ((drawn w random).take (memberSaves x.2)).map Prod.fst ++
      ((drawn w random).drop (memberSaves x.2)).map Prod.fst := by
    rw [← List.map_append, List.take_append_drop, map_fst_drawn]
  have hrows : x.1.members.rows = _ := h
  rw [hrows, hsplit, List.append_left_inj, List.map_inj_left]
  refine forall₂_congr fun y _ => ⟨fun h => ?_, fun h => ?_⟩
  · exact (congrArg Membership.payoutOrder h).symm
  · rw [place, ← h]

/-- The group keeps its row exactly when nothing has been saved, or what was there has been brought
back. -/
theorem LeftGroup.eq_iff (h : LeftGroup w x) : x.1.group = w.group ↔
    (TookEffect Op.isSave x.2 → RolledBack x.2 = true ∧ ∀ group ∈ w.group, Restores w x.2 group) := by
  cases h with
  | same hsave hgroup => exact iff_of_true hgroup fun htook => absurd htook hsave
  | active hsave hback group row hrow hpending hgroup hactive =>
    refine iff_of_false (fun heq => ?_) fun hall => ?_
    · rw [hgroup, hrow] at heq
      obtain rfl := Option.some.inj heq
      rw [hpending] at hactive
      cases hactive
    · have hboth := (hall hsave).1
      rw [hback] at hboth
      cases hboth
  | back hsave hback group hrow hpending hgroup =>
    rw [imp_iff_right hsave, and_iff_right hback, hgroup, hrow]
    constructor
    · intro heq group' hgroup'
      obtain rfl := Option.some.inj hgroup'
      obtain heq := Option.some.inj heq
      exact ⟨(congrArg GroupRow.currentRound heq).symm, congrArg GroupRow.contractAddress heq,
        (congrArg GroupRow.updatedAt heq).symm⟩
    · intro hall
      obtain ⟨hround, haddress, hupdated⟩ := hall group rfl
      rw [haddress, ← hround, ← hupdated]

end Points

/-! ### One operation -/

section Steps

variable {w w₁ : World} {random : ℕ → ℕ} {ds : Record Op Choice} {o : Op} {choice : Choice}

theorem memberSaves_cons_of_not (h : o.savesMembers = false ∨ choice.takesEffect = false) :
    memberSaves ((o, choice) :: ds) = memberSaves ds := by
  refine List.countP_cons_of_neg ?_
  rcases h with h | h <;> simp [h]

theorem memberSaves_cons_of (ho : o.savesMembers = true) (h : choice.takesEffect = true) :
    memberSaves ((o, choice) :: ds) = memberSaves ds + 1 :=
  List.countP_cons_of_pos (by simp [ho, h])

theorem deployed_eq_none (h : ds.any (·.1.deploys) = false) : deployed ds = none := by
  refine List.findSome?_eq_none_iff.mpr fun d hd => ?_
  have hno := List.any_eq_false.mp h d hd
  rw [if_neg hno]

/-- An operation that saves no member. -/
theorem Placed.other (h : Placed w random (w₁, ds))
    (hmember : o.savesMembers = false ∨ choice.takesEffect = false) {w₂ : World}
    (hmembers : w₂.members = w₁.members) : Placed w random (w₂, (o, choice) :: ds) := by
  simp only [Placed, memberSaves_cons_of_not hmember, hmembers]
  exact h

/-- Before the deployment nothing is rolled back. -/
theorem rolledBack_of_undeployed (h : ds.any (·.1.deploys) = false) :
    RolledBack ((o, choice) :: ds) = false := by
  rw [RolledBack, h, Bool.and_false]

/-- An operation that neither saves anything nor deploys the contract. -/
theorem Placing.other (h : Placing w random (w₁, ds))
    (hmember : o.savesMembers = false ∨ choice.takesEffect = false)
    (hsave : o.isSave = false ∨ choice.takesEffect = false) (hdeploy : o.deploys = false) :
    Placing w random (w₁, (o, choice) :: ds) := by
  refine ⟨h.placed.other hmember rfl, h.group, h.clock,
    fun htook => h.unsaved ((tookEffect_cons_of_not hsave).mp htook), ?_⟩
  simpa [hdeploy] using h.undeployed

/-- The next member is saved in its place. -/
theorem Placing.save (h : Placing w random (w₁, ds)) {x : Membership × ℤ}
    {todo : List (Membership × ℤ)} (hnext : (drawn w random).drop (memberSaves ds) = x :: todo)
    (heffect : choice.takesEffect = true) :
    Placing w random ({ w₁ with members := w₁.members.saveAll [place x] },
        (.saveMembers [place x], choice) :: ds) ∧
      (drawn w random).drop (memberSaves ((.saveMembers [place x], choice) :: ds)) = todo := by
  have hcount : memberSaves ((.saveMembers [place x], choice) :: ds) = memberSaves ds + 1 :=
    memberSaves_cons_of rfl heffect
  have hdrop : (drawn w random).drop (memberSaves ds + 1) = todo := by
    rw [← List.drop_drop, hnext]
    rfl
  have htake : (drawn w random).take (memberSaves ds + 1) =
      (drawn w random).take (memberSaves ds) ++ [x] := by
    rw [List.take_add, hnext]
    rfl
  have hsave : TookEffect Op.isSave ((.saveMembers [place x], choice) :: ds) ↔
      TookEffect Op.isSave ds := tookEffect_cons_of_not (.inl rfl)
  have hrows : w₁.members.rows = ((drawn w random).take (memberSaves ds)).map place ++
      x.1 :: todo.map Prod.fst := by
    have hrows := h.placed
    rwa [Placed, hnext] at hrows
  refine ⟨⟨?_, h.group, h.clock, fun htook => h.unsaved (hsave.mp htook), ?_⟩, hcount ▸ hdrop⟩
  · have hsaved : (w₁.members.save (place x)).rows =
        ((drawn w random).take (memberSaves ds)).map place ++ place x :: todo.map Prod.fst :=
      rows_save hrows rfl
    simp only [Placed, hcount, hdrop, htake, List.map_append, List.append_assoc]
    exact hsaved
  · exact h.undeployed

theorem clock_save (w : World) (group : GroupRow) : (w.save group).clock = w.clock := by
  rw [World.save]
  split_ifs <;> rfl

/-- A save that changes the status changes the time stamp. -/
theorem group_save_of_ne {row saved : GroupRow} (hrow : w.group = some row)
    (hne : row.status ≠ saved.status) :
    (w.save saved).group = some { saved with updatedAt := w.clock } := by
  rw [World.save, if_neg]
  · rfl
  · rw [hrow]
    intro hsame
    exact hne (congrArg GroupRow.status (of_decide_eq_true hsame)).symm

end Steps

/-! ### The run -/

section Run

variable {w w₁ : World} {random : ℕ → ℕ} {ds : Record Op Choice} {group : GroupRow} {pid : ℕ}

/-- The strategies save places, or nothing. -/
theorem solo_assign_recording (strategy : Members.PayoutOrderStrategy)
    (h : Placing w random (w, ds)) (hnone : memberSaves ds = 0) :
    Solo (recording exec) pid
      (GroupsService.assignPayoutOrders strategy random w.members.rows)
      (fun _ _ => Placing w random) (fun _ _ => Placing w random) () (w, ds) := by
  cases strategy with
  | sequential => exact Solo.pure h
  | random =>
    have hstart : Placing w random (w, ds) ∧
        (drawn w random).drop (memberSaves ds) = drawn w random := ⟨h, by rw [hnone, List.drop_zero]⟩
    refine (Solo.forEach (J := fun todo _ (x : World × Record Op Choice) => Placing w random x ∧
      (drawn w random).drop (memberSaves x.2) = todo) ?_ hstart).mono (fun _ _ _ hx => hx.1)
      fun _ _ _ hx => hx
    intro y todo _ x ⟨hx, hnext⟩
    obtain ⟨w₁, ds₁⟩ := x
    refine Solo.call_recording fun choice r w₂ hexec => ?_
    cases choice <;> cases hexec
    · exact hx.save hnext rfl
    · exact hx.other (.inr rfl) (.inr rfl) rfl
    · exact (hx.save hnext rfl).1
  | adminDefined =>
    exact Solo.bind (Solo.throwWhen (fun _ => h) fun _ => Solo.throwWhen (fun _ => h) fun _ => h)

/-- The group has been saved as active, and its contract may have been deployed. -/
structure Activated (w : World) (random : ℕ → ℕ) (group : GroupRow)
    (x : World × Record Op Choice) : Prop where
  placed : Placed w random x
  clock : x.1.clock = w.clock
  saved : TookEffect Op.isSave x.2
  row : ∃ row, x.1.group = some row ∧ row.status = .active

/-- An operation that does not change the members. -/
theorem Activated.other (h : Activated w random group (w₁, ds)) {o : Op} {choice : Choice}
    (hmember : o.savesMembers = false) : Activated w random group (w₁, (o, choice) :: ds) :=
  ⟨h.placed.other (.inl hmember) rfl, h.clock, tookEffect_cons.mpr (.inr h.saved), h.row⟩

/-- The group is saved once more. -/
theorem Activated.save (h : Activated w random group (w₁, ds)) {saved : GroupRow}
    {choice : Choice} (hactive : saved.status = .active) :
    Activated w random group (w₁.save saved, (.saveGroup saved, choice) :: ds) := by
  obtain ⟨updatedAt, hgroup⟩ := group_save w₁ saved
  exact ⟨h.placed.other (.inl rfl) (members_save w₁ saved), (clock_save w₁ saved).trans h.clock,
    tookEffect_cons.mpr (.inr h.saved), _, hgroup, hactive⟩

/-- The rollback leaves the group active, or brings back the status and round 0. -/
theorem solo_rollBack (hrow : w.group = some group) (hpending : group.status = .pending)
    (h : Activated w random group (w₁, ds)) (hdeploy : ds.any (·.1.deploys) = true)
    {savedGroup : GroupRow} (hsaved : savedGroup = { group with
      status := .active
      currentRound := 1
      contractAddress := (deployed ds).or group.contractAddress }) :
    Solo (recording exec) pid (GroupsService.rollBackActivation savedGroup) (fun _ _ _ => True)
      (fun _ _ => Left w random) () (w₁, ds) := by
  obtain ⟨row, hgroup, hactive⟩ := h.row
  have htook : ∀ o choice, TookEffect Op.isSave ((o, choice) :: ds) := fun o choice =>
    tookEffect_cons.mpr (.inr h.saved)
  have hback : ∀ choice : Choice, choice.takesEffect = true → Left w random
      (w₁.save { savedGroup with status := .pending, currentRound := 0 },
        (.saveGroup { savedGroup with status := .pending, currentRound := 0 }, choice) :: ds) := by
    intro choice heffect
    refine ⟨h.placed.other (.inl rfl) (members_save _ _), .back (htook _ _) ?_ group hrow hpending
      ?_⟩
    · simp [RolledBack, Op.isSave, heffect, hdeploy]
    · rw [group_save_of_ne hgroup (by rw [hactive]; exact GroupStatus.noConfusion), hsaved,
        ← h.clock, ← hpending]
      rfl
  refine Solo.bind (Solo.call_recording fun choice r w₂ hexec => ?_)
  cases choice <;> cases hexec
  · exact Solo.throw (hback .done rfl)
  · exact ⟨h.placed.other (.inl rfl) rfl, .active (htook _ _)
      (by simp [RolledBack, Choice.takesEffect]) group row hrow hpending hgroup hactive⟩
  · exact hback (.lost _) rfl

/-- **What an activation that fails has left.** -/
theorem solo_activateGroup_recording (adminWallet : String) :
    Solo (recording exec) pid (GroupsService.activateGroup adminWallet random) (fun _ _ _ => True)
      (fun _ _ => Left w random) () (w, []) := by
  have hstart : Placing w random (w, []) := by
    refine ⟨?_, rfl, rfl, by simp [TookEffect], rfl⟩
    exact (map_fst_drawn w random).symm
  refine Solo.bind (Solo.call_recording fun choice r w₁ hexec => ?_)
  have hread : Placing w random (w, [(.findGroupWithMembers, choice)]) :=
    hstart.other (.inl rfl) (.inl rfl) rfl
  cases choice <;> cases hexec
  case fails => exact hread.left
  cases hrow : w.group with
  | none => exact Solo.bind (Solo.throw hread.left)
  | some group =>
  refine Solo.bind (Solo.pure ?_)
  refine Solo.bind (Solo.throwWhen (fun _ => hread.left) fun _ => ?_)
  refine Solo.bind (Solo.throwWhen (fun _ => hread.left) fun hstatus => ?_)
  have hpending : group.status = .pending := of_not_not (of_decide_eq_false hstatus)
  refine Solo.bind (Solo.throwWhen (fun _ => hread.left) fun _ => ?_)
  refine Solo.bind ((solo_assign_recording group.payoutOrderStrategy hread rfl).mono
    (fun _ _ x hplacing => ?_) fun _ _ _ hplacing => hplacing.left)
  obtain ⟨w₁, ds⟩ := x
  let savedGroup : GroupRow := { group with status := .active, currentRound := 1 }
  have hrow₁ : w₁.group = some group := hplacing.group.trans hrow
  have hsaved : (w₁.save savedGroup).group = some { savedGroup with updatedAt := w₁.clock } :=
    group_save_of_ne hrow₁ (by rw [hpending]; exact GroupStatus.noConfusion)
  have hplaced : ∀ choice, Placed w random
      (w₁.save savedGroup, (.saveGroup savedGroup, choice) :: ds) := fun choice =>
    hplacing.placed.other (.inl rfl) (members_save w₁ savedGroup)
  refine Solo.bind (Solo.call_recording fun choice r w₂ hexec => ?_)
  cases choice <;> cases hexec
  · have hactivated : Activated w random group
        (w₁.save savedGroup, (.saveGroup savedGroup, .done) :: ds) :=
      ⟨hplaced .done, (clock_save w₁ savedGroup).trans hplacing.clock, tookEffect_cons_of rfl rfl, _,
        hsaved, rfl⟩
    have hnone : deployed ((.saveGroup savedGroup, .done) :: ds) = none :=
      deployed_eq_none (hplacing.undeployed)
    refine Solo.bind (Solo.tryCatch (Solo.call_recording fun choice r w₂ hexec => ?_))
    have hdeployed : Activated w random group (w₁.save savedGroup,
        (.deployRoscaContract savedGroup, choice) :: (.saveGroup savedGroup, .done) :: ds) :=
      hactivated.other rfl
    cases choice <;> cases hexec
    · -- the deployment fails
      rename_i message
      refine Solo.pure (solo_rollBack hrow hpending hdeployed rfl ?_)
      have hnone : deployed ((.deployRoscaContract savedGroup, .fails message) ::
        (.saveGroup savedGroup, .done) :: ds) = none := hnone
      rw [hnone]
      rfl
    · -- the contract is deployed, and its address is to be stored
      refine Solo.tryCatch (Solo.bind (Solo.call_recording fun choice r w₂ hexec => ?_))
      cases choice <;> cases hexec
      · refine Solo.tryCatch (Solo.call_recording fun choice r w₂ hexec => ?_)
        cases choice <;> cases hexec
        · trivial
        · exact Solo.pure trivial
      · exact solo_rollBack hrow hpending (hdeployed.other rfl) rfl rfl
      · exact solo_rollBack hrow hpending (hdeployed.save rfl) rfl rfl
  · exact (hplacing.other (.inl rfl) (.inr rfl) rfl).left
  · exact ⟨hplaced _, .active (tookEffect_cons_of rfl rfl)
      (rolledBack_of_undeployed hplacing.undeployed) group _ hrow hpending hsaved rfl⟩

/-- **A failed activation leaves no trace exactly when it leaves nothing**: no other places have been
saved, and the group has not been, or has been brought back. -/
theorem untouched_iff {adminWallet : String} {w' : World} {e : Exc}
    (h : Alone (recording exec) pid (GroupsService.activateGroup adminWallet random ()) (w, [])
      (.error e, ()) (w', ds)) : Untouched w w' ↔ LeavesNothing w random ds := by
  have hleft : Left w random (w', ds) :=
    solo_activateGroup_recording adminWallet (.error e) () (w', ds) h
  have hmembers := hleft.placed.rows_eq_iff
  have hgroup := hleft.group.eq_iff
  rw [Untouched, LeavesNothing, ← hmembers, ← hgroup, and_comm]

end Run

/-! ### A deployment that fails -/

namespace Sample

/-- Two members without places, and a group that draws none. -/
def sequentialWorld : World where
  versions := [monthly]
  members := pendingWorld.members

/-- The outcome of an activation in the group. -/
abbrev Outcome := (Except Exc Unit × Unit) × (World × Record Op Choice)

/-- The activation fails and leaves nothing. -/
def withoutTrace (x : Outcome) : Bool :=
  x.1.1.isOk = false ∧ LeavesNothing sequentialWorld (fun _ => 0) x.2.2

/-- The activation fails and leaves a trace. -/
def withTrace (x : Outcome) : Bool :=
  x.1.1.isOk = false ∧ ¬ Untouched pendingWorld x.2.1

end Sample

open Ahjoor.Scheduler.Sample

/-- The save of the group fails, and there is no trace. -/
theorem untouched_sample : ∃ e w' ds,
    Alone (recording exec) 0 (GroupsService.activateGroup "admin" (fun _ => 0) ())
        (sequentialWorld, []) (.error e, ()) (w', ds) ∧ Untouched sequentialWorld w' := by
  obtain ⟨⟨⟨x, s⟩, w', ds⟩, hreplay, hwithout⟩ := System.exists_of_any
    (x := (GroupsService.activateGroup "admin" (fun _ => 0) ()).replay (recording exec) 0
      [.done, .fails "connection terminated"] (sequentialWorld, []))
    (p := withoutTrace) (by decide +kernel)
  obtain ⟨hfails, hleaves⟩ := of_decide_eq_true hwithout
  cases x with
  | ok => cases hfails
  | error e =>
    have halone := alone_of_replay hreplay
    exact ⟨e, w', ds, halone, (untouched_iff halone).mpr hleaves⟩

/-- The deployment fails, the activation is rolled back, and the places that have been drawn
stay. -/
theorem not_untouched : ¬ ∀ (adminWallet : String) (random : ℕ → ℕ) (pid : ℕ) (w : World) e w' ds,
    Alone (recording exec) pid (GroupsService.activateGroup adminWallet random ()) (w, [])
      (.error e, ()) (w', ds) → Untouched w w' := by
  intro h
  obtain ⟨⟨⟨x, s⟩, w', ds⟩, hreplay, hwith⟩ := System.exists_of_any
    (x := (GroupsService.activateGroup "admin" (fun _ => 0) ()).replay (recording exec) 0
      [.done, .done, .done, .done, .fails "timeout", .done] (pendingWorld, []))
    (p := withTrace) (by decide +kernel)
  obtain ⟨hfails, htrace⟩ := of_decide_eq_true hwith
  cases x with
  | ok => cases hfails
  | error e => exact htrace (h "admin" _ 0 _ e w' ds (alone_of_replay hreplay))

end Ahjoor.Scheduler
