import Ahjoor.Members.Permutations
import Ahjoor.Scheduler.Services

/-!
# The ways from `PENDING` to `ACTIVE`

Four paths set the status of a group to `ACTIVE`: the administrator's request, the sweep over the
statuses, and the two jobs that take the state of the contract over. Payouts and contributions
rely on what the request establishes (`Ready`). The others establish nothing of it: after them the
group is ready exactly when it was before, with the round that the path takes.
-/

namespace Ahjoor.Scheduler

open Async

/-! ### The invariant of an active group -/

/-- **A group that may run**: it has a round and enough members, and unless members are paid in
the order of joining, the payout orders are a permutation of the places. -/
structure Ready (group : GroupRow) (members : Memberships) : Prop where
  round : 1 ≤ group.currentRound
  enough : group.minMembers ≤ members.rows.length
  orders : group.payoutOrderStrategy ≠ .sequential →
    (members.rows.map (·.payoutOrder)).Perm (Members.places members.rows.length)

instance (group : GroupRow) (members : Memberships) : Decidable (Ready group members) :=
  decidable_of_iff (1 ≤ group.currentRound ∧ group.minMembers ≤ members.rows.length ∧
    (group.payoutOrderStrategy ≠ .sequential →
      (members.rows.map (·.payoutOrder)).Perm (Members.places members.rows.length)))
    ⟨fun ⟨hround, henough, horders⟩ => ⟨hround, henough, horders⟩,
      fun h => ⟨h.round, h.enough, h.orders⟩⟩

/-- The columns on which `Ready` depends. -/
structure SameTerms (group group' : GroupRow) : Prop where
  currentRound : group'.currentRound = group.currentRound
  minMembers : group'.minMembers = group.minMembers
  payoutOrderStrategy : group'.payoutOrderStrategy = group.payoutOrderStrategy

theorem ready_congr {group group' : GroupRow} {members : Memberships}
    (h : SameTerms group group') : Ready group' members ↔ Ready group members := by
  constructor <;> rintro ⟨hround, henough, horders⟩
  · exact ⟨h.currentRound ▸ hround, h.minMembers ▸ henough, h.payoutOrderStrategy ▸ horders⟩
  · refine ⟨?_, ?_, ?_⟩
    · rwa [h.currentRound]
    · rwa [h.minMembers]
    · rwa [h.payoutOrderStrategy]

/-! ### Rules for the operations -/

section Rules

variable {pid : ℕ} {w w' : World} {s : Unit} {group : GroupRow} {X : Exc → Unit → World → Prop}

theorem group_save (w : World) (group : GroupRow) :
    ∃ updatedAt, (w.save group).group = some { group with updatedAt } := by
  rw [World.save]
  split_ifs with hsame
  · obtain ⟨row, hrow, heq⟩ := System.exists_of_any hsame
    exact ⟨row.updatedAt, hrow.trans (congrArg some (of_decide_eq_true heq).symm)⟩
  · exact ⟨w.clock, rfl⟩

@[simp] theorem members_save (w : World) (group : GroupRow) :
    (w.save group).members = w.members := by
  rw [World.save]
  split_ifs <;> rfl

@[simp] theorem contract_save (w : World) (group : GroupRow) :
    (w.save group).contract = w.contract := by
  rw [World.save]
  split_ifs <;> rfl

theorem solo_findGroup {Q : Option GroupRow → Unit → World → Prop} (hok : Q w.group s w)
    (hfail : ∀ e, X e s w) : Solo exec pid findGroup Q X s w := by
  refine Solo.call fun choice r w' h => ?_
  cases choice <;> cases h
  · exact hok
  · exact hfail _

theorem solo_findGroupWithMembers {Q : Option (GroupRow × List Membership) → Unit → World → Prop}
    (hok : Q (w.group.map fun g => (g, w.members.rows)) s w) (hfail : ∀ e, X e s w) :
    Solo exec pid findGroupWithMembers Q X s w := by
  refine Solo.call fun choice r w' h => ?_
  cases choice <;> cases h
  · exact hok
  · exact hfail _

theorem solo_save {Q : Unit → Unit → World → Prop} (hok : Q () s (w.save group))
    (hfail : ∀ e, X e s w) (hlost : ∀ e, X e s (w.save group)) :
    Solo exec pid (save group) Q X s w := by
  refine Solo.call fun choice r w' h => ?_
  cases choice <;> cases h
  · exact hok
  · exact hfail _
  · exact hlost _

theorem solo_saveMembers {members : List Membership} {Q : Unit → Unit → World → Prop}
    (hok : Q () s { w with members := w.members.saveAll members }) (hfail : ∀ e, X e s w)
    (hlost : ∀ e, X e s { w with members := w.members.saveAll members }) :
    Solo exec pid (saveMembers members) Q X s w := by
  refine Solo.call fun choice r w' h => ?_
  cases choice <;> cases h
  · exact hok
  · exact hfail _
  · exact hlost _

theorem solo_countMembers {Q : ℕ → Unit → World → Prop} (hok : Q w.members.rows.length s w)
    (hfail : ∀ e, X e s w) :
    Solo exec pid (Routine.call .countMembers fun r => r : Service ℕ) Q X s w := by
  refine Solo.call fun choice r w' h => ?_
  cases choice <;> cases h
  · exact hok
  · exact hfail _

theorem solo_getGroupState {contractAddress : String} {Q : Option GroupState → Unit → World → Prop}
    (hok : Q w.contract s w) (hfail : ∀ e, X e s w) :
    Solo exec pid (Routine.call (.getGroupState contractAddress) fun r => r :
      Service (Option GroupState)) Q X s w := by
  refine Solo.call fun choice r w' h => ?_
  cases choice <;> cases h
  · exact hok
  · exact hfail _

end Rules

/-! ### The paths that establish nothing -/

/-- The members are as they were; if the group is active, it has the terms that it had, and the
round `taken`. -/
def Takes (w : World) (group : GroupRow) (taken : ℤ) (w' : World) : Prop :=
  w'.members = w.members ∧ ∀ group', w'.group = some group' → group'.status = .active →
    SameTerms { group with currentRound := taken } group'

section Takes

variable {pid : ℕ} {w : World} {group saved : GroupRow} {taken : ℤ}

theorem takes_self (hrow : w.group = some group) (hpending : group.status = .pending) :
    Takes w group taken w := by
  refine ⟨rfl, fun group' hrow' hactive => ?_⟩
  obtain rfl : group = group' := Option.some.inj (hrow.symm.trans hrow')
  rw [hpending] at hactive
  cases hactive

theorem takes_save (h : SameTerms { group with currentRound := taken } saved) :
    Takes w group taken (w.save saved) := by
  refine ⟨members_save w saved, fun group' hrow' _ => ?_⟩
  obtain ⟨updatedAt, hgroup⟩ := group_save w saved
  obtain rfl := Option.some.inj (hgroup.symm.trans hrow')
  exact ⟨h.currentRound, h.minMembers, h.payoutOrderStrategy⟩

theorem sameTerms_completed (memberCount : ℕ) (group : GroupRow) :
    SameTerms group (GroupStatusService.completed (GroupStatusService.activated memberCount group))
    := by
  rw [GroupStatusService.completed, GroupStatusService.activated]
  split_ifs <;> exact ⟨rfl, rfl, rfl⟩

/-- **The sweep** leaves everything but the status. -/
theorem takes_of_updateGroupStatuses (hrow : w.group = some group)
    (hpending : group.status = .pending) :
    Solo exec pid GroupStatusService.updateGroupStatuses
      (fun _ _ => Takes w group group.currentRound) (fun _ _ => Takes w group group.currentRound)
      () w := by
  have hself : Takes w group group.currentRound w := takes_self hrow hpending
  refine Solo.bind (solo_findGroup ?_ fun _ => hself)
  have hfilter : w.group.filter (·.status ≠ .completed) = some group := by
    rw [hrow]
    exact Option.filter_eq_some_iff.mpr ⟨rfl, by rw [hpending]; rfl⟩
  rw [hfilter]
  change Solo exec pid (GroupStatusService.checkAndUpdateGroupStatus group) _ _ () w
  rw [GroupStatusService.checkAndUpdateGroupStatus, if_pos hpending]
  refine Solo.bind (solo_countMembers ?_ fun _ => hself)
  rw [GroupStatusService.checkAndUpdateGroupStatus.finish]
  split_ifs with hchanged
  · have hsaved : Takes w group group.currentRound
        (w.save (GroupStatusService.completed
          (GroupStatusService.activated w.members.rows.length group))) :=
      takes_save (sameTerms_completed w.members.rows.length group)
    exact solo_save hsaved (fun _ => hself) fun _ => hsaved
  · exact Solo.pure hself

/-- The round that the contract reports, or else the group's own. -/
def contractRound (w : World) (group : GroupRow) : ℤ :=
  (w.contract.bind (·.current_round)).getD group.currentRound

theorem sameTerms_reconciled {state : GroupState} (hstate : w.contract = some state) :
    SameTerms { group with currentRound := contractRound w group } (reconciled state group) := by
  refine ⟨?_, rfl, rfl⟩
  rw [contractRound, hstate]
  rfl

/-- **The event job** takes over the status and the round. -/
theorem takes_of_handleSyncOnChainEvent (hrow : w.group = some group)
    (hpending : group.status = .pending) (contractAddress : String) :
    Solo exec pid (EventSyncProcessor.handleSyncOnChainEvent contractAddress)
      (fun _ _ => Takes w group (contractRound w group))
      (fun _ _ => Takes w group (contractRound w group)) () w := by
  have hself : Takes w group (contractRound w group) w := takes_self hrow hpending
  refine Solo.bind (solo_findGroup ?_ fun _ => hself)
  cases hfilter : w.group.filter (·.contractAddress = some contractAddress) with
  | none => exact Solo.pure hself
  | some found =>
    obtain rfl : group = found :=
      Option.some.inj (hrow.symm.trans (Option.filter_eq_some_iff.mp hfilter).1)
    refine Solo.bind (solo_getGroupState ?_ fun _ => hself)
    cases hstate : w.contract with
    | none => exact Solo.pure hself
    | some state =>
      change Solo exec pid (if reconciled state group ≠ group then save (reconciled state group)
        else pure ()) _ _ () w
      split_ifs with hchanged
      · have hsaved : Takes w group (contractRound w group) (w.save (reconciled state group)) :=
          takes_save (sameTerms_reconciled hstate)
        exact solo_save hsaved (fun _ => hself) fun _ => hsaved
      · exact Solo.pure hself

theorem takes_of_sync (hrow : w.group = some group) (hpending : group.status = .pending)
    (groupId : Uuid) (contractAddress : String) :
    Solo exec pid (GroupSyncProcessor.sync groupId contractAddress)
      (fun _ _ => Takes w group (contractRound w group))
      (fun _ _ => Takes w group (contractRound w group)) () w := by
  have hself : Takes w group (contractRound w group) w := takes_self hrow hpending
  refine Solo.bind (solo_findGroup ?_ fun _ => hself)
  cases hfilter : w.group.filter (·.id = groupId) with
  | none => exact Solo.pure hself
  | some found =>
    obtain rfl : group = found :=
      Option.some.inj (hrow.symm.trans (Option.filter_eq_some_iff.mp hfilter).1)
    refine Solo.bind (solo_getGroupState ?_ fun _ => hself)
    cases hstate : w.contract with
    | none => exact Solo.pure hself
    | some state =>
      change Solo exec pid (if reconciled state group ≠ group then
        save { reconciled state group with staleAt := none } else pure ()) _ _ () w
      split_ifs with hchanged
      · have hterms : SameTerms { group with currentRound := contractRound w group }
            (reconciled state group) := sameTerms_reconciled hstate
        have hsaved : Takes w group (contractRound w group)
            (w.save { reconciled state group with staleAt := none }) :=
          takes_save ⟨hterms.currentRound, rfl, rfl⟩
        exact solo_save hsaved (fun _ => hself) fun _ => hsaved
      · exact Solo.pure hself

/-- **The group job** does so under its lock. -/
theorem takes_of_handleSyncGroupState (hrow : w.group = some group)
    (hpending : group.status = .pending) (groupId : Uuid) (contractAddress : String) :
    Solo exec pid (GroupSyncProcessor.handleSyncGroupState groupId contractAddress)
      (fun _ _ => Takes w group (contractRound w group))
      (fun _ _ => Takes w group (contractRound w group)) () w := by
  refine Solo.bind (Solo.perform fun choice acquired w₁ h => ?_)
  obtain rfl : w₁ = w := by cases choice <;> cases h <;> rfl
  cases acquired with
  | false => exact Solo.pure (takes_self hrow hpending)
  | true =>
    refine Solo.bind (Solo.tryCatch (Solo.bind ((takes_of_sync hrow hpending groupId
      contractAddress).mono (fun _ _ w₂ hw₂ => Solo.pure ?_) fun e _ w₂ hw₂ => Solo.pure ?_)))
    all_goals
      refine Solo.bind (Solo.perform fun choice _ w₃ h₃ => ?_)
      obtain rfl : w₃ = w₂ := by
        cases choice <;> cases h₃
        rfl
    · exact Solo.pure hw₂
    · exact Solo.throw hw₂

end Takes

/-! ### The request of the administrator -/

/-- Saving a membership that is in the table replaces it. -/
theorem rows_save {ms : Memberships} {before after : List Membership} {m m' : Membership}
    (hrows : ms.rows = before ++ m :: after) (hid : m'.id = m.id) :
    (ms.save m').rows = before ++ m' :: after := by
  have hmem : m'.id ∈ ms.rows.map (·.id) := by
    rw [hrows, hid]
    exact List.mem_map_of_mem (List.mem_append_right before List.mem_cons_self)
  have hkeys := ms.nodup
  rw [hrows] at hkeys
  rw [Memberships.save, dif_pos hmem]
  change ms.rows.map (fun x => if x.id = m'.id then m' else x) = _
  rw [hrows]
  exact Members.map_replace hkeys hid

/-- The group is ready, if it is active. -/
def ReadyIfActive (w : World) : Prop :=
  ∀ group, w.group = some group → group.status = .active → Ready group w.members

section Activate

variable {pid : ℕ} {w : World} {group saved : GroupRow}

theorem readyIfActive_of_pending (hrow : w.group = some group) (hpending : group.status = .pending) :
    ReadyIfActive w := by
  intro group' hrow' hactive
  obtain rfl : group = group' := Option.some.inj (hrow.symm.trans hrow')
  rw [hpending] at hactive
  cases hactive

theorem readyIfActive_save (h : saved.status = .active → Ready saved w.members) :
    ReadyIfActive (w.save saved) := by
  intro group' hrow' hactive
  obtain ⟨updatedAt, hgroup⟩ := group_save w saved
  obtain rfl := Option.some.inj (hgroup.symm.trans hrow')
  have hterms : SameTerms saved { saved with updatedAt } := ⟨rfl, rfl, rfl⟩
  rw [members_save]
  exact (ready_congr hterms).mpr (h hactive)

/-- The payout orders are assigned, and the group still waits. -/
structure Assigned (group : GroupRow) (n : ℕ) (w : World) : Prop where
  row : w.group = some group
  length : w.members.rows.length = n
  orders : group.payoutOrderStrategy ≠ .sequential →
    (w.members.rows.map (·.payoutOrder)).Perm (Members.places n)

/-- The members that are still to be saved have the places `indices`. -/
structure Assigning (group : GroupRow) (indices : List ℤ) (todo : List (Membership × ℤ))
    (w : World) : Prop where
  row : w.group = some group
  rows : ∃ done : List Membership, w.members.rows = done ++ todo.map Prod.fst ∧
    done.map (·.payoutOrder) ++ todo.map (fun x => some x.2) = indices.map some

theorem solo_assigning {indices : List ℤ} {x : Membership × ℤ} {todo : List (Membership × ℤ)}
    (h : Assigning group indices (x :: todo) w) (hpending : group.status = .pending) :
    Solo exec pid (saveMembers [{ x.1 with payoutOrder := some x.2 }])
      (fun _ _ => Assigning group indices todo) (fun _ _ => ReadyIfActive) () w := by
  obtain ⟨hrow, done, hrows, horders⟩ := h
  have hsaved : (w.members.save { x.1 with payoutOrder := some x.2 }).rows =
      done ++ { x.1 with payoutOrder := some x.2 } :: todo.map Prod.fst := rows_save hrows rfl
  refine solo_saveMembers ⟨hrow, done ++ [{ x.1 with payoutOrder := some x.2 }], ?_, ?_⟩
    (fun _ => readyIfActive_of_pending hrow hpending)
    fun _ => readyIfActive_of_pending hrow hpending
  · rw [List.append_assoc]
    exact hsaved
  · rw [List.map_append, List.append_assoc]
    exact horders

/-- **The strategies** assign or check the payout orders. -/
theorem solo_assignPayoutOrders (hrow : w.group = some group) (hpending : group.status = .pending)
    (random : ℕ → ℕ) :
    Solo exec pid (GroupsService.assignPayoutOrders group.payoutOrderStrategy random
        w.members.rows)
      (fun _ _ => Assigned group w.members.rows.length) (fun _ _ => ReadyIfActive) () w := by
  have hstay : ReadyIfActive w := readyIfActive_of_pending hrow hpending
  cases hstrategy : group.payoutOrderStrategy with
  | sequential => exact Solo.pure ⟨hrow, rfl, fun hne => absurd hstrategy hne⟩
  | random =>
    have hperm := Members.perm_shuffledIndices random w.members.rows.length
    have hlength : (Members.shuffledIndices random w.members.rows.length).length =
        w.members.rows.length := Members.length_shuffledIndices ..
    have hstart : Assigning group (Members.shuffledIndices random w.members.rows.length)
        (w.members.rows.zip (Members.shuffledIndices random w.members.rows.length)) w := by
      refine ⟨hrow, [], ?_, ?_⟩
      · rw [List.nil_append, List.map_fst_zip hlength.ge]
      · have hsnd := List.map_snd_zip hlength.le
        rw [List.map_nil, List.nil_append, ← hsnd, List.map_map]
        rw [hsnd]
        rfl
    refine (Solo.forEach (J := fun todo _ => Assigning group _ todo)
      (fun x todo _ w₁ h => solo_assigning h hpending) hstart).mono
      (fun _ _ w₁ hdone => ?_) fun _ _ _ h => h
    obtain ⟨hrow₁, done, hrows, horders⟩ := hdone
    rw [List.map_nil, List.append_nil] at hrows horders
    have hplaces : (done.map (·.payoutOrder)).Perm (Members.places w.members.rows.length) := by
      rw [horders, Members.places_eq_map]
      exact hperm.map some
    refine ⟨hrow₁, ?_, fun _ => hrows ▸ hplaces⟩
    have hcount := congrArg List.length horders
    rw [List.length_map, List.length_map, hlength] at hcount
    rw [hrows, hcount]
  | adminDefined =>
    refine Solo.bind (Solo.throwWhen (fun _ => hstay) fun hall => Solo.throwWhen (fun _ => hstay)
      fun hsorted => ?_)
    exact ⟨hrow, rfl, fun _ =>
      Members.accepted_iff_perm.mp ⟨hall, of_not_not (of_decide_eq_false hsorted)⟩⟩

/-- A group that is ready stays so while it is taken back. -/
theorem solo_rollBackActivation (h : ReadyIfActive w) (saved : GroupRow) :
    Solo exec pid (GroupsService.rollBackActivation saved) (fun _ _ => ReadyIfActive)
      (fun _ _ => ReadyIfActive) () w := by
  have hsaved : ReadyIfActive (w.save { saved with status := .pending, currentRound := 0 }) :=
    readyIfActive_save nofun
  exact Solo.bind (solo_save (Solo.throw hsaved) (fun _ => h) fun _ => hsaved)

/-- Operations that reach neither the rows nor the clock leave the world alone. -/
theorem solo_dispatchEvent {event : String} {Q : Unit → Unit → World → Prop}
    {X : Exc → Unit → World → Prop} (hok : Q () () w) (hfail : ∀ e, X e () w) :
    Solo exec pid (dispatchEvent event) Q X () w := by
  refine Solo.call fun choice r w' h => ?_
  cases choice <;> cases h
  · exact hok
  · exact hfail _

/-- **The request** leaves a group that is ready, if it leaves it active. -/
theorem solo_activateGroup (hrow : w.group = some group) (hpending : group.status = .pending)
    (adminWallet : String) (random : ℕ → ℕ) :
    Solo exec pid (GroupsService.activateGroup adminWallet random) (fun _ _ => ReadyIfActive)
      (fun _ _ => ReadyIfActive) () w := by
  have hstay : ReadyIfActive w := readyIfActive_of_pending hrow hpending
  refine Solo.bind (solo_findGroupWithMembers ?_ fun _ => hstay)
  rw [hrow]
  refine Solo.bind (Solo.valueOr (fun found hfound => ?_) nofun)
  obtain rfl := Option.some.inj hfound
  refine Solo.bind (Solo.throwWhen (fun _ => hstay) fun _ => ?_)
  refine Solo.bind (Solo.throwWhen (fun _ => hstay) fun _ => ?_)
  refine Solo.bind (Solo.throwWhen (fun _ => hstay) fun hmin => ?_)
  have henough : group.minMembers ≤ w.members.rows.length := not_lt.mp (of_decide_eq_false hmin)
  refine Solo.bind ((solo_assignPayoutOrders hrow hpending random).mono
    (fun _ _ w₁ hassigned => ?_) fun _ _ _ h => h)
  have hstay₁ : ReadyIfActive w₁ := readyIfActive_of_pending hassigned.row hpending
  have hready : ∀ contractAddress, Ready
      { group with contractAddress, status := .active, currentRound := 1 } w₁.members := by
    intro contractAddress
    refine ⟨le_rfl, ?_, fun hne => ?_⟩
    · rw [hassigned.length]
      exact henough
    · rw [hassigned.length]
      exact hassigned.orders hne
  let savedGroup : GroupRow := { group with status := .active, currentRound := 1 }
  have hsaved : ReadyIfActive (w₁.save savedGroup) :=
    readyIfActive_save fun _ => hready group.contractAddress
  refine Solo.bind (solo_save ?_ (fun _ => hstay₁) fun _ => hsaved)
  refine Solo.bind (Solo.tryCatch (Solo.call fun choice r w₂ h => ?_))
  obtain rfl : w₂ = w₁.save savedGroup := by cases choice <;> cases h <;> rfl
  cases r with
  | error e => exact Solo.pure (solo_rollBackActivation hsaved savedGroup)
  | ok contractAddress =>
    have hstored : ReadyIfActive ((w₁.save savedGroup).save
        { savedGroup with contractAddress := some contractAddress }) := by
      refine readyIfActive_save fun _ => ?_
      rw [members_save]
      exact hready (some contractAddress)
    refine Solo.tryCatch (Solo.bind (solo_save ?_
      (fun _ => solo_rollBackActivation hsaved _) fun _ => solo_rollBackActivation hstored _))
    exact Solo.tryCatch (solo_dispatchEvent hstored fun _ => Solo.pure hstored)

end Activate

/-! ### The four paths -/

/-- The call can take a group from `PENDING` to `ACTIVE`. -/
def Call.activates : Call → Bool
  | activateGroup _ _ | updateGroupStatuses | handleSyncOnChainEvent _
  | handleSyncGroupState _ _ => true
  | _ => false

/-- The call is the administrator's request. -/
def Call.isActivateGroup : Call → Bool
  | activateGroup _ _ => true
  | _ => false

/-- The round in which a call activates the group. -/
def Call.roundTaken (w : World) (group : GroupRow) : Call → ℤ
  | handleSyncOnChainEvent _ | handleSyncGroupState _ _ => contractRound w group
  | _ => group.currentRound

section Paths

variable {cfg : Config} {c : Call} {pid : ℕ} {w w' : World} {x : Except Exc Unit}
  {group group' : GroupRow}

/-- What a solo run of a body leaves, a solo run of its call leaves. -/
theorem post_of_alone {P : World → Prop}
    (hsolo : Solo exec pid (c.body cfg) (fun _ _ => P) (fun _ _ => P) () w)
    (h : Alone exec pid ((system cfg).body c) w x w') : P w' := by
  obtain ⟨⟨y, s⟩, w₁, hbody, hret⟩ := Alone.of_bind h
  obtain ⟨-, rfl⟩ := alone_ret.mp hret
  have hpost := hsolo y s w' hbody
  cases y <;> exact hpost

/-- A path that takes what is there. -/
theorem ready_iff_of_takes {taken : ℤ} (h : Takes w group taken w')
    (hrow' : w'.group = some group') (hactive : group'.status = .active) :
    Ready group' w'.members ↔ Ready { group with currentRound := taken } w.members := by
  rw [h.1]
  exact ready_congr (h.2 group' hrow' hactive)

/-- **A path from `PENDING` to `ACTIVE`** leaves a group that is ready exactly when it is the
administrator's request, or the group was ready with the round that the path takes. -/
theorem ready_iff_of_activated (hc : c.activates = true) (hrow : w.group = some group)
    (hpending : group.status = .pending) (h : Alone exec pid ((system cfg).body c) w x w')
    (hrow' : w'.group = some group') (hactive : group'.status = .active) :
    Ready group' w'.members ↔ c.isActivateGroup = true ∨
      Ready { group with currentRound := c.roundTaken w group } w.members := by
  cases c with
  | activateGroup adminWallet random =>
    have hready := post_of_alone (solo_activateGroup hrow hpending adminWallet random) h
    exact iff_of_true (hready group' hrow' hactive) (.inl rfl)
  | updateGroupStatuses =>
    rw [ready_iff_of_takes (post_of_alone (takes_of_updateGroupStatuses hrow hpending) h) hrow'
      hactive]
    exact ⟨.inr, fun hor => hor.resolve_left nofun⟩
  | handleSyncOnChainEvent contractAddress =>
    rw [ready_iff_of_takes (post_of_alone (takes_of_handleSyncOnChainEvent hrow hpending
      contractAddress) h) hrow' hactive]
    exact ⟨.inr, fun hor => hor.resolve_left nofun⟩
  | handleSyncGroupState groupId contractAddress =>
    rw [ready_iff_of_takes (post_of_alone (takes_of_handleSyncGroupState hrow hpending groupId
      contractAddress) h) hrow' hactive]
    exact ⟨.inr, fun hor => hor.resolve_left nofun⟩
  | _ => cases hc

end Paths

/-! ### Two activations -/

namespace Sample

/-- A membership. -/
def member (id : Uuid) : Membership where
  id
  groupId := 0
  userId := id
  walletAddress := s!"G{id}"

/-- A group with a contract, whose two members take the places that are drawn. -/
def pendingGroup : GroupRow :=
  { monthly with
    contractAddress := some "C"
    payoutOrderStrategy := .random }

/-- The group and its members. -/
def pendingWorld : World where
  versions := [pendingGroup]
  members := { rows := [member 0, member 1] }

/-- The call leaves an active group, which is ready or not. -/
def activatedAs (ready : Bool) (x : Except Exc Unit × World) : Bool :=
  x.2.group.any fun group => group.status = .active ∧ decide (Ready group x.2.members) = ready

/-- The administrator's request. -/
def activation : Call := .activateGroup "admin" fun _ => 0

/-- What the environment decides about it. -/
def activationChoices : List Choice :=
  [.done, .done, .done, .done, .text "C", .done, .done]

end Sample

open Ahjoor.Scheduler.Sample

/-- The request activates a group of two. -/
theorem ready_iff_of_activated_sample : ∃ x w' group',
    Alone exec 0 ((system {}).body activation) pendingWorld x w' ∧ w'.group = some group' ∧
      group'.status = .active ∧ (Ready group' w'.members ↔ activation.isActivateGroup = true ∨
        Ready { pendingGroup with currentRound := activation.roundTaken pendingWorld pendingGroup }
          pendingWorld.members) := by
  obtain ⟨⟨x, w'⟩, hreplay, hready⟩ := System.exists_of_any
    (x := ((system {}).body activation).replay exec 0 activationChoices pendingWorld)
    (p := activatedAs true) (by decide +kernel)
  obtain ⟨group', hrow', hboth⟩ := System.exists_of_any hready
  have hactive := (of_decide_eq_true hboth).1
  have halone := alone_of_replay hreplay
  exact ⟨x, w', group', halone, hrow', hactive,
    ready_iff_of_activated rfl rfl rfl halone hrow' hactive⟩

/-- The paths that activate a group leave one that is ready. -/
def ActivatesReady (cfg : Config) : Prop :=
  ∀ c : Call, c.activates = true → ∀ pid w w' x group group', w.group = some group →
    group.status = .pending → Alone exec pid ((system cfg).body c) w x w' →
      w'.group = some group' → group'.status = .active → Ready group' w'.members

/-- The sweep activates a group in round 0, without payout orders. -/
theorem not_activatesReady : ¬ ActivatesReady {} := by
  intro h
  obtain ⟨⟨x, w'⟩, hreplay, hunready⟩ := System.exists_of_any
    (x := ((system {}).body .updateGroupStatuses).replay exec 0 [.done, .done, .done] pendingWorld)
    (p := activatedAs false) (by decide +kernel)
  obtain ⟨group', hrow', hboth⟩ := System.exists_of_any hunready
  obtain ⟨hactive, hready⟩ := of_decide_eq_true hboth
  exact of_decide_eq_false hready
    (h .updateGroupStatuses rfl 0 _ _ _ _ _ rfl rfl (alone_of_replay hreplay) hrow' hactive)

end Ahjoor.Scheduler
