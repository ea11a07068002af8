import Ahjoor.Members.Places
import Ahjoor.Members.Saving

/-!
# Departed members

A membership that is saved after it has been deleted is inserted again. A departure loads the
memberships that remain and saves them one after another; a suspension or a reinstatement loads and
saves one. As long as none of them saves a membership that another call has deleted in between,
whoever has departed stays out until an addition or an admission takes them in.
-/

namespace Ahjoor.Members

open Async

/-! ### What is claimed -/

/-- Whoever has a membership in `d'` and had none in `d` was taken in by a transaction that
inserted it. -/
def StaysOut (d d' : Tables) : Prop :=
  ∃ later, d'.log = later ++ d.log ∧
    ∀ u ∈ d'.users, u ∉ d.users → ∃ xs ∈ later, u ∈ xs.filterMap Write.insertedUser

/-- The write deletes a membership. -/
def Write.deletes (id : Uuid) : Write → Bool
  | .removeMember member => member.id = id
  | _ => false

/-- A membership has been deleted. -/
def Deleted (id : Uuid) (d : Tables) : Prop := ∃ xs ∈ d.log, ∃ x ∈ xs, x.deletes id = true

/-- The membership has been deleted, and its user has no other. -/
def Departed (member : Member) (d : Tables) : Prop :=
  Deleted member.id d ∧ member.userId ∉ d.users

instance (id : Uuid) (d : Tables) : Decidable (Deleted id d) :=
  inferInstanceAs (Decidable (∃ xs ∈ d.log, ∃ x ∈ xs, _))

instance (member : Member) (d : Tables) : Decidable (Departed member d) :=
  inferInstanceAs (Decidable (_ ∧ _))

/-- Only calls on the memberships are started, and none saves a membership that has been deleted
since it was loaded. -/
def SavesNoDeparted (h h' : MembersHist) : Prop :=
  CallsOnMembers h h' ∧
    match h'.trace with
    | .did _ (.db (.write (.saveMember member))) _ w :: _ => ¬ Departed member w.tables
    | _ => True

instance : DecidableRel SavesNoDeparted := fun h h' => by
  unfold SavesNoDeparted
  refine @instDecidableAnd _ _ inferInstance ?_
  rcases h'.trace with _ | ⟨_ | ⟨_, o, _, _⟩ | _ | _, _⟩
  case cons.did =>
    rcases o with q | _
    case db =>
      rcases q with _ | _ | _ | _
      case write x _ => rcases x with _ | _ <;> infer_instance
      all_goals infer_instance
    all_goals infer_instance
  all_goals infer_instance

/-! ### What a step can do to the members -/

variable {missing : OnMissing} {d d' : Tables}

theorem StaysOut.of_log {d d' : Tables} (hlog : d'.log = d.log) (husers : d'.users = d.users) :
    StaysOut d d' :=
  ⟨[], hlog, fun _ hu hout => absurd (husers ▸ hu) hout⟩

theorem StaysOut.trans {d₁ d₂ d₃ : Tables} (h : StaysOut d₁ d₂) (h' : StaysOut d₂ d₃) :
    StaysOut d₁ d₃ := by
  obtain ⟨later, hlog, hout⟩ := h
  obtain ⟨later', hlog', hout'⟩ := h'
  refine ⟨later' ++ later, by rw [hlog', hlog, List.append_assoc], fun u hu hno => ?_⟩
  by_cases hmid : u ∈ d₂.users
  · obtain ⟨xs, hxs, hins⟩ := hout u hmid hno
    exact ⟨xs, List.mem_append_right _ hxs, hins⟩
  · obtain ⟨xs, hxs, hins⟩ := hout' u hu hmid
    exact ⟨xs, List.mem_append_left _ hxs, hins⟩

theorem Deleted.of_staysOut {id : Uuid} (hd : Deleted id d) (h : StaysOut d d') : Deleted id d' := by
  obtain ⟨xs, hxs, hdel⟩ := hd
  obtain ⟨later, hlog, -⟩ := h
  exact ⟨xs, hlog ▸ List.mem_append_right _ hxs, hdel⟩

/-- Keys stay with their users, who has departed stays out, and a key that is gone was deleted. -/
structure Follows (d d' : Tables) : Prop where
  owned : Owned d → Owned d'
  issued : d.issued <+: d'.issued
  staysOut : StaysOut d d'
  ids : ∀ id ∈ d.ids, id ∈ d'.ids ∨ Deleted id d'

theorem Follows.refl (d : Tables) : Follows d d :=
  ⟨id, List.prefix_rfl, .of_log rfl rfl, fun _ h => .inl h⟩

theorem Follows.trans {d₁ d₂ d₃ : Tables} (h : Follows d₁ d₂) (h' : Follows d₂ d₃) :
    Follows d₁ d₃ := by
  refine ⟨fun hd => h'.owned (h.owned hd), h.issued.trans h'.issued, h.staysOut.trans h'.staysOut,
    fun id hid => ?_⟩
  rcases h.ids id hid with hpresent | hdeleted
  · exact h'.ids id hpresent
  · exact .inr (hdeleted.of_staysOut h'.staysOut)

variable (missing) in
/-- A deletion. -/
theorem Follows.removeMember (d : Tables) (member : Member) :
    Follows d (d.commit missing [.removeMember member]) := by
  refine ⟨fun hd m hm => hd m (List.mem_of_mem_filter hm), List.prefix_rfl,
    ⟨[[.removeMember member]], rfl, fun u hu hout => ?_⟩, fun id hid => ?_⟩
  · have hsublist : (d.commit missing [.removeMember member]).users.Sublist d.users :=
      List.filter_sublist.map _
    exact absurd (hsublist.subset hu) hout
  · obtain ⟨m, hm, rfl⟩ := List.mem_map.mp hid
    by_cases heq : m.id = member.id
    · exact .inr ⟨_, List.mem_cons_self, _, List.mem_singleton_self _, decide_eq_true heq.symm⟩
    · exact .inl (List.mem_map_of_mem (List.mem_filter.mpr ⟨hm, decide_eq_true heq⟩))

theorem ids_eq_holders (d : Tables) : d.ids = d.holders.map Prod.fst := by
  rw [Tables.ids, Tables.holders, List.map_map]
  rfl

/-- A save of a membership that is in the table. -/
theorem Follows.saveMember (hd : Owned d) {member : Member}
    (hmember : d.issued[member.id]? = some member.userId) (hpresent : member.id ∈ d.ids) :
    Follows d (d.commit missing [.saveMember member]) := by
  have hholders : (d.commit missing [.saveMember member]).holders = d.holders :=
    holders_saveMember hd hmember (.inr hpresent)
  refine ⟨fun _ m hm => ?_, List.prefix_rfl, ⟨[[.saveMember member]], rfl, fun u hu hout => ?_⟩,
    fun id hid => .inl ?_⟩
  · have hmem : (m.id, m.userId) ∈ d.holders := hholders ▸ List.mem_map_of_mem hm
    obtain ⟨m', hm', heq⟩ := List.mem_map.mp hmem
    obtain ⟨hid, huser⟩ := Prod.mk.inj heq
    rw [← hid, ← huser]
    exact hd m' hm'
  · rw [users_eq_holders, hholders, ← users_eq_holders] at hu
    exact absurd hu hout
  · rw [ids_eq_holders, hholders, ← ids_eq_holders]
    exact hid

theorem Owned.view (hd : Owned d) {xs : List Write} (hxs : ∀ x ∈ xs, x.takesIn = true) :
    Owned (d.view missing xs) := by
  induction xs generalizing d with
  | nil => exact hd
  | cons x xs ih =>
    refine ih ?_ fun y hy => hxs y (List.mem_cons_of_mem _ hy)
    have hx := hxs x List.mem_cons_self
    cases x with
    | insertMember member => exact hd.insertMember member
    | saveEntry entry => exact hd
    | _ => cases hx

theorem Follows.takeIn (d : Tables) {xs : List Write} (hxs : ∀ x ∈ xs, x.takesIn = true) :
    Follows d (d.commit missing xs) := by
  obtain ⟨new, hnew, husers, -⟩ := members_view missing d hxs
  have hmembers : (d.commit missing xs).members = d.members ++ new := hnew
  refine ⟨fun hd => ?_, issued_view missing d xs, ⟨[xs], rfl, fun u hu hout => ?_⟩, fun id hid => .inl ?_⟩
  · have howned : Owned (d.view missing xs) := hd.view hxs
    exact howned
  · refine ⟨xs, List.mem_singleton_self _, husers ▸ ?_⟩
    rw [Tables.users, hmembers, List.map_append] at hu
    exact (List.mem_append.mp hu).resolve_left hout
  · rw [Tables.ids, hmembers, List.map_append]
    exact List.mem_append_left _ hid

/-! ### Contracts -/

/-- What holds at any time: keys are with their users, and open transactions only take members
in. -/
structure Traced (w : World) : Prop where
  owned : Owned w.tables
  pending : ∀ p xs, w.pending p = some xs → ∀ x ∈ xs, x.takesIn = true

/-- What a step of a call does. -/
structure Moves (w w' : World) : Prop where
  traced : Traced w → Traced w'
  follows : Follows w.tables w'.tables

theorem Moves.refl (w : World) : Moves w w := ⟨id, .refl _⟩

/-- The contract of a call that saves no departed member. -/
def departureContract : Contract Op.Ret World where
  rely := Moves
  guarantee := Moves
  expects _ o w := ∀ member, o = .db (.write (.saveMember member)) → ¬ Departed member w.tables
  asserts _ _ _ := True
  rely_refl := .refl
  rely_trans h h' := ⟨fun hw => h'.traced (h.traced hw), h.follows.trans h'.follows⟩

variable {pid : ℕ} {choice : Choice} {w w' : World} {L : Log Op.Ret}

/-- A step that leaves the tables alone, and adds to the open transactions only what takes members
in. -/
theorem moves_of_tables (hw : Traced w) (htables : w'.tables = w.tables)
    (hpending : ∀ p xs, w'.pending p = some xs → w.pending p = some xs ∨
      ∀ x ∈ xs, x.takesIn = true) : Moves w w' ∧ Traced w' := by
  have htraced : Traced w' :=
    ⟨htables ▸ hw.owned, fun p xs hxs => (hpending p xs hxs).elim (hw.pending p xs) id⟩
  exact ⟨⟨fun _ => htraced, htables ▸ .refl _⟩, htraced⟩

theorem moves_hold (hw : Traced w) {xs : List Write} (hxs : ∀ x ∈ xs, x.takesIn = true) :
    Moves w (w.hold pid xs) ∧ Traced (w.hold pid xs) := by
  refine moves_of_tables hw rfl fun p ys hys => ?_
  by_cases hp : p = pid
  · rw [hp, pending_hold, Option.some_inj] at hys
    exact .inr (hys ▸ hxs)
  · exact .inl ((Function.update_of_ne hp _ _).symm.trans hys)

theorem moves_release (hw : Traced w) (p : ℕ) : Moves w (w.release p) ∧ Traced (w.release p) :=
  moves_of_tables hw rfl fun _ _ hxs => .inl (pending_release hxs)

/-- A statement outside any transaction. -/
theorem moves_execute {x : Write} (hw : Traced w)
    (h : w.tables.conflict missing x = none → Follows w.tables (w.tables.commit missing [x])) :
    Moves w (w.execute missing (.write x)) ∧ Traced (w.execute missing (.write x)) := by
  cases hconflict : w.tables.conflict missing x with
  | some constraint =>
    rw [execute_refused hconflict]
    exact ⟨.refl w, hw⟩
  | none =>
    have hfollows := h hconflict
    have htraced : Traced { w with tables := w.tables.commit missing [x] } :=
      ⟨hfollows.owned hw.owned, hw.pending⟩
    rw [execute_write hconflict]
    exact ⟨⟨fun _ => htraced, hfollows⟩, htraced⟩

/-- The operation belongs to a transaction that only takes members in. -/
def Op.takesIn : Op → Bool
  | .tx (.write x) => x.takesIn
  | .tx _ | .startTransaction | .lockGroup | .lockWaiting _ | .commitTransaction
  | .rollbackTransaction | .dropSession _ => true
  | _ => false

theorem takesIn_of_mem_writes {q : Query} (hq : (Op.tx q).takesIn = true) {x : Write}
    (hx : x ∈ (q.writes missing d).toList) : x.takesIn = true := by
  cases q with
  | write y =>
    change x ∈ (if (d.conflict missing y).isNone then some y else none).toList at hx
    split at hx
    · rw [Option.toList_some, List.mem_singleton] at hx
      rw [hx]
      exact hq
    · cases hx
  | _ => cases hx

theorem moves_takesIn {o : Op} {r : o.Ret} (ho : o.takesIn = true) (hw : Traced w)
    (hexec : exec missing o pid choice w = some (r, w')) : Moves w w' ∧ Traced w' := by
  cases o with
  | startTransaction =>
    rcases exec_startTransaction hexec with ⟨rfl, -⟩ | ⟨-, rfl⟩
    · exact ⟨.refl w', hw⟩
    · exact moves_hold hw fun x hx => absurd hx List.not_mem_nil
  | lockGroup =>
    rcases exec_lockGroup hexec with ⟨rfl, -⟩ | ⟨-, -, -, -, rfl⟩
    · exact ⟨.refl w', hw⟩
    · exact moves_of_tables hw rfl fun _ _ hxs => .inl hxs
  | lockWaiting limit =>
    rcases exec_lockWaiting hexec with ⟨rfl, -⟩ | ⟨-, -, -, -, rfl⟩
    · exact ⟨.refl w', hw⟩
    · exact moves_of_tables hw rfl fun _ _ hxs => .inl hxs
  | tx q =>
    rcases exec_tx hexec with ⟨rfl, -⟩ | ⟨xs, hxs, -, rfl⟩
    · exact ⟨.refl w', hw⟩
    · refine moves_hold hw fun x hx => ?_
      rcases List.mem_append.mp hx with hx | hx
      · exact hw.pending pid xs hxs x hx
      · exact takesIn_of_mem_writes ho hx
  | commitTransaction =>
    rcases exec_commitTransaction hexec with ⟨rfl, -⟩ | ⟨xs, hxs, rfl, -⟩
    · exact moves_release hw pid
    · have hfollows : Follows w.tables (w.tables.commit missing xs) :=
        .takeIn w.tables (hw.pending pid xs hxs)
      have htraced : Traced (w.commit missing pid xs) :=
        ⟨hfollows.owned hw.owned, fun p ys hys => hw.pending p ys (pending_release hys)⟩
      exact ⟨⟨fun _ => htraced, hfollows⟩, htraced⟩
  | rollbackTransaction =>
    rcases exec_rollbackTransaction hexec with rfl | rfl
    · exact ⟨.refl w', hw⟩
    · exact moves_release hw pid
  | dropSession p =>
    obtain rfl := exec_dropSession hexec
    exact moves_release hw p
  | _ => cases ho

theorem moves_harmless {o : Op} {r : o.Ret} (ho : o.harmless = true) (hw : Traced w)
    (hexec : exec missing o pid choice w = some (r, w')) : Moves w w' ∧ Traced w' := by
  have hexternal : o.isExternal = true → Moves w w' ∧ Traced w' := by
    intro h
    obtain rfl := exec_external h hexec
    exact ⟨.refl w', hw⟩
  cases o with
  | db q =>
    rcases exec_db hexec with ⟨rfl, -⟩ | ⟨-, rfl, -⟩
    · exact ⟨.refl w', hw⟩
    cases q with
    | write x =>
      cases x with
      | removeMember member => exact moves_execute hw fun _ => .removeMember missing _ member
      | _ => cases ho
    | _ => exact ⟨.refl w, hw⟩
  | notify n => exact hexternal rfl
  | deployRoscaContract group => exact hexternal rfl
  | dispatchEvent event => exact hexternal rfl
  | _ => cases ho

/-- What is known of a loaded membership: its key is with its user, and it is in the table unless
it has been deleted. -/
structure KnownMember (id userId : Uuid) (d : Tables) : Prop where
  issued : d.issued[id]? = some userId
  present : id ∈ d.ids ∨ Deleted id d

theorem KnownMember.follows {id userId : Uuid} (h : KnownMember id userId d) (hd : Follows d d') :
    KnownMember id userId d' :=
  ⟨getElem?_of_prefixed hd.issued h.issued,
    h.present.elim (hd.ids id) fun hdeleted => .inr (hdeleted.of_staysOut hd.staysOut)⟩

/-- **The contract grants loads and saves.** A save of a membership that has been deleted finds its
user in the table again, so that the constraint refuses it. -/
theorem grants_departureContract (pid : ℕ) :
    Grants .inserts pid departureContract Traced fun id userId w =>
      KnownMember id userId w.tables where
  rely hw h := h.traced hw
  loaded_rely hloaded h := hloaded.follows h.follows
  loaded_guarantee hloaded h := hloaded.follows h.follows
  load hw hm := ⟨hw.owned _ hm, .inl (List.mem_map_of_mem hm)⟩
  harmless ho hw := ⟨trivial, fun _ _ _ _ hexec => moves_harmless ho hw hexec⟩
  save := by
    intro L member w hw hloaded
    refine ⟨trivial, fun hexpects choice r w' hexec => ?_⟩
    rcases exec_db hexec with ⟨rfl, -⟩ | ⟨-, rfl, -⟩
    · exact ⟨.refl w', hw⟩
    refine moves_execute hw fun hconflict => .saveMember hw.owned hloaded.issued ?_
    by_contra habsent
    have hdeleted := hloaded.present.resolve_left habsent
    have huser : member.userId ∈ w.tables.users :=
      not_not.mp fun hout => hexpects member rfl ⟨hdeleted, hout⟩
    simp [Tables.conflict, habsent, huser] at hconflict

/-! ### Runs -/

variable {maxWaitlist : ℤ} {α : Type}

theorem meets_takesIn {m : Service α} (hm : Routine.Uses (fun o => o.takesIn = true) m)
    (hw : Traced w) :
    Meets (exec .inserts) pid departureContract m (EndsIn Traced) (EndsIn Traced) () L w :=
  (Meets.of_uses (C := departureContract) (J := Traced) hm (fun _ _ hw h => h.traced hw)
    (fun _ _ _ ho hw => ⟨trivial, fun _ _ _ _ hexec => moves_takesIn ho hw hexec⟩) hw).mono
      (fun _ _ _ _ h => h.2) fun _ _ _ _ h => h.2

theorem takesIn_of_isRead (q : Query) (hq : q.isRead = true) : (Op.tx q).takesIn = true := by
  cases q with
  | write x => cases hq
  | _ => rfl

theorem meets_departureContract {c : Call} (hc : c.onMembers = true) (hw : Traced w) :
    Meets (exec .inserts) pid departureContract (c.body maxWaitlist) (EndsIn Traced) (EndsIn Traced)
      () L w := by
  refine (grants_departureContract pid).meets_onMembers (fun userId walletAddress L w hw => ?_)
    (fun maxToAdmit L w hw => ?_) (fun p L w hw => ?_) hc hw
  · exact meets_takesIn (uses_transaction rfl rfl rfl (uses_insertMember
      (P := fun o => o.takesIn = true) takesIn_of_isRead rfl (fun _ => rfl) userId walletAddress)) hw
  · exact meets_takesIn (uses_transaction rfl rfl rfl (uses_admitFromWaitlistInTransaction
      (P := fun o => o.takesIn = true) takesIn_of_isRead rfl (fun _ => rfl) (fun _ => rfl)
        (fun _ => rfl) maxToAdmit)) hw
  · exact meets_takesIn (Routine.uses_call rfl) hw

variable (maxWaitlist) in
/-- **Calls that save no departed member are verified**, however they overlap. -/
theorem verified_savesNoDeparted :
    Verified (system .inserts maxWaitlist) SavesNoDeparted (fun _ _ => departureContract)
      (fun _ _ _ _ _ => True) Traced fun _ _ => True where
  body h pid c hinv hok := by
    refine (meets_departureContract hok.1 hinv).safe.bind fun x L w _ => ?_
    exact fun _ _ => trivial
  keeps pid c w w' hw hguarantee := hguarantee.traced hw
  respects pid c pid' c' w w' _ _ hguarantee := hguarantee
  expected h pid c o r w' _ hok := by
    rintro member rfl
    exact hok.2
  admitted _ _ _ _ _ _ _ _ := ⟨trivial, trivial⟩

/-- **A departed member stays out** in every run in which no call saves a membership that has been
deleted since the call loaded it, however the calls interleave. -/
theorem staysOut_of_savesNoDeparted (maxWaitlist : ℤ) {d : Tables} (howned : Owned d)
    {s s' : MembersState}
    (hs : (system .inserts maxWaitlist).ReachableWhen SavesNoDeparted (.init (started d)) s)
    (hs' : (system .inserts maxWaitlist).ReachableWhen SavesNoDeparted s s') :
    StaysOut s.hist.world.tables s'.hist.world.tables := by
  have hstart : Traced (started d) := ⟨howned, fun p xs hxs => by cases hxs⟩
  exact related_of_reachable (verified_savesNoDeparted maxWaitlist) hstart
    (R := fun w w' => StaysOut w.tables w'.tables) (fun _ => .of_log rfl rfl) StaysOut.trans
    (fun _ _ _ _ h => h.follows.staysOut) hs hs'

/-! ### A stale copy -/

namespace Sample

/-- A pending group of three members. -/
def three : Tables where
  group := some { id := 0, name := "group", adminWallet := "G1", minMembers := 1, maxMembers := 3 }
  members := [{ id := 0, userId := 0, walletAddress := "G0", payoutOrder := some 0 },
    { id := 1, userId := 1, walletAddress := "G1", payoutOrder := some 1 },
    { id := 2, userId := 2, walletAddress := "G2", payoutOrder := some 2 }]
  issued := [0, 1, 2]

end Sample

/-- One member leaves while another is suspended. -/
theorem staysOut_sample : ∃ s s' : MembersState,
    s.hist.world.tables.users = [1, 2] ∧ s'.hist.world.tables.users = [1, 2] ∧
      StaysOut s.hist.world.tables s'.hist.world.tables := by
  obtain ⟨s, s', hs, hs', husers, husers'⟩ := System.exists_of_replay₂ (system .inserts 50)
    SavesNoDeparted (.init (started Sample.three))
    (.start (.leaveGroup 0) :: .start (.suspendMember 2 1 "late") :: Sample.dones 1 3 ++
      Sample.dones 0 3)
    (Sample.dones 0 2 ++ Sample.dones 1 2 ++ Sample.dones 0 2 ++ [.finish 0, .finish 1])
    (fun s => s.hist.world.tables.users == [1, 2]) (fun s => s.hist.world.tables.users == [1, 2])
    (by decide +kernel)
  refine ⟨s, s', by simpa using husers, by simpa using husers', ?_⟩
  exact staysOut_of_savesNoDeparted 50 (d := Sample.three) (by decide) hs hs'

/-- Two members leave at the same time: the first departure saves a copy of the second member, who
has left meanwhile. -/
theorem not_staysOut : ¬ ∀ s s' : MembersState,
    (system .inserts 50).ReachableWhen CallsOnMembers (.init (started Sample.three)) s →
      (system .inserts 50).ReachableWhen CallsOnMembers s s' →
        StaysOut s.hist.world.tables s'.hist.world.tables := by
  intro hall
  obtain ⟨s, s', hs, hs', hp, hp'⟩ := System.exists_of_replay₂ (system .inserts 50) CallsOnMembers
    (.init (started Sample.three))
    (.start (.leaveGroup 0) :: Sample.dones 0 4 ++ .start (.leaveGroup 1) :: Sample.dones 1 3)
    (Sample.dones 0 1)
    (fun s => decide (1 ∉ s.hist.world.tables.users))
    (fun s => decide (1 ∈ s.hist.world.tables.users ∧
      ∀ xs ∈ s.hist.world.tables.log, xs.filterMap Write.insertedUser = [])) (by decide +kernel)
  obtain ⟨hin, hnone⟩ := of_decide_eq_true hp'
  obtain ⟨later, hlog, hout⟩ := hall s s' hs hs'
  obtain ⟨xs, hxs, hins⟩ := hout 1 hin (of_decide_eq_true hp)
  rw [hnone xs (hlog ▸ List.mem_append_left _ hxs)] at hins
  exact absurd hins List.not_mem_nil

end Ahjoor.Members
