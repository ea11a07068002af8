import Ahjoor.Async.Solo
import Ahjoor.Groups.RoundAdvanceService

/-!
# Three ways to finish a round

`tryAdvanceRound`, `advanceRound` and `processDeadlinedGroups` are compared on the same state, each
run alone and with nothing failing. They agree exactly when an active member of the group has not
paid, and then none of them does anything. Otherwise the job advances the group and pays nobody.
-/

namespace Ahjoor

open Async

/-! ### Runs in which nothing fails -/

/-- The operation does not fail, and its reply is not lost. -/
def Choice.works : Choice → Bool
  | fails _ | lost _ => false
  | _ => true

/-- What an operation does when it works. -/
def workingExec (o : Op) (pid : ℕ) (choice : Choice) (w : World) : Option (o.Ret × World) :=
  if choice.works then exec o pid choice w else none

/-- A service that runs alone on `w`, with nothing failing, can leave `w'`. -/
def Leaves {α : Type} (m : Service Unit α) (w w' : World) : Prop :=
  ∃ x, Alone workingExec 0 (entry m) w x w'

section Rules

variable {σ α : Type} {o : Op} {pid : ℕ} {choice : Choice} {w w' : World} {r : o.Ret} {s : σ}
  {X : Exc → σ → World → Prop}

theorem exec_of_working (h : workingExec o pid choice w = some (r, w')) :
    exec o pid choice w = some (r, w') ∧ choice.works = true := by
  rw [workingExec] at h
  split at h
  · next hworks => exact ⟨h, hworks⟩
  · cases h

theorem workingExec_of_exec (hworks : choice.works = true) (h : exec o pid choice w = some (r, w')) :
    workingExec o pid choice w = some (r, w') :=
  (if_pos hworks).trans h

/-- What every solo run of the body leaves, the service leaves. -/
theorem post_of_leaves {P : World → Prop} {m : Service Unit α}
    (hsolo : Solo workingExec 0 m (fun _ _ => P) (fun _ _ => P) () w) (h : Leaves m w w') :
    P w' := by
  obtain ⟨x, halone⟩ := h
  obtain ⟨⟨y, t⟩, w₁, hbody, hret⟩ := halone.of_bind
  obtain ⟨-, rfl⟩ := alone_ret.mp hret
  have hpost := hsolo y t w' hbody
  cases y <;> exact hpost

/-- What some solo run of the body leaves, the service can leave. -/
theorem leaves_of_possible {P : World → Prop} {m : Service Unit α}
    (h : Possible workingExec 0 m (fun _ _ => P) () w) : ∃ w', Leaves m w w' ∧ P w' := by
  obtain ⟨a, t, w', halone, hP⟩ := h
  exact ⟨w', ⟨_, halone.bind (.ret _ w')⟩, hP⟩

/-- A read. -/
theorem solo_read {q : Query} {a : q.Ret} {Q : q.Ret → σ → World → Prop}
    (hq : q.eval w.db = (.ok a, w.db)) (h : Q a s w) :
    Solo workingExec pid (query q : Service σ q.Ret) Q X s w := by
  refine Solo.call fun choice r w' hexec => ?_
  obtain ⟨hexec, hworks⟩ := exec_of_working hexec
  cases choice with
  | done =>
    rw [exec] at hexec
    split at hexec
    · cases hexec
    · rw [hq] at hexec
      cases hexec
      exact h
  | fails msg => cases hworks
  | lost msg => cases hworks
  | _ => cases hexec

theorem solo_emit {e : Effect} {Q : Unit → σ → World → Prop} (h : Q () s w) :
    Solo workingExec pid (emit e : Service σ Unit) Q X s w := by
  refine Solo.call fun choice r w' hexec => ?_
  obtain ⟨hexec, hworks⟩ := exec_of_working hexec
  cases choice with
  | done =>
    cases hexec
    exact h
  | fails msg => cases hworks
  | _ => cases hexec

theorem solo_dateNow {Q : ℕ → σ → World → Prop} (h : ∀ t, Q t s { w with clock := t }) :
    Solo workingExec pid (dateNow : Service σ ℕ) Q X s w := by
  refine Solo.perform fun choice t w' hexec => ?_
  obtain ⟨hexec, -⟩ := exec_of_working hexec
  cases choice with
  | time t' =>
    rw [exec] at hexec
    split at hexec
    · obtain ⟨rfl, rfl⟩ := Prod.mk.inj (Option.some.inj hexec)
      exact h t'
    · cases hexec
  | _ => cases hexec

theorem solo_throwIf {c : Bool} {e : Exc} {Q : Unit → σ → World → Prop}
    (hthrow : c = true → X e s w) (hpass : c = false → Q () s w) :
    Solo workingExec pid (throwIf c e : Service σ Unit) Q X s w := by
  cases c with
  | true => exact Solo.throw (hthrow rfl)
  | false => exact Solo.pure (hpass rfl)

theorem solo_orThrow {v : Option α} {e : Exc} {Q : α → σ → World → Prop}
    (hsome : ∀ a, v = some a → Q a s w) (hnone : v = none → X e s w) :
    Solo workingExec pid (orThrow v e : Service σ α) Q X s w := by
  cases v with
  | some a => exact Solo.pure (hsome a rfl)
  | none => exact Solo.throw (hnone rfl)

end Rules

/-! ### Agreement -/

/-- The memberships of a group. -/
def membersOf (groupId : Uuid) (d : Database) : List Membership :=
  d.memberships.filter fun m => m.groupId == groupId

/-- The round, the status and the flags that an advance leaves. -/
structure AdvancedState where
  currentRound : ℤ
  status : GroupStatus
  hasPaidCurrentRound : List (Uuid × Bool)

/-- The state of a group. -/
def advancedState (groupId : Uuid) (group : Group) (d : Database) : AdvancedState where
  currentRound := group.currentRound
  status := group.status
  hasPaidCurrentRound := (membersOf groupId d).map fun m => (m.id, m.hasPaidCurrentRound)

/-- **A payout of the round is started**: there is a member whose turn it is, and a payout is
recorded that was not there. -/
structure StartsPayout (groupId : Uuid) (round : ℤ) (d d' : Database) : Prop where
  recipient : ∃ m ∈ membersOf groupId d, m.payoutOrder = some (round - 1)
  unrecorded : d.payoutByOrderId (PayoutService.buildPayoutOrderId groupId round) = none
  recorded : d'.payoutByOrderId (PayoutService.buildPayoutOrderId groupId round) ≠ none

/-- The service leaves everything as it is. -/
def Stays {α : Type} (m : Service Unit α) (w : World) : Prop := ∀ w', Leaves m w w' → w'.db = w.db

/-- The service finishes the round of the group, leaves it in the state `target`, and starts the
payout of the round. -/
def Finishes {α : Type} (m : Service Unit α) (groupId : Uuid) (group : Group)
    (target : AdvancedState) (w : World) : Prop :=
  ∀ w', Leaves m w w' → ∃ group', w'.db.groups.row groupId = some group' ∧
    group'.currentRound = group.currentRound + 1 ∧
    advancedState groupId group' w'.db = target ∧
    StartsPayout groupId group.currentRound w.db w'.db

section Agreement

variable (sdk : Sdk) (cfg : Config) (gracePeriodHours : ℚ) (timing : Scheduler.Timing)
  (groupId : Uuid) (group : Group) (w : World)

/-- **The three advance operations agree**: all leave the group as it is, or all finish the round
in the same way. -/
def AdvancesAgree : Prop :=
  (Stays (RoundService.tryAdvanceRound sdk cfg groupId) w ∧
    Stays (GroupsService.advanceRound sdk cfg groupId group.adminWallet) w ∧
    Stays (RoundAdvanceService.processDeadlinedGroups gracePeriodHours timing groupId) w) ∨
  ∃ target, Finishes (RoundService.tryAdvanceRound sdk cfg groupId) groupId group target w ∧
    Finishes (GroupsService.advanceRound sdk cfg groupId group.adminWallet) groupId group target w ∧
    Finishes (RoundAdvanceService.processDeadlinedGroups gracePeriodHours timing groupId) groupId
      group target w

/-- An active member of the group has not paid for its round. -/
def SomeoneOwes (groupId : Uuid) (d : Database) : Prop :=
  ∃ m ∈ membersOf groupId d, m.status = .active ∧ m.hasPaidCurrentRound = false

end Agreement

/-! ### An active member has not paid -/

section Owes

variable {sdk : Sdk} {cfg : Config} {gracePeriodHours : ℚ} {timing : Scheduler.Timing}
  {groupId : Uuid} {group : Group} {w : World}

theorem selects_active {m : Membership} :
    ({ groupId := some groupId, status := some .active } : MembershipWhere).selects m = true ↔
      (m.groupId == groupId) = true ∧ m.status = .active := by
  simp only [MembershipWhere.selects, given, Option.all_some, Option.all_none, Option.isNone_none,
    Bool.true_or, Bool.and_true, Bool.and_eq_true, beq_iff_eq]
  exact and_congr eq_comm eq_comm

theorem stays_tryAdvanceRound (hrow : w.db.groups.row groupId = some group)
    (howes : SomeoneOwes groupId w.db) :
    Stays (RoundService.tryAdvanceRound sdk cfg groupId) w := by
  intro w' hleaves
  refine post_of_leaves (P := fun w' => w'.db = w.db) (Solo.bind (solo_read rfl ?_)) hleaves
  rw [hrow]
  refine Solo.ite (fun _ => Solo.pure rfl) fun _ => Solo.bind (solo_read rfl ?_)
  obtain ⟨m, hm, hmactive, hunpaid⟩ := howes
  obtain ⟨hmrow, hgroup⟩ := (Store.Table.mem_filter _).mp hm
  have hfound : m ∈ w.db.memberships.filter
      ({ groupId := some groupId, status := some .active } : MembershipWhere).selects :=
    (Store.Table.mem_filter _).mpr ⟨hmrow, selects_active.mpr ⟨hgroup, hmactive⟩⟩
  have hnotall : ∀ l : List Membership, m ∈ l → (!l.all (·.hasPaidCurrentRound)) = true := by
    intro l hmem
    rw [Bool.not_eq_true', List.all_eq_false]
    exact ⟨m, hmem, by rw [hunpaid]; decide⟩
  refine Solo.ite (fun _ => Solo.pure rfl) fun _ =>
    Solo.ite (fun _ => Solo.pure rfl) fun hpaid => ?_
  exact absurd (hnotall _ hfound) hpaid

theorem solo_validateAdvance {adminWallet : String} (howes : SomeoneOwes groupId w.db) :
    Solo workingExec 0 (GroupsService.validateAdvance groupId adminWallet)
      (fun _ _ _ => False) (fun _ _ w' => w'.db = w.db) () w := by
  refine Solo.bind (solo_read rfl (Solo.bind (solo_orThrow (fun a hfound => ?_) fun _ => rfl)))
  obtain ⟨g, -, rfl⟩ := Option.map_eq_some_iff.mp hfound
  refine Solo.bind (solo_throwIf (fun _ => rfl) fun _ => ?_)
  refine Solo.bind (solo_throwIf (fun _ => rfl) fun _ => ?_)
  refine Solo.bind (solo_throwIf (fun _ => rfl) fun hpaid => ?_)
  obtain ⟨m, hm, -, hunpaid⟩ := howes
  have hmpaid := List.any_eq_false.mp hpaid m hm
  rw [hunpaid] at hmpaid
  exact absurd rfl hmpaid

theorem stays_advanceRound {adminWallet : String} (howes : SomeoneOwes groupId w.db) :
    Stays (GroupsService.advanceRound sdk cfg groupId adminWallet) w := by
  intro w' hleaves
  refine post_of_leaves (P := fun w' => w'.db = w.db) (Solo.bind ?_) hleaves
  exact (solo_validateAdvance howes).mono (fun _ _ _ hfalse => hfalse.elim) fun _ _ _ hdb => hdb

theorem stays_processDeadlinedGroups (howes : SomeoneOwes groupId w.db) :
    Stays (RoundAdvanceService.processDeadlinedGroups gracePeriodHours timing groupId) w := by
  intro w' hleaves
  refine post_of_leaves (P := fun w' => w'.db = w.db)
    (Solo.bind (solo_dateNow fun now => Solo.bind (solo_read rfl ?_))) hleaves
  split
  · exact Solo.pure rfl
  · next g memberships hfound =>
    obtain ⟨hmap, -⟩ := Option.filter_eq_some_iff.mp hfound
    obtain ⟨g', -, hpair⟩ := Option.map_eq_some_iff.mp hmap
    obtain ⟨rfl, rfl⟩ := Prod.mk.inj hpair
    obtain ⟨m, hm, hmactive, hunpaid⟩ := howes
    have howed : m ∈ ((membersOf groupId w.db).filter (·.status = .active)).filter
        fun m => !m.hasPaidCurrentRound :=
      List.mem_filter.mpr ⟨List.mem_filter.mpr ⟨hm, decide_eq_true hmactive⟩, by rw [hunpaid]; rfl⟩
    have hsome : (((membersOf groupId w.db).filter (·.status = .active)).filter
        fun m => !m.hasPaidCurrentRound).length ≠ 0 :=
      Nat.pos_iff_ne_zero.mp (List.length_pos_of_mem howed)
    refine Solo.tryCatch ?_
    refine Solo.ite (fun _ => Solo.pure rfl) fun _ => Solo.ite (fun hnone => ?_) fun _ => ?_
    · exact absurd hnone hsome
    · exact solo_emit rfl

end Owes

/-! ### Nobody owes -/

section Paid

variable {σ α : Type} {s : σ} {w : World} {q : Query}

theorem not_blocked {pid : ℕ} (hfree : w.sessionsWithout pid = []) (q : Query) :
    w.blocked pid q = false := by
  rw [World.blocked, hfree]
  rfl

/-- A query, while no transaction is open. -/
theorem possible_query {a : q.Ret} {Q : q.Ret → σ → World → Prop} (hfree : w.sessions = [])
    (hq : (q.eval w.db).1 = .ok a) (h : Q a s { w with db := (q.eval w.db).2 }) :
    Possible workingExec 0 (query q : Service σ q.Ret) Q s w := by
  have hwithout : w.sessionsWithout 0 = [] := by
    rw [World.sessionsWithout, hfree]
    rfl
  refine Possible.call .done (workingExec_of_exec rfl ?_) hq h
  rw [exec, if_neg (by rw [not_blocked hwithout]; decide)]

theorem possible_emit {e : Effect} {Q : Unit → σ → World → Prop} (h : Q () s w) :
    Possible workingExec 0 (emit e : Service σ Unit) Q s w :=
  Possible.call .done rfl rfl h

theorem possible_dateNow {Q : ℕ → σ → World → Prop} (h : Q w.clock s w) :
    Possible workingExec 0 (dateNow : Service σ ℕ) Q s w := by
  have hnow : exec .now 0 (.time w.clock) w = some (w.clock, w) := if_pos le_rfl
  exact Possible.perform (.time w.clock) (workingExec_of_exec rfl hnow) h

/-- The call's transaction is open, and has saved memberships only. -/
structure Resetting (w w' : World) : Prop where
  db : w'.db = w.db
  session : ∃ writes, w'.sessions = [⟨0, writes⟩] ∧
    ∀ q ∈ writes, q.writesGroups = false ∧ q.writesPayouts = false

theorem Resetting.save {w₀ : World} (h : Resetting w₀ w) (m : Membership) :
    Possible workingExec 0 (txQuery (.saveMembership m) : Service σ Unit)
      (fun _ _ => Resetting w₀) s w := by
  obtain ⟨writes, hsessions, hwrites⟩ := h.session
  have hsession : w.session 0 = some ⟨0, writes⟩ := by
    rw [World.session, hsessions]
    rfl
  have hwithout : w.sessionsWithout 0 = [] := by
    rw [World.sessionsWithout, hsessions]
    rfl
  have hsave : exec (.tx (.saveMembership m)) 0 .done w = some (.ok (),
      { w with sessions := [⟨0, writes ++ [.saveMembership m]⟩] }) := by
    rw [exec, hsession, Option.bind_some, if_neg (by rw [not_blocked hwithout]; decide), hwithout]
    rfl
  refine Possible.call .done (workingExec_of_exec rfl hsave) rfl ⟨h.db, _, rfl, ?_⟩
  intro q hq
  rcases List.mem_append.mp hq with hq | hq
  · exact hwrites q hq
  · obtain rfl := List.mem_singleton.mp hq
    exact ⟨rfl, rfl⟩

theorem view_of_writes {d : Database} {writes : List Query}
    (h : ∀ q ∈ writes, q.writesGroups = false ∧ q.writesPayouts = false) :
    (Session.view ⟨0, writes⟩ d).groups = d.groups ∧
      (Session.view ⟨0, writes⟩ d).payoutTransactions = d.payoutTransactions := by
  induction writes generalizing d with
  | nil => exact ⟨rfl, rfl⟩
  | cons q writes ih =>
    obtain ⟨hgroups, hpayouts⟩ := h q List.mem_cons_self
    obtain ⟨ihgroups, ihpayouts⟩ := ih (fun q' hq' => h q' (List.mem_cons_of_mem q hq')) (d := _)
    exact ⟨ihgroups.trans (Query.groups_eval hgroups d),
      ihpayouts.trans (Query.payouts_eval hpayouts d)⟩

/-- The transaction in which the job resets the flags. -/
theorem possible_resetFlags {members : List Membership} {Q : Unit → σ → World → Prop}
    (hfree : w.sessions = [])
    (h : ∀ w' : World, w'.sessions = [] → w'.db.groups = w.db.groups →
      w'.db.payoutTransactions = w.db.payoutTransactions → ∀ t, Q () t w') :
    Possible workingExec 0 (transaction (Routine.forEach members fun m =>
      txQuery (.saveMembership { m with hasPaidCurrentRound := false })) : Service σ Unit) Q s w := by
  have hbegin : exec .begin 0 .done w = some (.ok (), { w with sessions := [⟨0, []⟩] }) := by
    rw [exec, World.sessionsWithout, hfree]
    rfl
  refine Possible.bind (Possible.call .done (workingExec_of_exec rfl hbegin) rfl ?_)
  have hloop : Possible workingExec 0 (Routine.forEach members fun m =>
      txQuery (.saveMembership { m with hasPaidCurrentRound := false }) : Service σ Unit)
      (fun _ _ => Resetting w) s { w with sessions := [⟨0, []⟩] } :=
    Possible.forEach (J := fun _ => Resetting w) (fun _ _ _ hreset => hreset.save _)
      ⟨rfl, [], rfl, fun _ hq => absurd hq List.not_mem_nil⟩
  refine Possible.bind (Possible.tryCatch (hloop.mono fun _ t w₁ hreset => ?_))
  obtain ⟨writes, hsessions, hwrites⟩ := hreset.session
  have hcommit : exec .commit 0 .done w₁ = some (.ok (),
      { w₁ with db := Session.view ⟨0, writes⟩ w.db, sessions := [] }) := by
    rw [exec, World.session, World.sessionsWithout, hsessions, hreset.db]
    rfl
  obtain ⟨hgroups, hpayouts⟩ := view_of_writes (d := w.db) hwrites
  exact Possible.bind (Possible.call .done (workingExec_of_exec rfl hcommit) rfl
    (Possible.pure (h _ rfl hgroups hpayouts t)))

/-- **The job finishes the round and pays nobody.** -/
structure AdvancesUnpaid (groupId : Uuid) (group : Group) (d d' : Database) : Prop where
  advanced : ∃ group', d'.groups.row groupId = some group' ∧
    group'.currentRound = group.currentRound + 1
  unpaid : d'.payoutTransactions = d.payoutTransactions

theorem advancesUnpaid_saveGroup {d d' : Database} {groupId : Uuid} {group group' : Group}
    (hrow : d.groups.row groupId = some group) (hid : group'.id = group.id)
    (hround : group'.currentRound = group.currentRound + 1)
    (hpayouts : d'.payoutTransactions = d.payoutTransactions) :
    AdvancesUnpaid groupId group d ((Query.saveGroup group').eval d').2 where
  advanced := by
    have hkey : group'.id = groupId := hid.trans (d.groups.id_of_row hrow)
    refine ⟨group', ?_, hround⟩
    rw [← hkey]
    exact Store.Table.row_put_self _ group'
  unpaid := hpayouts

theorem possible_advanceGroupRound {groupId : Uuid} {group : Group} {members : List Membership}
    (hrow : w.db.groups.row groupId = some group) (hfree : w.sessions = []) :
    Possible workingExec 0 (RoundAdvanceService.advanceGroupRound group members : Service σ Unit)
      (fun _ _ w' => AdvancesUnpaid groupId group w.db w'.db) s w := by
  refine Possible.ite (fun _ => ?_) fun _ => ?_
  · exact possible_query (q := .saveGroup _) (a := ()) hfree rfl (advancesUnpaid_saveGroup hrow rfl rfl rfl)
  · refine Possible.bind (possible_resetFlags hfree fun w₁ hclosed _ hpayouts t => ?_)
    exact Possible.bind (possible_emit
      (possible_query (q := .saveGroup _) (a := ()) hclosed rfl (advancesUnpaid_saveGroup hrow rfl rfl hpayouts)))

theorem possible_processDeadlinedGroups {gracePeriodHours : ℚ} {timing : Scheduler.Timing}
    {groupId : Uuid} {group : Group} (hrow : w.db.groups.row groupId = some group)
    (hactive : group.status = .active) (hfree : w.sessions = [])
    (hlate : Scheduler.isDeadlinePassed timing w.clock gracePeriodHours = true)
    (hnone : ¬ SomeoneOwes groupId w.db) :
    Possible workingExec 0
      (RoundAdvanceService.processDeadlinedGroups gracePeriodHours timing groupId : Service σ Unit)
      (fun _ _ w' => AdvancesUnpaid groupId group w.db w'.db) s w := by
  refine Possible.bind (possible_dateNow (Possible.bind (possible_query hfree rfl ?_)))
  rw [hrow, Option.map_some, Option.filter_some, if_pos (decide_eq_true hactive)]
  refine Possible.tryCatch ?_
  rw [RoundAdvanceService.processGroup, hlate]
  have hpaid : ((membersOf groupId w.db).filter (·.status = .active)).filter
      (fun m => !m.hasPaidCurrentRound) = [] := by
    refine List.filter_eq_nil_iff.mpr fun m hm hunpaid => hnone ⟨m, ?_⟩
    obtain ⟨hmem, hmactive⟩ := List.mem_filter.mp hm
    exact ⟨hmem, of_decide_eq_true hmactive, (Bool.not_eq_true' _).mp hunpaid⟩
  refine Possible.ite nofun fun _ => Possible.ite (fun _ => ?_) fun hlength => ?_
  · exact possible_advanceGroupRound hrow hfree
  · exact absurd (congrArg List.length hpaid) hlength

end Paid

/-! ### When they agree -/

section Main

variable {sdk : Sdk} {cfg : Config} {gracePeriodHours : ℚ} {timing : Scheduler.Timing}
  {groupId : Uuid} {group : Group} {w : World}

theorem AdvancesUnpaid.not_stays {d d' : Database} (h : AdvancesUnpaid groupId group d d')
    (hrow : d.groups.row groupId = some group) : d' ≠ d := by
  rintro rfl
  obtain ⟨group', hrow', hround⟩ := h.advanced
  rw [hrow] at hrow'
  obtain rfl := Option.some.inj hrow'
  omega

theorem AdvancesUnpaid.not_startsPayout {d d' : Database} {round : ℤ}
    (h : AdvancesUnpaid groupId group d d') : ¬ StartsPayout groupId round d d' := by
  intro hstarts
  have hnone := hstarts.unrecorded
  rw [Database.payoutByOrderId, ← h.unpaid] at hnone
  exact hstarts.recorded hnone

theorem not_advancesAgree_of_paid (hrow : w.db.groups.row groupId = some group)
    (hactive : group.status = .active) (hfree : w.sessions = [])
    (hlate : Scheduler.isDeadlinePassed timing w.clock gracePeriodHours = true)
    (hnone : ¬ SomeoneOwes groupId w.db) :
    ¬ AdvancesAgree sdk cfg gracePeriodHours timing groupId group w := by
  obtain ⟨w', hleaves, hunpaid⟩ :=
    leaves_of_possible (possible_processDeadlinedGroups hrow hactive hfree hlate hnone)
  rintro (⟨-, -, hstays⟩ | ⟨target, -, -, hfinishes⟩)
  · exact hunpaid.not_stays hrow (hstays w' hleaves)
  · obtain ⟨group', -, -, -, hstarts⟩ := hfinishes w' hleaves
    exact hunpaid.not_startsPayout hstarts

/-- **The three operations agree** exactly when an active member of the group has not paid. -/
theorem advancesAgree_iff (hrow : w.db.groups.row groupId = some group)
    (hactive : group.status = .active) (hfree : w.sessions = [])
    (hlate : Scheduler.isDeadlinePassed timing w.clock gracePeriodHours = true) :
    AdvancesAgree sdk cfg gracePeriodHours timing groupId group w ↔ SomeoneOwes groupId w.db := by
  constructor
  · intro hagree
    by_contra hnone
    exact not_advancesAgree_of_paid hrow hactive hfree hlate hnone hagree
  · intro howes
    exact .inl ⟨stays_tryAdvanceRound hrow howes, stays_advanceRound howes,
      stays_processDeadlinedGroups howes⟩

end Main

namespace Sample

/-- A month after the round has begun. -/
def late (member : Membership) : World :=
  { world group [member] with clock := 2592000000 }

end Sample

/-- The three operations leave the round of a member who has not paid. -/
theorem advancesAgree_sample : AdvancesAgree Sample.sdk Sample.cfg 0 Scheduler.Sample.month 0
    Sample.group (Sample.late { Sample.member with hasPaidCurrentRound := false }) :=
  (advancesAgree_iff rfl rfl rfl (by decide +kernel)).mpr
    ⟨{ Sample.member with hasPaidCurrentRound := false }, by decide, rfl, rfl⟩

/-- The only member has paid: the job advances the group and starts no payout. -/
theorem not_advancesAgree : ¬ AdvancesAgree Sample.sdk Sample.cfg 0 Scheduler.Sample.month 0
    Sample.group (Sample.late Sample.member) := by
  refine not_advancesAgree_of_paid rfl rfl rfl (by decide +kernel) ?_
  rintro ⟨m, hm, -, hunpaid⟩
  have hmember : membersOf 0 (Sample.late Sample.member).db = [Sample.member] := by decide
  rw [hmember] at hm
  obtain rfl := List.mem_singleton.mp hm
  cases hunpaid

end Ahjoor
