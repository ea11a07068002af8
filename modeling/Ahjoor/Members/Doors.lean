import Ahjoor.Members.Admission

/-!
# The doors into a group

A user becomes a member by `addMember`, by an invite, or from the waitlist. The rules are those of
`addMember`: the group is not active and not full, the user is not a member, and the payout order
is the one that the strategy prescribes. An invite looks at none of them but the third, and an
admission neither at the status nor at the strategy.
-/

namespace Ahjoor.Members

open Async

variable {missing : OnMissing} {pid : ℕ} {w : World} {xs : List Write} {d d' : Tables} {g : GroupRow}
  {α : Type}

/-! ### The rules -/

/-- The payout order of a new member behind others. -/
def prescribedOrder (strategy : PayoutOrderStrategy) (members : List Member) : Option ℤ :=
  match strategy with
  | .sequential => some (nextPayoutOrder (members.filterMap (·.payoutOrder)).max?)
  | .random | .adminDefined => none

/-- The member enters the group by the rules. -/
structure EntersByRules (g : GroupRow) (members : List Member) (m : Member) : Prop where
  notActive : g.status ≠ .active
  room : (members.length : ℤ) < g.maxMembers
  new : m.userId ∉ members.map (·.userId)
  order : m.payoutOrder = prescribedOrder g.payoutOrderStrategy members

/-- The members enter by the rules, one after another. -/
def AllEnter (g : GroupRow) (members : List Member) : List Member → Prop
  | [] => True
  | m :: new => EntersByRules g members m ∧ AllEnter g (members ++ [m]) new

/-- The members that are in `d'` but not in `d` have entered by the rules. -/
def Enters (g : GroupRow) (d d' : Tables) : Prop :=
  ∃ new, d'.members = d.members ++ new ∧ AllEnter g d.members new

theorem Enters.of_members (h : d'.members = d.members) : Enters g d d' :=
  ⟨[], h.trans (List.append_nil _).symm, trivial⟩

theorem AllEnter.concat {members new : List Member} (hnew : AllEnter g members new) {m : Member}
    (hm : EntersByRules g (members ++ new) m) : AllEnter g members (new ++ [m]) := by
  induction new generalizing members with
  | nil => exact ⟨(List.append_nil members) ▸ hm, trivial⟩
  | cons m' new ih =>
    refine ⟨hnew.1, ih hnew.2 ?_⟩
    rw [List.append_assoc]
    exact hm

/-- One more member. -/
theorem Enters.insertMember (h : Enters g d (d.view missing xs)) {m : Member}
    (hm : EntersByRules g (d.view missing xs).members m) :
    Enters g d (d.view missing (xs ++ [.insertMember m])) := by
  obtain ⟨new, hview, hnew⟩ := h
  refine ⟨new ++ [{ m with id := (d.view missing xs).issued.length }], ?_, hnew.concat ?_⟩
  · rw [view_concat, ← List.append_assoc, ← hview]
    rfl
  · rw [← hview]
    exact ⟨hm.notActive, hm.room, hm.new, hm.order⟩

/-! ### Transactions that run alone -/

/-- The transaction of `pid` on the tables `d` has written `xs`. -/
structure Writing (pid : ℕ) (d : Tables) (xs : List Write) (w : World) : Prop where
  tables : w.tables = d
  pending : w.pending pid = some xs

section Solo

variable {Q : α → Unit → World → Prop} {X : Exc → Unit → World → Prop}

theorem solo_tx (hw : Writing pid d xs w) {q : Query} {Q : q.Ret → Unit → World → Prop}
    (hok : ∀ a w', q.read missing (d.view missing xs) = .ok a →
      Writing pid d (xs ++ (q.writes missing (d.view missing xs)).toList) w' → Q a () w')
    (herr : ∀ e w', w'.tables = d → X e () w') :
    Solo (exec missing) pid (tx q) Q X () w := by
  obtain ⟨rfl, hpending⟩ := hw
  refine Solo.call fun choice r w' hexec => ?_
  rcases exec_tx hexec with ⟨rfl, e, rfl⟩ | ⟨ys, hys, rfl, rfl⟩
  · exact herr e w' rfl
  · obtain rfl := Option.some.inj (hpending.symm.trans hys)
    cases hread : q.read missing (w.tables.view missing xs) with
    | error e => exact herr e _ rfl
    | ok a => exact hok a _ hread ⟨rfl, pending_hold ..⟩

theorem solo_tx_read (hw : Writing pid d xs w) {q : Query} (hq : q.isRead = true)
    {Q : q.Ret → Unit → World → Prop}
    (hok : ∀ a w', q.read missing (d.view missing xs) = .ok a → Writing pid d xs w' → Q a () w')
    (herr : ∀ e w', w'.tables = d → X e () w') :
    Solo (exec missing) pid (tx q) Q X () w := by
  refine solo_tx hw (fun a w' ha hw' => hok a w' ha ?_) herr
  rwa [writes_of_isRead hq, Option.toList_none, List.append_nil] at hw'

/-- A write that the tables accept is held back. -/
theorem solo_tx_write (hw : Writing pid d xs w) {x : Write} {Q : Unit → Unit → World → Prop}
    (hok : ∀ w', (d.view missing xs).conflict missing x = none → Writing pid d (xs ++ [x]) w' →
      Q () () w')
    (herr : ∀ e w', w'.tables = d → X e () w') :
    Solo (exec missing) pid (tx (.write x)) Q X () w := by
  refine solo_tx hw (fun a w' ha hw' => ?_) herr
  cases hconflict : (d.view missing xs).conflict missing x with
  | some constraint =>
    simp only [Query.read, hconflict] at ha
    cases ha
  | none =>
    simp only [Query.writes, hconflict, Option.isNone_none, if_true, Option.toList_some] at hw'
    exact hok w' hconflict hw'

theorem solo_lockGroup (hw : Writing pid d xs w) {Q : Option GroupRow → Unit → World → Prop}
    (hok : ∀ w', Writing pid d xs w' → Q d.group () w') (herr : ∀ e w', w'.tables = d → X e () w') :
    Solo (exec missing) pid lockGroup Q X () w := by
  obtain ⟨rfl, hpending⟩ := hw
  refine Solo.call fun choice r w' hexec => ?_
  rcases exec_lockGroup hexec with ⟨rfl, e, rfl⟩ | ⟨ys, -, -, rfl, rfl⟩
  · exact herr e w' rfl
  · exact hok _ ⟨rfl, hpending⟩

theorem solo_lockWaiting (hw : Writing pid d xs w) {limit : ℕ}
    {Q : List WaitlistEntry → Unit → World → Prop}
    (hok : ∀ w', Writing pid d xs w' → Q ((d.view missing xs).nextWaiting limit) () w')
    (herr : ∀ e w', w'.tables = d → X e () w') :
    Solo (exec missing) pid (Routine.call (.lockWaiting limit) fun r => r) Q X () w := by
  obtain ⟨rfl, hpending⟩ := hw
  refine Solo.call fun choice r w' hexec => ?_
  rcases exec_lockWaiting hexec with ⟨rfl, e, rfl⟩ | ⟨ys, hys, -, rfl, rfl⟩
  · exact herr e w' rfl
  · obtain rfl := Option.some.inj (hpending.symm.trans hys)
    exact hok _ ⟨rfl, hpending⟩

/-- What a body may have written: its transaction, if it has one, follows the rules. -/
def WritesByRules (missing : OnMissing) (pid : ℕ) (g : GroupRow) (d : Tables) (w : World) : Prop :=
  ∃ xs, Writing pid d xs w ∧ Enters g d (d.view missing xs)

/-- A transaction whose body follows the rules. -/
theorem solo_transaction {body : Service α}
    (hbody : ∀ w', Writing pid w.tables [] w' → Solo (exec missing) pid body
      (fun _ _ => WritesByRules missing pid g w.tables) (fun _ _ w' => w'.tables = w.tables) () w') :
    Solo (exec missing) pid (transaction body) (fun _ _ w' => Enters g w.tables w'.tables)
      (fun _ _ w' => Enters g w.tables w'.tables) () w := by
  have hrollback : ∀ (e : Exc) w', Enters g w.tables w'.tables →
      Solo (exec missing) pid (do
        Routine.call .rollbackTransaction fun _ => .ok ()
        throw e : Service α) (fun _ _ w' => Enters g w.tables w'.tables)
        (fun _ _ w' => Enters g w.tables w'.tables) () w' := by
    intro e w' hw'
    refine Solo.bind (Solo.call fun choice r w'' hexec => Solo.throw ?_)
    rcases exec_rollbackTransaction hexec with rfl | rfl <;> exact hw'
  refine Solo.bind (Solo.call fun choice r w' hexec => ?_)
  rcases exec_startTransaction hexec with ⟨rfl, e, rfl⟩ | ⟨rfl, rfl⟩
  · exact .of_members rfl
  refine Solo.tryCatch (Solo.bind ((hbody (w.hold pid []) ⟨rfl, pending_hold ..⟩).mono ?_ ?_))
  · rintro a - w' ⟨xs, ⟨htables, hpending⟩, hxs⟩
    refine Solo.bind (Solo.call fun choice r w'' hexec => ?_)
    rcases exec_commitTransaction hexec with ⟨rfl, e, rfl⟩ | ⟨ys, hys, rfl, hr⟩
    · exact hrollback e _ (.of_members (congrArg Tables.members htables))
    · obtain rfl := Option.some.inj (hpending.symm.trans hys)
      have hcommit : Enters g w.tables (w'.commit missing pid xs).tables := by
        change Enters g w.tables (w'.tables.commit missing xs)
        rw [htables]
        exact hxs
      rcases hr with rfl | ⟨e, rfl⟩
      · exact Solo.pure hcommit
      · exact hrollback e _ hcommit
  · exact fun e _ w' htables => hrollback e w' (.of_members (congrArg Tables.members htables))

end Solo

/-! ### The walks -/

/-- What a body leaves behind that follows the rules. -/
abbrev ByRules (missing : OnMissing) (pid : ℕ) (g : GroupRow) (d : Tables) {α : Type} :
    α → Unit → World → Prop :=
  fun _ _ => WritesByRules missing pid g d

/-- What a body leaves behind that throws. -/
abbrev Unchanged (d : Tables) : Exc → Unit → World → Prop := fun _ _ w => w.tables = d

theorem Writing.byRules (hw : Writing pid d [] w) : WritesByRules missing pid g d w :=
  ⟨[], hw, .of_members rfl⟩

/-- **Additions** follow the rules. -/
theorem solo_insertMember (hw : Writing pid d [] w) (hgroup : d.group = some g) (userId : Uuid)
    (walletAddress : String) :
    Solo (exec missing) pid (insertMember userId walletAddress) (ByRules missing pid g d)
      (Unchanged d) () w := by
  have herr : ∀ (e : Exc) w', w'.tables = d → Unchanged d e () w' := fun _ _ h => h
  refine Solo.bind (solo_lockGroup hw (fun w₁ hw₁ => ?_) herr)
  refine Solo.bind (Solo.valueOr (fun group hfound => ?_) fun _ => hw₁.tables)
  obtain rfl := Option.some.inj (hgroup.symm.trans hfound)
  refine Solo.bind (Solo.throwWhen (fun _ => hw₁.tables) fun hstatus => ?_)
  refine Solo.bind (solo_tx_read hw₁ rfl (fun count w₂ hcount hw₂ => ?_) herr)
  obtain rfl : d.members.length = count := Except.ok.inj hcount
  refine Solo.bind (Solo.throwWhen (fun _ => hw₂.tables) fun hfull => ?_)
  refine Solo.bind (solo_tx_read hw₂ rfl (fun existing w₃ _ hw₃ => ?_) herr)
  refine Solo.bind (Solo.throwWhen (fun _ => hw₃.tables) fun _ => ?_)
  -- the insertion, once the payout order is known
  have hinsert : ∀ (order : Option ℤ) w', order = prescribedOrder g.payoutOrderStrategy d.members →
      Writing pid d [] w' → Solo (exec missing) pid
        (tx (.write (.insertMember { id := 0, userId, walletAddress, payoutOrder := order })))
        (ByRules missing pid g d) (Unchanged d) () w' := by
    intro order w' horder hw'
    refine solo_tx_write hw' (fun w'' hconflict hw'' => ⟨_, hw'', ?_⟩) herr
    refine (Enters.of_members rfl : Enters g d (d.view missing [])).insertMember ⟨?_, ?_, ?_, horder⟩
    · exact of_decide_eq_false hstatus
    · exact not_le.mp (of_decide_eq_false hfull)
    · by_contra hmember
      exact absurd (hconflict.symm.trans (if_pos hmember)) nofun
  refine Solo.bind ?_
  cases hstrategy : g.payoutOrderStrategy with
  | sequential =>
    refine Solo.bind (solo_tx_read hw₃ rfl (fun maxOrder w₄ hmax hw₄ => Solo.pure ?_) herr)
    refine hinsert _ w₄ ?_ hw₄
    rw [hstrategy, ← Except.ok.inj hmax]
    rfl
  | random => exact Solo.pure (hinsert none w₃ (by rw [hstrategy]; rfl) hw₃)
  | adminDefined => exact Solo.pure (hinsert none w₃ (by rw [hstrategy]; rfl) hw₃)

/-- The order behind a member who stands behind all. -/
theorem nextPayoutOrder_concat (orders : List ℤ) :
    nextPayoutOrder (orders ++ [nextPayoutOrder orders.max?]).max? =
      nextPayoutOrder orders.max? + 1 := by
  have hmax : (orders ++ [nextPayoutOrder orders.max?]).max? = some (nextPayoutOrder orders.max?) := by
    refine List.max?_eq_some_iff.mpr ⟨List.mem_concat_self, fun k hk => ?_⟩
    rcases List.mem_append.mp hk with hk | hk
    · cases hold : orders.max? with
      | none =>
        rw [List.max?_eq_none_iff.mp hold] at hk
        exact absurd hk List.not_mem_nil
      | some last =>
        have hle := (List.max?_eq_some_iff.mp hold).2 k hk
        simp only [nextPayoutOrder]
        omega
    · exact (List.mem_singleton.mp hk).le
  rw [hmax]
  rfl

variable {entries : List WaitlistEntry} {n : ℤ} {maxToAdmit : Option ℤ}

/-- The loop over the entries follows the rules, if the group is open, takes members in order, and
has room for all. -/
theorem solo_admitEntries (hw : Writing pid d xs w) (henters : Enters g d (d.view missing xs))
    (hopen : g.status ≠ .active) (hstrategy : g.payoutOrderStrategy = .sequential)
    (hroom : ((d.view missing xs).members.length : ℤ) + entries.length ≤ g.maxMembers)
    (hn : n = (d.view missing xs).nextOrder) :
    Solo (exec missing) pid (admitEntries entries n) (ByRules missing pid g d) (Unchanged d) () w := by
  have herr : ∀ (e : Exc) w', w'.tables = d → Unchanged d e () w' := fun _ _ h => h
  induction entries generalizing xs n w with
  | nil => exact Solo.pure ⟨xs, hw, henters⟩
  | cons entry entries ih =>
    rw [List.length_cons] at hroom
    push_cast at hroom
    refine Solo.bind (solo_tx_write hw (fun w₁ hconflict hw₁ => ?_) herr)
    have hentered : Enters g d (d.view missing (xs ++ [.insertMember (admittedMember entry n)])) := by
      refine henters.insertMember ⟨hopen, by omega, ?_, ?_⟩
      · by_contra hmember
        exact absurd (hconflict.symm.trans (if_pos hmember)) nofun
      · rw [hstrategy, hn]
        rfl
    refine Solo.bind (solo_tx_write hw₁ (fun w₂ _ hw₂ => ?_) herr)
    have hmembers : (d.view missing (xs ++ [.insertMember (admittedMember entry n)] ++
        [.saveEntry { entry with status := .admitted }])).members =
          (d.view missing xs).members ++
            [{ admittedMember entry n with id := (d.view missing xs).issued.length }] := by
      rw [view_concat, view_concat]
      rfl
    have hlength := congrArg List.length hmembers
    rw [List.length_append, List.length_singleton] at hlength
    refine Solo.bind ((ih hw₂ ?_ ?_ ?_).mono (fun admitted _ w₃ hw₃ => Solo.pure hw₃)
      fun e _ w₃ h => h)
    · obtain ⟨new, hview, hnew⟩ := hentered
      refine ⟨new, ?_, hnew⟩
      rw [← hview, view_concat _ _ _ (.saveEntry _)]
      rfl
    · omega
    · rw [Tables.nextOrder, hmembers, List.filterMap_append, hn]
      exact (nextPayoutOrder_concat _).symm

/-- The loop does not get past a member. -/
theorem solo_admitEntries_refused (hw : Writing pid d xs w)
    (hmember : ∃ e ∈ entries, e.userId ∈ (d.view missing xs).users)
    {Q : List Uuid → Unit → World → Prop} :
    Solo (exec missing) pid (admitEntries entries n) Q (Unchanged d) () w := by
  have herr : ∀ (e : Exc) w', w'.tables = d → Unchanged d e () w' := fun _ _ h => h
  induction entries generalizing xs n w Q with
  | nil =>
    obtain ⟨e, he, -⟩ := hmember
    exact absurd he List.not_mem_nil
  | cons entry entries ih =>
    obtain ⟨e, he, huser⟩ := hmember
    refine Solo.bind (solo_tx_write hw (fun w₁ hconflict hw₁ => ?_) herr)
    refine Solo.bind (solo_tx_write hw₁ (fun w₂ _ hw₂ => ?_) herr)
    have hrest : e ∈ entries := by
      refine (List.mem_cons.mp he).resolve_left fun h => ?_
      exact absurd (hconflict.symm.trans (if_pos (h ▸ huser))) nofun
    refine Solo.bind (ih hw₂ ⟨e, hrest, ?_⟩)
    rw [users_view_admitted]
    exact List.mem_append_left _ huser

/-- The body of an admission: what becomes of its front. -/
theorem solo_admission (hw : Writing pid d [] w) (hgroup : d.group = some g)
    {Q : List Uuid → Unit → World → Prop} (hnone : ∀ w', Writing pid d [] w' → Q [] () w')
    (hsome : ∀ w', Writing pid d [] w' → d.front g maxToAdmit ≠ [] → Solo (exec missing) pid
      (admitEntries (d.front g maxToAdmit) d.nextOrder) Q (Unchanged d) () w') :
    Solo (exec missing) pid (admitFromWaitlistInTransaction maxToAdmit) Q (Unchanged d) () w := by
  have herr : ∀ (e : Exc) w', w'.tables = d → Unchanged d e () w' := fun _ _ h => h
  refine Solo.bind (solo_lockGroup hw (fun w₁ hw₁ => ?_) herr)
  rw [hgroup]
  refine Solo.bind (solo_tx_read hw₁ rfl (fun count w₂ hcount hw₂ => ?_) herr)
  obtain rfl : d.members.length = count := Except.ok.inj hcount
  refine Solo.ite (fun _ => Solo.pure (hnone w₂ hw₂)) fun _ => ?_
  refine Solo.ite (fun _ => Solo.pure (hnone w₂ hw₂)) fun _ => ?_
  refine Solo.bind (solo_lockWaiting hw₂ (fun w₃ hw₃ => ?_) herr)
  refine Solo.ite (fun _ => Solo.pure (hnone w₃ hw₃)) fun hempty => ?_
  refine Solo.bind (solo_tx_read hw₃ rfl (fun maxOrder w₄ hmax hw₄ => ?_) herr)
  rw [← Except.ok.inj hmax]
  exact hsome w₄ hw₄ fun hnil => hempty (List.isEmpty_iff.mpr hnil)

theorem length_front_le (hfront : d.front g maxToAdmit ≠ []) :
    (d.members.length : ℤ) + (d.front g maxToAdmit).length ≤ g.maxMembers := by
  have htake : (d.front g maxToAdmit).length ≤ admissionPlaces g d maxToAdmit :=
    List.length_take_le ..
  have hpos : 0 < (d.front g maxToAdmit).length := List.length_pos_iff.mpr hfront
  have hlimit : admissionLimit (g.maxMembers - d.members.length) maxToAdmit ≤ _ := admissionLimit_le
  rw [admissionPlaces] at htake
  omega

/-- **Admissions** follow the rules, if those that take somebody in find the group open and its
members in order. -/
theorem solo_admitFromWaitlistInTransaction (hw : Writing pid d [] w) (hgroup : d.group = some g)
    (hrules : d.front g maxToAdmit ≠ [] → FrontIsFree g d maxToAdmit →
      g.status ≠ .active ∧ g.payoutOrderStrategy = .sequential) :
    Solo (exec missing) pid (admitFromWaitlistInTransaction maxToAdmit) (ByRules missing pid g d)
      (Unchanged d) () w := by
  refine solo_admission hw hgroup (fun w' hw' => hw'.byRules) fun w' hw' hfront => ?_
  by_cases hfree : FrontIsFree g d maxToAdmit
  · obtain ⟨hopen, hstrategy⟩ := hrules hfront hfree
    exact solo_admitEntries hw' (.of_members rfl) hopen hstrategy (length_front_le hfront) rfl
  · rw [FrontIsFree] at hfree
    push Not at hfree
    exact solo_admitEntries_refused hw' hfree

/-! ### Invites -/

namespace Invites

/-- The invite with a code lets a user in at the present time. -/
def InviteAdmits (code : String) (w : World) : Prop :=
  ∃ invite, w.invites.find? (·.code = code) = some invite ∧ invite.status = .active ∧
    w.clock ≤ invite.expiresAt ∧ invite.usedCount < invite.maxUses

/-- The transaction of `pid` has just begun in `w`. -/
structure Begun (pid : ℕ) (w v : World) : Prop where
  writing : Writing pid w.members.tables [] v.members
  invites : v.invites = w.invites
  noneUpdated : v.pendingInvites pid = []
  clock : v.clock = w.clock

variable {v w : World}

theorem solo_onMembers {m : Members.Service α} {Q : α → Unit → Members.World → Prop}
    {X : Exc → Unit → Members.World → Prop}
    (h : Solo (Members.exec missing) pid m Q X () v.members) :
    Solo (exec missing) pid (onMembers m) (fun a t v' => Q a t v'.members)
      (fun e t v' => X e t v'.members) () v :=
  fun x t v' halone => h x t v'.members ((carries_exec missing).alone halone)

theorem members_updateInvite {x : InviteWrite} {choice : Choice} {r : Except Exc Unit} {v' : World}
    (h : exec missing (.updateInvite x) pid choice v = some (r, v')) : v'.members = v.members := by
  rcases exec_updateInvite h with ⟨rfl, -⟩ | ⟨-, -, -, -, rfl⟩ <;> rfl

/-- **A join by an invite** follows the rules, if an invite that lets the user in finds the group
open, with room, and its members in no order. -/
theorem solo_joinByInvite (hv : Begun pid w v) {code : String} {userId : Uuid}
    (hrules : InviteAdmits code w → userId ∉ w.members.tables.users → g.status ≠ .active ∧
      (w.members.tables.members.length : ℤ) < g.maxMembers ∧ g.payoutOrderStrategy ≠ .sequential)
    (walletAddress : String) :
    Solo (exec missing) pid (joinByInvite code userId walletAddress)
      (fun _ _ v' => WritesByRules missing pid g w.members.tables v'.members)
      (fun _ _ v' => v'.members.tables = w.members.tables) () v := by
  obtain ⟨hwriting, hinvites, hupdated, hclock⟩ := hv
  refine Solo.bind (Solo.call fun choice r v₁ hexec => ?_)
  rcases exec_lockInvite hexec with ⟨rfl, e, rfl⟩ | ⟨-, -, rfl, hlocked⟩
  · exact hwriting.tables
  obtain ⟨hmembers₁, hclock₁⟩ : v₁.members = v.members ∧ v₁.clock = v.clock := by
    rcases hlocked with ⟨-, rfl⟩ | ⟨-, -, -, rfl⟩ <;> exact ⟨rfl, rfl⟩
  rw [hinvites, hupdated]
  rw [← hmembers₁] at hwriting
  refine Solo.bind (Solo.valueOr (fun invite hinvite => ?_) fun _ => hwriting.tables)
  refine Solo.bind (Solo.throwWhen (fun _ => hwriting.tables) fun hactive => ?_)
  refine Solo.bind (Solo.perform fun choice (now : ℤ) v₂ hexec => ?_)
  obtain ⟨hnow, hv₂⟩ := exec_now hexec
  have hmembers₂ : v₂.members = v₁.members := by rw [hv₂]
  rw [← hmembers₂] at hwriting
  refine Solo.bind (Solo.throwWhen (fun _ => hwriting.tables) fun hfresh => ?_)
  refine Solo.bind (Solo.throwWhen (fun _ => hwriting.tables) fun hused => ?_)
  have hadmits : InviteAdmits code w := by
    refine ⟨invite, hinvite, ?_, ?_, not_le.mp (of_decide_eq_false hused)⟩
    · exact not_not.mp (of_decide_eq_false hactive)
    · have hnow' := not_lt.mp (of_decide_eq_false hfresh)
      omega
  refine Solo.bind ((solo_onMembers (solo_tx_read hwriting rfl (X := Unchanged w.members.tables)
    (Q := fun _ _ => Writing pid w.members.tables []) (fun a w' _ hw' => hw')
      fun e w' h => h)).mono (fun existing _ v₃ hwriting₃ => ?_) fun e _ v₃ h => h)
  cases existing with
  | some membership => exact Solo.pure hwriting₃.byRules
  | none =>
  -- the insertion, once the use of the invite is counted
  have hinsert : ∀ v', Writing pid w.members.tables [] v'.members → Solo (exec missing) pid
      (onMembers (tx (.write (.insertMember { id := 0, userId, walletAddress, payoutOrder := none }))))
      (fun _ _ v'' => WritesByRules missing pid g w.members.tables v''.members)
      (fun _ _ v'' => v''.members.tables = w.members.tables) () v' := by
    refine fun v' hv' => solo_onMembers (Q := ByRules missing pid g w.members.tables)
      (X := Unchanged w.members.tables)
      (solo_tx_write hv' (fun w' hconflict hw' => ⟨_, hw', ?_⟩) fun e w' h => h)
    have hnew : userId ∉ w.members.tables.users := fun hmember =>
      absurd (hconflict.symm.trans (if_pos hmember)) nofun
    obtain ⟨hopen, hroom, hstrategy⟩ := hrules hadmits hnew
    refine (Enters.of_members rfl : Enters g _ (w.members.tables.view missing [])).insertMember
      ⟨hopen, hroom, hnew, ?_⟩
    cases hg : g.payoutOrderStrategy with
    | sequential => exact absurd hg hstrategy
    | random => rfl
    | adminDefined => rfl
  refine Solo.bind (Solo.call fun choice r v₄ hexec => ?_)
  rw [← members_updateInvite hexec] at hwriting₃
  cases r with
  | error e => exact hwriting₃.tables
  | ok a =>
  refine Solo.bind (Solo.ite (fun _ => Solo.call fun choice r v₅ hexec => ?_) fun _ => Solo.pure ?_)
  · rw [← members_updateInvite hexec] at hwriting₃
    cases r with
    | error e => exact hwriting₃.tables
    | ok a =>
      exact Solo.bind ((hinsert v₅ hwriting₃).mono (fun _ _ v₆ h => Solo.pure h) fun _ _ _ h => h)
  · exact Solo.bind ((hinsert v₄ hwriting₃).mono (fun _ _ v₅ h => Solo.pure h) fun _ _ _ h => h)

/-- A transaction whose body follows the rules. -/
theorem solo_transaction {body : Service α}
    (hbody : ∀ v, Begun pid w v → Solo (exec missing) pid body
      (fun _ _ v' => WritesByRules missing pid g w.members.tables v'.members)
      (fun _ _ v' => v'.members.tables = w.members.tables) () v) :
    Solo (exec missing) pid (transaction body)
      (fun _ _ v => Enters g w.members.tables v.members.tables)
      (fun _ _ v => Enters g w.members.tables v.members.tables) () w := by
  have hrollback : ∀ (e : Exc) v, Enters g w.members.tables v.members.tables →
      Solo (exec missing) pid (do
        Routine.call (.members .rollbackTransaction) fun _ => .ok ()
        throw e : Service α) (fun _ _ v => Enters g w.members.tables v.members.tables)
        (fun _ _ v => Enters g w.members.tables v.members.tables) () v := by
    intro e v hv
    refine Solo.bind (Solo.call fun choice r v' hexec => Solo.throw ?_)
    obtain ⟨choice', -, hmembers⟩ := exec_members hexec
    rcases exec_rollbackTransaction hmembers with hv' | hv' <;> rw [hv'] <;> exact hv
  refine Solo.bind (Solo.call fun choice r v hexec => ?_)
  obtain ⟨choice', rfl, hmembers⟩ := exec_members hexec
  rcases exec_startTransaction hmembers with ⟨hv, e, rfl⟩ | ⟨rfl, hv⟩
  · exact .of_members (congrArg (fun w => w.tables.members) hv)
  have hbegun : Begun pid w v := by
    cases choice' with
    | done =>
      cases hexec
      exact ⟨⟨rfl, pending_hold ..⟩, rfl, Function.update_self .., rfl⟩
    | _ => cases hmembers
  refine Solo.tryCatch (Solo.bind ((hbody v hbegun).mono ?_ ?_))
  · rintro a - v' ⟨xs, ⟨htables, hpending⟩, hxs⟩
    refine Solo.bind (Solo.call fun choice r v'' hexec => ?_)
    obtain ⟨choice', -, hmembers⟩ := exec_members hexec
    rcases exec_commitTransaction hmembers with ⟨hv'', e, rfl⟩ | ⟨ys, hys, hv'', hr⟩
    · refine hrollback e v'' (.of_members ?_)
      rw [hv'']
      exact congrArg Tables.members htables
    · obtain rfl := Option.some.inj (hpending.symm.trans hys)
      have hcommit : Enters g w.members.tables v''.members.tables := by
        rw [hv'']
        change Enters g _ (v'.members.tables.commit missing xs)
        rw [htables]
        exact hxs
      rcases hr with rfl | ⟨e, rfl⟩
      · exact Solo.pure hcommit
      · exact hrollback e v'' hcommit
  · exact fun e _ v' htables => hrollback e v' (.of_members (congrArg Tables.members htables))

/-! ### Joins that break the rules -/

/-- No transaction holds a lock. -/
structure Quiet (w : World) : Prop where
  members : Idle w.members
  invites : ∀ id, w.inviteHolder id = none

/-- The transaction of `pid` in `w` has written `xs`, and nobody else holds a lock. -/
structure Asking (pid : ℕ) (w : World) (xs : List Write) (v : World) : Prop where
  within : Within pid w.members.tables xs v.members
  clock : v.clock = w.clock
  invites : ∀ id, v.inviteHeld pid id = false

theorem possible_updateInvite {xs : List Write} (hv : Asking pid w xs v) {x : InviteWrite}
    {Q : Unit → Unit → World → Prop} (h : ∀ v', Asking pid w xs v' → Q () () v') :
    Possible (exec missing) pid (Routine.call (.updateInvite x) fun r => r) Q () v := by
  obtain ⟨hwithin, hclock, hheld⟩ := hv
  have hexec : exec missing (.updateInvite x) pid (.members .done) v = some (.ok (),
      { v with
        pendingInvites := Function.update v.pendingInvites pid (v.pendingInvites pid ++ [x]) }) := by
    rw [exec, hwithin.pending, Option.bind_some, if_neg (by rw [hheld]; decide)]
  exact Possible.call _ hexec rfl (h _ ⟨hwithin, hclock, hheld⟩)

theorem possible_tx {xs : List Write} (hv : Asking pid w xs v) {q : Query} {a : q.Ret}
    (ha : q.read missing (w.members.tables.view missing xs) = .ok a)
    {Q : q.Ret → Unit → World → Prop}
    (h : ∀ v', Asking pid w
      (xs ++ (q.writes missing (w.members.tables.view missing xs)).toList) v' → Q a () v') :
    Possible (exec missing) pid (onMembers (tx q)) Q () v := by
  have hmembers : Members.exec missing (.tx q) pid .done v.members = _ := hv.within.exec_tx q
  exact Possible.call (.members .done) (exec_members_of hmembers) ha
    (h _ ⟨hv.within.hold _, hv.clock, hv.invites⟩)

theorem possible_lockInvite {xs : List Write} (hv : Asking pid w xs v) {code : String}
    {invite : GroupInvite}
    (hfound : (applyAll v.invites (v.pendingInvites pid)).find? (·.code = code) = some invite)
    {Q : Option GroupInvite → Unit → World → Prop}
    (h : ∀ v', Asking pid w xs v' → Q (some invite) () v') :
    Possible (exec missing) pid (Routine.call (.lockInvite code) fun r => r) Q () v := by
  obtain ⟨hwithin, hclock, hheld⟩ := hv
  have hexec : exec missing (.lockInvite code) pid (.members .done) v = some (.ok (some invite),
      { v with inviteHolder := Function.update v.inviteHolder invite.id (some pid) }) := by
    rw [exec, hwithin.pending, Option.bind_some, hfound]
    exact if_neg (by rw [hheld]; decide)
  refine Possible.call _ hexec rfl (h _ ⟨hwithin, hclock, fun id => ?_⟩)
  change (Function.update v.inviteHolder invite.id (some pid) id).any (· ≠ pid) = false
  by_cases hid : id = invite.id
  · subst hid
    rw [Function.update_self]
    simp
  · rw [Function.update_of_ne hid]
    exact hheld id

/-- The membership of a user who joins by an invite. -/
def joinedMember (userId : Uuid) (walletAddress : String) : Member where
  id := 0
  userId
  walletAddress

/-- An invite that lets a user in who is no member makes the user one. -/
theorem possible_joinByCode (hw : Quiet w) {code : String} {userId : Uuid}
    (hadmits : InviteAdmits code w) (hnew : userId ∉ w.members.tables.users)
    (walletAddress : String) :
    Possible (exec missing) pid (joinByCode code userId walletAddress)
      (fun _ _ v => v.members.tables =
        w.members.tables.commit missing [.insertMember (joinedMember userId walletAddress)]) () w := by
  obtain ⟨invite, hinvite, hactive, hfresh, hused⟩ := hadmits
  have hstart : exec missing (.members .startTransaction) pid (.members .done) w =
      some (.ok (), { w.releaseInvites pid with members := w.members.hold pid [] }) := rfl
  have hasking : Asking pid w [] { w.releaseInvites pid with members := w.members.hold pid [] } := by
    refine ⟨hw.members.within, rfl, fun id => ?_⟩
    change Option.any _ (if w.inviteHolder id = some pid then none else w.inviteHolder id) = false
    rw [hw.invites]
    rfl
  have hfound : (applyAll w.invites (Function.update w.pendingInvites pid [] pid)).find?
      (·.code = code) = some invite := by
    rw [Function.update_self]
    exact hinvite
  refine Possible.bind (Possible.call _ hstart rfl (Possible.tryCatch (Possible.bind ?_)))
  refine Possible.bind (possible_lockInvite hasking hfound fun v₁ hv₁ => ?_)
  refine Possible.bind (Possible.pure (Possible.bind (Possible.throwWhen ?_ ?_)))
  · exact decide_eq_false (not_not.mpr hactive)
  have hnow : exec missing .now pid (.time w.clock) v₁ =
      some (w.clock, { v₁ with clock := w.clock }) := by
    rw [exec, hv₁.clock]
    exact if_pos le_rfl
  have hv₂ : Asking pid w [] { v₁ with clock := w.clock } := ⟨hv₁.within, rfl, hv₁.invites⟩
  refine Possible.bind (Possible.perform _ hnow (Possible.bind (Possible.throwWhen ?_ ?_)))
  · exact decide_eq_false (not_lt.mpr hfresh)
  refine Possible.bind (Possible.throwWhen ?_ ?_)
  · exact decide_eq_false (not_le.mpr hused)
  have hnoMember : w.members.tables.members.find? (·.userId = userId) = none :=
    List.find?_eq_none.mpr fun m hm huser =>
      hnew (List.mem_map.mpr ⟨m, hm, of_decide_eq_true huser⟩)
  refine Possible.bind (possible_tx hv₂ (q := .findMember userId)
    (congrArg Except.ok hnoMember) fun v₃ hv₃ => ?_)
  -- the insertion and the commit
  have hrest : ∀ v', Asking pid w [] v' → Possible (exec missing) pid (do
      onMembers (tx (.write (.insertMember (joinedMember userId walletAddress))))
      pure Joined.created : Service Joined) (fun a t v => Possible (exec missing) pid (do
        Routine.call (.members .commitTransaction) fun r => r
        pure a : Service Joined) (fun _ _ v => v.members.tables = w.members.tables.commit missing
          [.insertMember (joinedMember userId walletAddress)]) t v) () v' := by
    intro v' hv'
    have hconflict : (w.members.tables.view missing []).conflict missing
        (.insertMember (joinedMember userId walletAddress)) = none := if_neg hnew
    have haccepted : (Query.write (.insertMember (joinedMember userId walletAddress))).read missing
        (w.members.tables.view missing []) = .ok () := by
      simp only [Query.read, hconflict]
    refine Possible.bind (possible_tx hv' haccepted fun v'' hv'' => Possible.pure ?_)
    simp only [Query.writes, hconflict, Option.isNone_none, if_true, Option.toList_some,
      List.nil_append] at hv''
    obtain ⟨⟨htables, hpending, -, -⟩, -, -⟩ := hv''
    have hcommit : Members.exec missing .commitTransaction pid .done v''.members =
        some (.ok (), v''.members.commit missing pid
          [.insertMember (joinedMember userId walletAddress)]) := by
      rw [Members.exec, hpending, Option.map_some]
    refine Possible.bind (Possible.call (.members .done) (exec_members_of hcommit) rfl
      (Possible.pure ?_))
    change v''.members.tables.commit missing _ = _
    rw [htables]
  refine Possible.bind (possible_updateInvite hv₃ fun v₄ hv₄ => Possible.bind (Possible.ite ?_ ?_))
  · exact fun _ => possible_updateInvite hv₄ fun v₅ hv₅ => hrest v₅ hv₅
  · exact fun _ => Possible.pure (hrest v₄ hv₄)

end Invites

/-! ### The three doors -/

/-- A call that may make somebody a member. -/
inductive Door
  | addMember (userId : Uuid) (walletAddress : String)
  | joinByCode (code : String) (userId : Uuid) (walletAddress : String)
  | admitFromWaitlist (maxToAdmit : Option ℤ)
  deriving DecidableEq

/-- The call of a door. -/
def Door.call : Door → Invites.Call
  | addMember userId walletAddress => .members (.addMember userId walletAddress)
  | joinByCode code userId walletAddress => .joinByCode code userId walletAddress
  | admitFromWaitlist maxToAdmit => .members (.admitFromWaitlist maxToAdmit)

/-- **The door keeps the rules**: however the call comes to an end when it runs alone, the members
that it has taken in have entered by the rules. -/
def KeepsRules (missing : OnMissing) (maxWaitlist : ℤ) (pid : ℕ) (g : GroupRow) (door : Door)
    (w : Invites.World) : Prop :=
  ∀ x w', Alone (Invites.exec missing) pid (door.call.body maxWaitlist ()) w (x, ()) w' →
    Enters g w.members.tables w'.members.tables

/-- The rules that the door does not look at hold anyway, whenever it lets somebody in. -/
def Door.MayOpen (g : GroupRow) (w : Invites.World) : Door → Prop
  | addMember _ _ => True
  | joinByCode code userId _ =>
      Invites.InviteAdmits code w → userId ∉ w.members.tables.users → g.status ≠ .active ∧
        (w.members.tables.members.length : ℤ) < g.maxMembers ∧ g.payoutOrderStrategy ≠ .sequential
  | admitFromWaitlist maxToAdmit =>
      w.members.tables.front g maxToAdmit ≠ [] → FrontIsFree g w.members.tables maxToAdmit →
        g.status ≠ .active ∧ g.payoutOrderStrategy = .sequential

variable {maxWaitlist : ℤ} {v : Invites.World}

/-- What a call on the members does with what its service returns. -/
theorem solo_members {c : Call} {P : Tables → Prop}
    (h : Solo (exec missing) pid (c.body maxWaitlist) (fun _ _ w' => P w'.tables)
      (fun _ _ w' => P w'.tables) () v.members) :
    Solo (Invites.exec missing) pid ((Invites.Call.members c).body maxWaitlist)
      (fun _ _ w' => P w'.members.tables) (fun _ _ w' => P w'.members.tables) () v :=
  Solo.bind ((Invites.solo_onMembers h).mono (fun _ _ _ hp => Solo.pure hp) fun _ _ _ hp => hp)

theorem keepsRules_of_mayOpen {door : Door} (hgroup : v.members.tables.group = some g)
    (hdoor : door.MayOpen g v) : KeepsRules missing maxWaitlist pid g door v := by
  have hsolo : Solo (Invites.exec missing) pid (door.call.body maxWaitlist)
      (fun _ _ w' => Enters g v.members.tables w'.members.tables)
      (fun _ _ w' => Enters g v.members.tables w'.members.tables) () v := by
    cases door with
    | addMember userId walletAddress =>
      refine solo_members (Solo.bind (Solo.tryCatch ((solo_transaction fun w' hw' =>
        solo_insertMember hw' hgroup userId walletAddress).mono (fun _ _ _ h => Solo.pure h)
          fun e _ w' h => ?_)))
      cases e <;> exact Solo.throw h
    | joinByCode code userId walletAddress =>
      exact Solo.bind ((Invites.solo_transaction fun v' hv' =>
        Invites.solo_joinByInvite hv' hdoor walletAddress).mono (fun _ _ _ h => Solo.pure h)
          fun _ _ _ h => h)
    | admitFromWaitlist maxToAdmit =>
      exact solo_members (Solo.bind ((solo_transaction fun w' hw' =>
        solo_admitFromWaitlistInTransaction hw' hgroup hdoor).mono (fun _ _ _ h => Solo.pure h)
          fun _ _ _ h => h))
  intro x w' halone
  have hx := hsolo x () w' halone
  cases x with
  | ok a => exact hx
  | error e => exact hx

/-- The first of the members that have entered did so by the rules. -/
theorem Enters.first (h : Enters g d d') {m : Member} {new : List Member}
    (hmembers : d'.members = d.members ++ m :: new) : EntersByRules g d.members m := by
  obtain ⟨new', hmembers', hrules⟩ := h
  obtain rfl := List.append_cancel_left (hmembers.symm.trans hmembers')
  exact hrules.1

theorem mayOpen_of_keepsRules (hquiet : Invites.Quiet v) (hd : Distinct v.members.tables)
    (hgroup : v.members.tables.group = some g) {door : Door}
    (hkeeps : KeepsRules missing maxWaitlist pid g door v) : door.MayOpen g v := by
  cases door with
  | addMember userId walletAddress => trivial
  | joinByCode code userId walletAddress =>
    intro hadmits hnew
    have hpossible : Possible (Invites.exec missing) pid
        (Invites.joinByCode code userId walletAddress) _ () v :=
      Invites.possible_joinByCode hquiet hadmits hnew walletAddress
    obtain ⟨joined, ⟨⟩, v', halone, htables⟩ := hpossible
    have henters := hkeeps (.ok (.joined joined)) v' (halone.bind (.ret _ v'))
    have hmembers : v'.members.tables.members = v.members.tables.members ++
        [{ Invites.joinedMember userId walletAddress with id := v.members.tables.issued.length }] := by
      rw [htables]
      rfl
    have hrules := henters.first hmembers
    refine ⟨hrules.notActive, hrules.room, fun hstrategy => ?_⟩
    have horder := hrules.order
    rw [hstrategy] at horder
    cases horder
  | admitFromWaitlist maxToAdmit =>
    intro hfront hfree
    have hcomes : Comes (working missing) pid ((Call.admitFromWaitlist maxToAdmit).body maxWaitlist)
        _ (fun w' => w'.tables = _) () v.members :=
      Comes.bind (comes_admitFromWaitlist hquiet.members hd hgroup hfree) fun w' hw' =>
        Comes.pure hw'
    obtain ⟨w', halone, htables⟩ := hcomes
    obtain ⟨v', halone', rfl⟩ := (Invites.carries_exec missing).alone_via (Alone.of_limited halone)
    have henters := hkeeps (.ok (.members _)) v' (halone'.bind (.ret _ v'))
    obtain ⟨entry, rest, hcons⟩ := List.exists_cons_of_ne_nil hfront
    obtain ⟨new, hnew, -, horders⟩ := members_view missing v.members.tables
      (takesIn_admissionWrites (v.members.tables.front g maxToAdmit) v.members.tables.nextOrder)
    rw [hcons] at hnew horders
    -- the first of them has a payout order
    obtain ⟨m, new, rfl, horder, -⟩ := List.map_eq_cons_iff.mp horders
    have hrules : EntersByRules g v.members.tables.members m :=
      henters.first (by rw [htables, hcons]; exact hnew)
    refine ⟨hrules.notActive, ?_⟩
    have hprescribed := horder.symm.trans hrules.order
    cases hstrategy : g.payoutOrderStrategy with
    | sequential => rfl
    | random =>
      rw [hstrategy] at hprescribed
      cases hprescribed
    | adminDefined =>
      rw [hstrategy] at hprescribed
      cases hprescribed

/-- **When a door keeps the rules**: an addition always does; a join by an invite and an admission
do exactly when the rules at which they do not look hold anyway. -/
theorem keepsRules_iff (missing : OnMissing) (maxWaitlist : ℤ) (pid : ℕ) {w : Invites.World}
    (hquiet : Invites.Quiet w) (hd : Distinct w.members.tables) {g : GroupRow}
    (hgroup : w.members.tables.group = some g) (door : Door) :
    KeepsRules missing maxWaitlist pid g door w ↔ door.MayOpen g w :=
  ⟨mayOpen_of_keepsRules hquiet hd hgroup, keepsRules_of_mayOpen hgroup⟩

/-- An admission into a group that is open, takes members in order, and has one place. -/
theorem keepsRules_sample : KeepsRules .ignores 50 0
    { id := 0, name := "group", adminWallet := "G0", minMembers := 1, maxMembers := 2 }
    (.admitFromWaitlist none) (Invites.started
      { Invites.Sample.full with members := Invites.Sample.full.members.take 1 } []) :=
  (keepsRules_iff .ignores 50 0 ⟨⟨rfl, fun id => rfl⟩, fun id => rfl⟩ ⟨by decide, by decide⟩ rfl
    (.admitFromWaitlist none)).mpr fun _ _ => ⟨by decide, rfl⟩

/-- An invite lets a third member into a full group of two. -/
theorem not_keepsRules : ¬ ∀ (w : Invites.World) (g : GroupRow), Invites.Quiet w →
    Distinct w.members.tables → w.members.tables.group = some g →
      ∀ door, KeepsRules .ignores 50 0 g door w := by
  intro hall
  have hkeeps := hall (Invites.started Invites.Sample.full [Invites.Sample.invite]) _
    ⟨⟨rfl, fun id => rfl⟩, fun id => rfl⟩ ⟨by decide, by decide⟩ rfl (.joinByCode "code" 5 "G5")
  have hmay : (Door.joinByCode "code" 5 "G5").MayOpen _ _ :=
    mayOpen_of_keepsRules ⟨⟨rfl, fun id => rfl⟩, fun id => rfl⟩ ⟨by decide, by decide⟩ rfl hkeeps
  obtain ⟨-, hroom, -⟩ := hmay ⟨_, rfl, rfl, by decide, by decide⟩ (by decide)
  exact absurd hroom (by decide)

end Ahjoor.Members
