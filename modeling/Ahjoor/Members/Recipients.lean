import Ahjoor.Members.Fairness
import Ahjoor.Members.Numbering

/-!
# One recipient for each round

In a group with sequential orders the members of an activated group are to take the places from
zero on, each place once. Additions and admissions count on from the greatest order under the lock
of the group, a departure closes its gap save by save, and a removal closes none. The orders are
consecutive whenever no call is in flight, as long as only the last member is removed, and no
deletion and no renumbering meets another one or a transaction that has already read the greatest
order.
-/

namespace Ahjoor.Members

open Async

/-! ### What is claimed -/

/-- The payout orders are a permutation of the places, so that every round has one recipient. -/
structure OneRecipientEach (d : Tables) : Prop where
  perm : d.orders.Perm (places d.members.length)
  recipient : ∀ r : ℤ, 1 ≤ r → r ≤ d.members.length →
    d.members.countP (·.payoutOrder = some (r - 1)) = 1

/-- The event starts an activation. -/
def startsActivation : Event Op.Ret World Call (Except Exc Reply) → Bool
  | .start _ (.activateGroup _ _) => true
  | _ => false

/-- The event is a successful return. -/
def returnsOk : Event Op.Ret World Call (Except Exc Reply) → Bool
  | .returned _ (.ok _) => true
  | _ => false

/-- The group has been activated. -/
def Activated (h : MembersHist) : Prop :=
  ∃ e ∈ h.trace, ∃ e' ∈ h.trace, startsActivation e = true ∧ returnsOk e' = true ∧ e'.pid = e.pid

/-- After the activation and when no call is in flight, every round has one recipient. -/
def RecipientsUnique (s : MembersState) : Prop :=
  s.Quiet → Activated s.hist → OneRecipientEach s.hist.world.tables

/-! ### Schedules -/

/-- Additions, admissions, removals, departures and activations are started. -/
def CallsThatNumber (_ h' : MembersHist) : Prop :=
  match h'.trace with
  | .start _ c :: _ => c.numbers = true
  | _ => True

/-- The event starts a departure of the call. -/
def startsDeparture (pid : ℕ) : Event Op.Ret World Call (Except Exc Reply) → Bool
  | .start p (.leaveGroup _) => p = pid
  | _ => false

/-- The call is a departure. -/
def Leaves (h : MembersHist) (pid : ℕ) : Prop := ∃ e ∈ h.trace, startsDeparture pid e = true

/-- A departure has deleted its membership and has not yet renumbered the others. -/
def OpenDeparture (h : MembersHist) (pid : ℕ) : Prop :=
  Leaves h pid ∧ (progress (log pid h.trace)).isOpen = true

/-- An open transaction has read the greatest payout order. -/
def HasRead (h : MembersHist) (pid : ℕ) : Prop :=
  (h.world.pending pid).isSome = true ∧ (claimed (log pid h.trace)).isSome = true

/-- The call relies on the payout orders as they are. -/
def Busy (h : MembersHist) (pid : ℕ) : Prop := OpenDeparture h pid ∨ HasRead h pid

instance (h : MembersHist) (pid : ℕ) : Decidable (Leaves h pid) :=
  inferInstanceAs (Decidable (∃ e ∈ h.trace, _))

instance (h : MembersHist) (pid : ℕ) : Decidable (OpenDeparture h pid) :=
  inferInstanceAs (Decidable (_ ∧ _))

instance (h : MembersHist) (pid : ℕ) : Decidable (Busy h pid) :=
  inferInstanceAs (Decidable (_ ∨ (_ ∧ _)))

/-- What a deletion has to meet: no call relies on the orders; a departure deletes the membership
as it has loaded it and learns of its success; a removal deletes the last member. -/
def DeletesInOrder (h : MembersHist) (pid : ℕ) (member : Member) (ok : Bool) (d' : Tables) : Prop :=
  (∀ e ∈ h.trace, ¬ Busy h e.pid) ∧
    if Leaves h pid then
      member ∈ h.world.tables.members ∧ (ok = true ∨ d'.members = h.world.tables.members)
    else Last member h.world.tables

instance (h : MembersHist) (pid : ℕ) (member : Member) (ok : Bool) (d' : Tables) :
    Decidable (DeletesInOrder h pid member ok d') := by
  unfold DeletesInOrder
  infer_instance

/-- Deletions are in order, the greatest payout order is not read during a renumbering, and no
renumbering is broken off. -/
def InOrder (h h' : MembersHist) : Prop :=
  match h'.trace with
  | .start _ c :: _ => c.numbers = true
  | .did pid (.db (.write (.removeMember member))) r _ :: _ =>
      DeletesInOrder h pid member (Except.isOk r) h'.world.tables
  | .did _ (.tx .maxPayoutOrder) _ _ :: _ => ∀ e ∈ h.trace, ¬ OpenDeparture h e.pid
  | .returned pid _ :: _ | .crashed pid :: _ => ¬ OpenDeparture h pid
  | _ => True

instance (h : MembersHist) : Decidable (Activated h) :=
  inferInstanceAs (Decidable (∃ e ∈ h.trace, ∃ e' ∈ h.trace, _))

instance : DecidableRel CallsThatNumber := fun h h' => by
  unfold CallsThatNumber
  rcases h'.trace with _ | ⟨_ | _ | _ | _, _⟩ <;> infer_instance

instance : DecidableRel InOrder := fun h h' => by
  unfold InOrder
  rcases h'.trace with _ | ⟨_ | ⟨_, o, _, _⟩ | _ | _, _⟩
  case cons.did =>
    cases o with
    | db q =>
      cases q with
      | write x => cases x <;> infer_instance
      | _ => infer_instance
    | tx q => cases q <;> infer_instance
    | _ => infer_instance
  all_goals infer_instance

/-! ### The invariant -/

section Invariant

variable (missing : OnMissing)

/-- The groups that the call has read have sequential orders. -/
def Known (L : Log Op.Ret) : Prop :=
  ¬ LocksOther L ∧ ∀ strategy, LoadsStrategy strategy L → strategy = .sequential

/-- The keys of the memberships are distinct, and have been handed out. -/
structure Numbered (d : Tables) : Prop where
  nodup : d.ids.Nodup
  lt_issued : ∀ m ∈ d.members, m.id < d.issued.length

/-- What a transaction holds back continues the orders of `n` members. -/
structure Session (n : ℕ) (k : Option ℤ) (xs : List Write) : Prop where
  takesIn : ∀ x ∈ xs, x.takesIn = true
  unread : k = none → xs.filterMap Write.insertedOrder = []
  read : ∀ next, k = some next → ∃ j : ℕ, next = n + j ∧
    xs.filterMap Write.insertedOrder = (List.range j).map fun i : ℕ => some ((n : ℤ) + i)

/-- What a departure has left of the orders. -/
def DepartureAt (d : Tables) : Progress → Prop
  | .departed member => Gap member.payoutOrder d
  | .saving writes => Consecutive (d.view missing writes) ∧
      ∀ x ∈ writes, ∃ member : Member, x = .saveMember member ∧ member.id ∈ d.ids
  | _ => True

/-- **The invariant.** -/
structure Ordered (h : MembersHist) : Prop where
  calls : ∀ pid c, .start pid c ∈ h.trace → c.numbers = true
  sequential : ∀ g, h.world.tables.group = some g → g.payoutOrderStrategy = .sequential
  known : ∀ pid, Known (log pid h.trace)
  numbered : Numbered h.world.tables
  session : ∀ pid xs, h.world.pending pid = some xs →
    Session h.world.tables.members.length (claimed (log pid h.trace)) xs
  locked : ∀ pid xs, h.world.pending pid = some xs → hasLocked (log pid h.trace) = true →
    h.world.groupHolder = some pid
  reads : ∀ pid, (claimed (log pid h.trace)).isSome = true → hasLocked (log pid h.trace) = true
  apart : ∀ pid, progress (log pid h.trace) ≠ .idle → claimed (log pid h.trace) = none
  saves : ∀ pid writes, progress (log pid h.trace) = .saving writes → Leaves h pid
  exclusive : ∀ p q, Busy h p → Busy h q → p = q
  departure : ∀ pid, OpenDeparture h pid →
    DepartureAt missing h.world.tables (progress (log pid h.trace))
  filled : (∀ pid, ¬ OpenDeparture h pid) → Consecutive h.world.tables
  alive : ∀ pid, OpenDeparture h pid → ∀ e ∈ h.trace, e.isEnd = true → e.pid ≠ pid

end Invariant

/-! ### One operation -/

section Operation

variable {missing : OnMissing} {h : MembersHist} {pid : ℕ} {o : Op} {r : o.Ret} {w : World}

/-- What one operation of call `pid` does, in terms of the call itself and of what others rely
on. -/
structure Effect (missing : OnMissing) (h : MembersHist) (pid : ℕ) (o : Op) (r : o.Ret)
    (w : World) : Prop where
  sequential : ∀ g, w.tables.group = some g → g.payoutOrderStrategy = .sequential
  known : Known (⟨o, r⟩ :: log pid h.trace)
  numbered : Numbered w.tables
  others : ∀ p, p ≠ pid → w.pending p = none ∨ (w.pending p = h.world.pending p ∧
    (h.world.groupHolder = some p → w.groupHolder = some p))
  session : ∀ xs, w.pending pid = some xs →
    Session w.tables.members.length (claimed (⟨o, r⟩ :: log pid h.trace)) xs
  locked : ∀ xs, w.pending pid = some xs → hasLocked (⟨o, r⟩ :: log pid h.trace) = true →
    w.groupHolder = some pid
  reads : (claimed (⟨o, r⟩ :: log pid h.trace)).isSome = true →
    hasLocked (⟨o, r⟩ :: log pid h.trace) = true
  apart : progress (⟨o, r⟩ :: log pid h.trace) ≠ .idle →
    claimed (⟨o, r⟩ :: log pid h.trace) = none
  saves : ∀ writes, progress (⟨o, r⟩ :: log pid h.trace) = .saving writes → Leaves h pid
  free : w.tables.members = h.world.tables.members ∨ ∀ p, p ≠ pid → ¬ Busy h p
  busy : Busy (h.push (.did pid o r h.world) w) pid → Busy h pid ∨ ∀ p, p ≠ pid → ¬ Busy h p
  departure : Leaves h pid → (progress (⟨o, r⟩ :: log pid h.trace)).isOpen = true →
    DepartureAt missing w.tables (progress (⟨o, r⟩ :: log pid h.trace))
  filled : ¬ (Leaves h pid ∧ (progress (⟨o, r⟩ :: log pid h.trace)).isOpen = true) →
    (∀ p, p ≠ pid → ¬ OpenDeparture h p) → Consecutive w.tables

theorem leaves_did {p : ℕ} : Leaves (h.push (.did pid o r h.world) w) p ↔ Leaves h p := by
  constructor
  · rintro ⟨e, he, hstart⟩
    rcases List.mem_cons.mp he with rfl | he
    · cases hstart
    · exact ⟨e, he, hstart⟩
  · rintro ⟨e, he, hstart⟩
    exact ⟨e, List.mem_cons_of_mem _ he, hstart⟩

theorem log_did_of_ne {p : ℕ} (hp : p ≠ pid) :
    log p (h.push (.did pid o r h.world) w).trace = log p h.trace :=
  log_cons_of_ne (fun heq => hp heq.symm) _

theorem openDeparture_did_of_ne {p : ℕ} (hp : p ≠ pid) :
    OpenDeparture (h.push (.did pid o r h.world) w) p ↔ OpenDeparture h p := by
  rw [OpenDeparture, OpenDeparture, log_did_of_ne hp, leaves_did]

theorem openDeparture_did_self : OpenDeparture (h.push (.did pid o r h.world) w) pid ↔
    Leaves h pid ∧ (progress (⟨o, r⟩ :: log pid h.trace)).isOpen = true := by
  rw [OpenDeparture, Hist.push_trace, log_did_self, leaves_did]

theorem DepartureAt.of_members {d d' : Tables} {p : Progress} (hd : DepartureAt missing d p)
    (hmembers : d'.members = d.members) : DepartureAt missing d' p := by
  cases p with
  | departed member =>
    change (member.payoutOrder :: d'.orders).Perm (places (d'.members.length + 1))
    rw [Tables.orders, hmembers]
    exact hd
  | saving writes =>
    refine ⟨hd.1.of_members (members_view_congr missing hmembers fun x hx => ?_), fun x hx => ?_⟩
    · obtain ⟨member, hmember, -⟩ := hd.2 x hx
      exact ⟨member, hmember⟩
    · rw [Tables.ids, hmembers]
      exact hd.2 x hx
  | idle => trivial
  | stuck => trivial
  | done => trivial

/-- Who is busy after the operation of another call was so before it. -/
theorem Busy.of_did (heffect : Effect missing h pid o r w) {p : ℕ} (hp : p ≠ pid)
    (hbusy : Busy (h.push (.did pid o r h.world) w) p) : Busy h p := by
  rcases hbusy with hopen | ⟨hpending, hclaimed⟩
  · exact .inl ((openDeparture_did_of_ne hp).mp hopen)
  · rw [log_did_of_ne hp] at hclaimed
    rcases heffect.others p hp with hnone | ⟨hsame, -⟩
    · rw [Hist.push_world, hnone] at hpending
      cases hpending
    · exact .inr ⟨hsame ▸ hpending, hclaimed⟩

/-- **An operation with these effects keeps the invariant.** -/
theorem Ordered.did (hh : Ordered missing h) (heffect : Effect missing h pid o r w)
    (hlive : ∀ e ∈ h.trace, e.isEnd = true → e.pid ≠ pid) :
    Ordered missing (h.push (.did pid o r h.world) w) where
  calls p c hstart := hh.calls p c (by simpa using hstart)
  sequential := heffect.sequential
  known p := by
    by_cases hp : p = pid
    · subst hp
      rw [Hist.push_trace, log_did_self]
      exact heffect.known
    · rw [log_did_of_ne hp]
      exact hh.known p
  numbered := heffect.numbered
  session p xs hxs := by
    by_cases hp : p = pid
    · subst hp
      rw [Hist.push_trace, log_did_self]
      exact heffect.session xs hxs
    · rw [log_did_of_ne hp]
      have hbefore : h.world.pending p = some xs := by
        rcases heffect.others p hp with hnone | ⟨hsame, -⟩
        · rw [Hist.push_world, hnone] at hxs
          cases hxs
        · exact hsame ▸ hxs
      have hsession := hh.session p xs hbefore
      rcases heffect.free with hmembers | hfree
      · rw [Hist.push_world, hmembers]
        exact hsession
      · have hunread : claimed (log p h.trace) = none := by
          by_contra hne
          exact hfree p hp (.inr ⟨by rw [hbefore]; rfl, Option.isSome_iff_ne_none.mpr hne⟩)
        rw [hunread] at hsession ⊢
        exact ⟨hsession.takesIn, hsession.unread, fun next hnext => by cases hnext⟩
  locked p xs hxs hlocked := by
    by_cases hp : p = pid
    · subst hp
      rw [Hist.push_trace, log_did_self] at hlocked
      exact heffect.locked xs hxs hlocked
    · rw [log_did_of_ne hp] at hlocked
      rcases heffect.others p hp with hnone | ⟨hsame, hholder⟩
      · rw [Hist.push_world, hnone] at hxs
        cases hxs
      · exact hholder (hh.locked p xs (hsame ▸ hxs) hlocked)
  reads p hp' := by
    by_cases hp : p = pid
    · subst hp
      rw [Hist.push_trace, log_did_self] at hp' ⊢
      exact heffect.reads hp'
    · rw [log_did_of_ne hp] at hp' ⊢
      exact hh.reads p hp'
  apart p hp' := by
    by_cases hp : p = pid
    · subst hp
      rw [Hist.push_trace, log_did_self] at hp' ⊢
      exact heffect.apart hp'
    · rw [log_did_of_ne hp] at hp' ⊢
      exact hh.apart p hp'
  saves p writes hp' := by
    rw [leaves_did]
    by_cases hp : p = pid
    · subst hp
      rw [Hist.push_trace, log_did_self] at hp'
      exact heffect.saves writes hp'
    · rw [log_did_of_ne hp] at hp'
      exact hh.saves p writes hp'
  exclusive p q hp' hq' := by
    by_cases hp : p = pid <;> by_cases hq : q = pid
    · rw [hp, hq]
    · subst hp
      rcases heffect.busy hp' with hbusy | hfree
      · exact hh.exclusive p q hbusy (hq'.of_did heffect hq)
      · exact absurd (hq'.of_did heffect hq) (hfree q hq)
    · subst hq
      rcases heffect.busy hq' with hbusy | hfree
      · exact hh.exclusive p q (hp'.of_did heffect hp) hbusy
      · exact absurd (hp'.of_did heffect hp) (hfree p hp)
    · exact hh.exclusive p q (hp'.of_did heffect hp) (hq'.of_did heffect hq)
  departure p hopen := by
    by_cases hp : p = pid
    · subst hp
      obtain ⟨hleaves, hprogress⟩ := openDeparture_did_self.mp hopen
      rw [Hist.push_trace, log_did_self]
      exact heffect.departure hleaves hprogress
    · have hbefore := (openDeparture_did_of_ne hp).mp hopen
      rw [log_did_of_ne hp]
      rcases heffect.free with hmembers | hfree
      · exact (hh.departure p hbefore).of_members hmembers
      · exact absurd (.inl hbefore) (hfree p hp)
  filled hnone := by
    refine heffect.filled (fun hopen => hnone pid (openDeparture_did_self.mpr hopen))
      fun p hp hopen => hnone p ((openDeparture_did_of_ne hp).mpr hopen)
  alive p hopen e he hend := by
    rcases List.mem_cons.mp he with rfl | he
    · cases hend
    by_cases hp : p = pid
    · exact hp ▸ hlive e he hend
    · exact hh.alive p ((openDeparture_did_of_ne hp).mp hopen) e he hend

/-- What the log of a call says is not changed by the operation. -/
structure Silent (L : Log Op.Ret) (e : Entry Op.Ret) : Prop where
  progress : progress (e :: L) = progress L
  claimed : claimed (e :: L) = claimed L
  hasLocked : hasLocked (e :: L) = hasLocked L

/-- An operation that leaves the members alone and is no part of a departure. -/
theorem Effect.within (hh : Ordered missing h)
    (hprogress : progress (⟨o, r⟩ :: log pid h.trace) = progress (log pid h.trace))
    (hknown : Known (⟨o, r⟩ :: log pid h.trace))
    (hgroup : ∀ g, w.tables.group = some g → g.payoutOrderStrategy = .sequential)
    (hmembers : w.tables.members = h.world.tables.members) (hnumbered : Numbered w.tables)
    (hothers : ∀ p, p ≠ pid → w.pending p = none ∨ (w.pending p = h.world.pending p ∧
      (h.world.groupHolder = some p → w.groupHolder = some p)))
    (hsession : ∀ xs, w.pending pid = some xs →
      Session h.world.tables.members.length (claimed (⟨o, r⟩ :: log pid h.trace)) xs)
    (hlocked : ∀ xs, w.pending pid = some xs → hasLocked (⟨o, r⟩ :: log pid h.trace) = true →
      w.groupHolder = some pid)
    (hreads : (claimed (⟨o, r⟩ :: log pid h.trace)).isSome = true →
      hasLocked (⟨o, r⟩ :: log pid h.trace) = true)
    (hapart : progress (log pid h.trace) ≠ .idle → claimed (⟨o, r⟩ :: log pid h.trace) = none)
    (hread : (w.pending pid).isSome = true → (claimed (⟨o, r⟩ :: log pid h.trace)).isSome = true →
      HasRead h pid ∨ ∀ p, p ≠ pid → ¬ Busy h p) : Effect missing h pid o r w where
  sequential := hgroup
  known := hknown
  numbered := hnumbered
  others := hothers
  session xs hxs := hmembers.symm ▸ hsession xs hxs
  locked := hlocked
  reads := hreads
  apart := hprogress.symm ▸ hapart
  saves writes := hprogress.symm ▸ hh.saves pid writes
  free := .inl hmembers
  busy hbusy := by
    rcases hbusy with hopen | ⟨hsome, hclaimed⟩
    · rw [openDeparture_did_self, hprogress] at hopen
      exact .inl (.inl hopen)
    · rw [Hist.push_trace, log_did_self] at hclaimed
      exact (hread hsome hclaimed).imp_left .inr
  departure hleaves hopen := by
    rw [hprogress] at hopen ⊢
    exact (hh.departure pid ⟨hleaves, hopen⟩).of_members hmembers
  filled hnot hothers := by
    rw [hprogress] at hnot
    refine (hh.filled fun p hopen => ?_).of_members hmembers
    by_cases hp : p = pid
    · exact hnot (hp ▸ hopen)
    · exact hothers p hp hopen

/-- An operation that says nothing, and leaves the members and the open transactions alone. -/
theorem Effect.silent (hh : Ordered missing h) (hsilent : Silent (log pid h.trace) ⟨o, r⟩)
    (hknown : Known (⟨o, r⟩ :: log pid h.trace))
    (hgroup : ∀ g, w.tables.group = some g → g.payoutOrderStrategy = .sequential)
    (hmembers : w.tables.members = h.world.tables.members)
    (hissued : w.tables.issued = h.world.tables.issued)
    (hpending : ∀ p, w.pending p = none ∨ (w.pending p = h.world.pending p ∧
      (h.world.groupHolder = some p → w.groupHolder = some p))) :
    Effect missing h pid o r w := by
  have hnumbered : Numbered w.tables := by
    refine ⟨?_, fun m hm => ?_⟩
    · rw [Tables.ids, hmembers]
      exact hh.numbered.nodup
    · rw [hissued]
      exact hh.numbered.lt_issued m (hmembers ▸ hm)
  have hbefore : ∀ xs, w.pending pid = some xs → h.world.pending pid = some xs ∧
      (h.world.groupHolder = some pid → w.groupHolder = some pid) := by
    intro xs hxs
    rcases hpending pid with hnone | ⟨hsame, hholder⟩
    · rw [hnone] at hxs
      cases hxs
    · exact ⟨hsame ▸ hxs, hholder⟩
  refine .within hh hsilent.progress hknown hgroup hmembers hnumbered (fun p _ => hpending p)
    (fun xs hxs => ?_) (fun xs hxs hlocked => ?_) ?_ ?_ fun hsome hclaimed => .inl ?_
  · rw [hsilent.claimed]
    exact hh.session pid xs (hbefore xs hxs).1
  · rw [hsilent.hasLocked] at hlocked
    exact (hbefore xs hxs).2 (hh.locked pid xs (hbefore xs hxs).1 hlocked)
  · rw [hsilent.claimed, hsilent.hasLocked]
    exact hh.reads pid
  · rw [hsilent.claimed]
    exact hh.apart pid
  · obtain ⟨xs, hxs⟩ := Option.isSome_iff_exists.mp hsome
    rw [hsilent.claimed] at hclaimed
    exact ⟨Option.isSome_iff_exists.mpr ⟨xs, (hbefore xs hxs).1⟩, hclaimed⟩

/-- What the call has read stays known. -/
theorem Known.cons {L : Log Op.Ret} (hL : Known L) {e : Entry Op.Ret}
    (hlock : ∀ group : GroupRow, e = ⟨.lockGroup, .ok (some group)⟩ →
      group.payoutOrderStrategy = .sequential)
    (hload : ∀ (group : GroupRow) (members : List Member),
      e = ⟨.db .findGroupWithMembers, .ok (some (group, members))⟩ →
        group.payoutOrderStrategy = .sequential) : Known (e :: L) := by
  refine ⟨fun ⟨group, hmem, hother⟩ => ?_, fun strategy ⟨group, members, hmem, hstrategy⟩ => ?_⟩
  · rcases List.mem_cons.mp hmem with heq | hmem
    · exact hother (hlock group heq.symm)
    · exact hL.1 ⟨group, hmem, hother⟩
  · rcases List.mem_cons.mp hmem with heq | hmem
    · exact hstrategy.symm.trans (hload group members heq.symm)
    · exact hL.2 strategy ⟨group, members, hmem, hstrategy⟩

/-- The same for an operation that neither locks nor loads the group. -/
theorem Known.cons_other {L : Log Op.Ret} (hL : Known L) {o : Op} {r : o.Ret}
    (hlock : o ≠ .lockGroup) (hload : o ≠ .db .findGroupWithMembers) :
    Known ((⟨o, r⟩ : Entry Op.Ret) :: L) :=
  hL.cons (fun _ heq => absurd (congrArg Sigma.fst heq) hlock)
    fun _ _ heq => absurd (congrArg Sigma.fst heq) hload

/-- An operation that says nothing and leaves the world alone, but for a transaction that ends. -/
theorem Effect.rest (hh : Ordered missing h) (hsilent : Silent (log pid h.trace) ⟨o, r⟩)
    (hknown : Known (⟨o, r⟩ :: log pid h.trace))
    (hw : w = h.world ∨ ∃ p, w = h.world.release p) : Effect missing h pid o r w := by
  rcases hw with rfl | ⟨p, rfl⟩
  · exact .silent hh hsilent hknown hh.sequential rfl rfl fun _ => .inr ⟨rfl, id⟩
  · refine .silent hh hsilent hknown hh.sequential rfl rfl fun q => ?_
    by_cases hq : q = p
    · exact .inl (hq ▸ pending_release_self h.world p)
    · refine .inr ⟨Function.update_of_ne hq _ _, fun hheld => ?_⟩
      change (if h.world.groupHolder = some p then none else h.world.groupHolder) = some q
      rw [hheld, if_neg fun heq => hq (Option.some.inj heq)]

variable {choice : Choice}

/-- Reading outside a transaction, except for the renumbering. -/
theorem effect_read (hh : Ordered missing h) {q : Query} (hq : q.isRead = true)
    (hne : q ≠ .findMembers) {r : Except Exc q.Ret}
    (hexec : exec missing (.db q) pid choice h.world = some (r, w)) :
    Effect missing h pid (.db q) r w := by
  have hw : w = h.world := by
    rcases exec_db hexec with ⟨rfl, -⟩ | ⟨-, rfl, -⟩
    · rfl
    · exact execute_of_isRead hq _
  have hsilent : Silent (log pid h.trace) ⟨.db q, r⟩ := by
    cases q with
    | findMembers => exact absurd rfl hne
    | write x => cases hq
    | _ => exact ⟨rfl, rfl, rfl⟩
  refine .rest hh hsilent ((hh.known pid).cons (fun _ heq => by cases heq) fun group members heq => ?_)
    (.inl hw)
  obtain rfl : q = .findGroupWithMembers := by
    have hop := congrArg Sigma.fst heq
    cases hop
    rfl
  obtain rfl : r = .ok (some (group, members)) := eq_of_heq (Sigma.mk.inj heq).2
  rcases exec_db hexec with ⟨-, e, he⟩ | ⟨-, -, hr | ⟨e, he⟩⟩
  · cases he
  · obtain ⟨g, hg, hpair⟩ := Option.map_eq_some_iff.mp (Except.ok.inj hr).symm
    obtain ⟨rfl, -⟩ := Prod.mk.inj hpair
    exact hh.sequential g hg
  · cases he

/-- The members that remain are loaded. -/
theorem effect_findMembers (hh : Ordered missing h) {member : Member}
    (hleaves : Leaves h pid) (hprogress : progress (log pid h.trace) = .departed member)
    {r : Except Exc (List Member)}
    (hexec : exec missing (.db .findMembers) pid choice h.world = some (r, w)) :
    Effect missing h pid (.db .findMembers) r w := by
  obtain rfl : w = h.world := by
    rcases exec_db hexec with ⟨rfl, -⟩ | ⟨-, rfl, -⟩ <;> rfl
  have hunclaimed : claimed (log pid h.trace) = none := hh.apart pid (by rw [hprogress]; simp)
  have hclaimed : claimed (⟨.db .findMembers, r⟩ :: log pid h.trace) = none := hunclaimed
  have hnext : progress (⟨.db .findMembers, r⟩ :: log pid h.trace) =
      Progress.advance ⟨.db .findMembers, r⟩ (.departed member) := by
    rw [← hprogress]
    rfl
  have hisOpen : (progress (⟨.db .findMembers, r⟩ :: log pid h.trace)).isOpen = true := by
    rw [hnext]
    cases r <;> rfl
  have hbefore : OpenDeparture h pid := ⟨hleaves, by rw [hprogress]; rfl⟩
  refine ⟨hh.sequential, (hh.known pid).cons_other nofun nofun, hh.numbered,
    fun p _ => .inr ⟨rfl, id⟩, fun xs hxs => ?_, fun xs hxs hlocked => hh.locked pid xs hxs hlocked,
    fun hsome => ?_, fun _ => hclaimed, fun _ _ => hleaves, .inl rfl, fun _ => .inl (.inl hbefore),
    fun _ _ => ?_, fun hnot _ => absurd ⟨hleaves, hisOpen⟩ hnot⟩
  · have hsession := hh.session pid xs hxs
    rw [hunclaimed] at hsession
    rwa [hclaimed]
  · rw [hclaimed] at hsome
    cases hsome
  · rw [hnext]
    cases r with
    | error e => trivial
    | ok members =>
      have hgap := hh.departure pid hbefore
      rw [hprogress] at hgap
      have hperm : members.Perm h.world.tables.members := by
        rcases exec_db hexec with ⟨-, e, he⟩ | ⟨-, -, hr | ⟨e, he⟩⟩
        · cases he
        · rw [Except.ok.inj hr]
          exact List.perm_insertionSort _ _
        · cases he
      exact ⟨hgap.resequence hh.numbered.nodup hperm,
        mem_resequenceWrites fun m hm => List.mem_map_of_mem (hperm.mem_iff.mp hm)⟩

theorem exists_event_of_log {pid : ℕ} (hlog : log pid h.trace ≠ []) : ∃ e ∈ h.trace, e.pid = pid := by
  by_contra hnone
  exact hlog (log_eq_nil fun e he heq => hnone ⟨e, he, heq⟩)

/-- Whoever is busy has done something. -/
theorem Busy.exists_event {p : ℕ} (hbusy : Busy h p) : ∃ e ∈ h.trace, e.pid = p := by
  refine exists_event_of_log fun hnil => ?_
  rcases hbusy with ⟨-, hopen⟩ | ⟨-, hsome⟩
  · rw [hnil] at hopen
    cases hopen
  · rw [hnil] at hsome
    cases hsome

theorem not_busy_of_forall (hfree : ∀ e ∈ h.trace, ¬ Busy h e.pid) (p : ℕ) : ¬ Busy h p := by
  intro hbusy
  obtain ⟨e, he, rfl⟩ := hbusy.exists_event
  exact hfree e he hbusy

/-- Nothing is known of a session that has not read the greatest order. -/
theorem Session.of_unread {m n : ℕ} {xs : List Write} (hs : Session m none xs) : Session n none xs :=
  ⟨hs.takesIn, hs.unread, fun next hnext => by cases hnext⟩

theorem Numbered.removeMember {d : Tables} (hd : Numbered d) (member : Member) :
    Numbered (d.commit missing [.removeMember member]) :=
  ⟨hd.nodup.sublist (List.filter_sublist.map _), fun m hm => hd.lt_issued m (List.mem_of_mem_filter hm)⟩

/-- A deletion in order. -/
theorem effect_removeMember (hh : Ordered missing h) {member : Member}
    (hidle : progress (log pid h.trace) = .idle) (hunclaimed : claimed (log pid h.trace) = none)
    {r : Except Exc Unit} (horder : DeletesInOrder h pid member (Except.isOk r) w.tables)
    (hexec : exec missing (.db (.write (.removeMember member))) pid choice h.world = some (r, w)) :
    Effect missing h pid (.db (.write (.removeMember member))) r w := by
  have hw : w = h.world ∧ Except.isOk r = false ∨
      w = { h.world with tables := h.world.tables.commit missing [.removeMember member] } := by
    rcases exec_db hexec with ⟨rfl, e, rfl⟩ | ⟨-, rfl, -⟩
    · exact .inl ⟨rfl, rfl⟩
    · exact .inr rfl
  have hclaimed : claimed (⟨.db (.write (.removeMember member)), r⟩ :: log pid h.trace) = none :=
    hunclaimed
  have hnext : progress (⟨.db (.write (.removeMember member)), r⟩ :: log pid h.trace) =
      if Except.isOk r then .departed member else .idle := by
    rw [← hidle]
    rfl
  have hfree := not_busy_of_forall horder.1
  have hbefore : Consecutive h.world.tables := hh.filled fun p hopen => hfree p (.inl hopen)
  have hpending : w.pending = h.world.pending := by rcases hw with ⟨rfl, -⟩ | rfl <;> rfl
  have hholder : w.groupHolder = h.world.groupHolder := by rcases hw with ⟨rfl, -⟩ | rfl <;> rfl
  have hgroup : w.tables.group = h.world.tables.group := by rcases hw with ⟨rfl, -⟩ | rfl <;> rfl
  refine ⟨fun g hg => hh.sequential g (hgroup ▸ hg), (hh.known pid).cons_other nofun nofun, ?_,
    fun p _ => .inr ⟨congrFun hpending p, fun hp => hholder.trans hp⟩, fun xs hxs => ?_,
    fun xs hxs hlocked => ?_, fun hsome => ?_, fun _ => hclaimed, fun writes hsaving => ?_,
    .inr fun p _ => hfree p, fun _ => .inr fun p _ => hfree p, fun hleaves hopen => ?_,
    fun hnot _ => ?_⟩
  · rcases hw with ⟨rfl, -⟩ | rfl
    · exact hh.numbered
    · exact hh.numbered.removeMember member
  · have hsession := hh.session pid xs (hpending ▸ hxs)
    rw [hunclaimed] at hsession
    rw [hclaimed]
    exact hsession.of_unread
  · exact hholder.trans (hh.locked pid xs (hpending ▸ hxs) hlocked)
  · rw [hclaimed] at hsome
    cases hsome
  · rw [hnext] at hsaving
    split at hsaving <;> cases hsaving
  · rw [hnext] at hopen ⊢
    split at hopen
    next hok =>
      rw [if_pos hok]
      have hmember := horder.2
      rw [if_pos hleaves] at hmember
      rcases hw with ⟨-, hfailed⟩ | rfl
      · rw [hok] at hfailed
        cases hfailed
      · exact hbefore.gap hh.numbered.nodup hmember.1
    next => cases hopen
  · by_cases hleaves : Leaves h pid
    · have hfailed : ¬ Except.isOk r = true := fun hok => hnot ⟨hleaves, by rw [hnext, if_pos hok]; rfl⟩
      have hsame := horder.2
      rw [if_pos hleaves] at hsame
      exact hbefore.of_members (hsame.2.resolve_left hfailed)
    · have hlast := horder.2
      rw [if_neg hleaves] at hlast
      rcases hw with ⟨rfl, -⟩ | rfl
      · exact hbefore
      · exact hbefore.removeLast hh.numbered.nodup hlast

/-- A save of the renumbering. -/
theorem effect_saveMember (hh : Ordered missing h) {member : Member} {writes : List Write}
    (hsaving : progress (log pid h.trace) = .saving (.saveMember member :: writes))
    {r : Except Exc Unit}
    (hexec : exec missing (.db (.write (.saveMember member))) pid choice h.world = some (r, w)) :
    Effect missing h pid (.db (.write (.saveMember member))) r w := by
  have hleaves := hh.saves pid _ hsaving
  have hbefore : OpenDeparture h pid := ⟨hleaves, by rw [hsaving]; rfl⟩
  have hunclaimed : claimed (log pid h.trace) = none := hh.apart pid (by rw [hsaving]; simp)
  have hclaimed : claimed (⟨.db (.write (.saveMember member)), r⟩ :: log pid h.trace) = none :=
    hunclaimed
  have hnext : progress (⟨.db (.write (.saveMember member)), r⟩ :: log pid h.trace) =
      Progress.advance ⟨.db (.write (.saveMember member)), r⟩
        (.saving (.saveMember member :: writes)) := by
    rw [← hsaving]
    rfl
  have hisOpen : (progress (⟨.db (.write (.saveMember member)), r⟩ :: log pid h.trace)).isOpen =
      true := by
    rw [hnext]
    cases r <;> rfl
  have hleft := hh.departure pid hbefore
  rw [hsaving] at hleft
  obtain ⟨hconsecutive, hpresent⟩ := hleft
  have hmember : member.id ∈ h.world.tables.ids := by
    obtain ⟨member', heq, hin⟩ := hpresent _ List.mem_cons_self
    cases heq
    exact hin
  have hconflict : h.world.tables.conflict missing (.saveMember member) = none :=
    if_neg fun hnot => hnot.1 hmember
  have hw : w = h.world ∧ Except.isOk r = false ∨
      w = { h.world with tables := h.world.tables.commit missing [.saveMember member] } := by
    rcases exec_db hexec with ⟨rfl, e, rfl⟩ | ⟨-, rfl, -⟩
    · exact .inl ⟨rfl, rfl⟩
    · exact .inr (execute_write hconflict)
  have hpending : w.pending = h.world.pending := by rcases hw with ⟨rfl, -⟩ | rfl <;> rfl
  have hholder : w.groupHolder = h.world.groupHolder := by rcases hw with ⟨rfl, -⟩ | rfl <;> rfl
  have hgroup : w.tables.group = h.world.tables.group := by rcases hw with ⟨rfl, -⟩ | rfl <;> rfl
  have hids : (h.world.tables.commit missing [.saveMember member]).ids = h.world.tables.ids :=
    ids_saveMember hmember
  refine ⟨fun g hg => hh.sequential g (hgroup ▸ hg), (hh.known pid).cons_other nofun nofun, ?_,
    fun p _ => .inr ⟨congrFun hpending p, fun hp => hholder.trans hp⟩, fun xs hxs => ?_,
    fun xs hxs hlocked => ?_, fun hsome => ?_, fun _ => hclaimed, fun _ _ => hleaves,
    .inr fun p hp hbusy => hp (hh.exclusive p pid hbusy (.inl hbefore)),
    fun _ => .inl (.inl hbefore), fun _ _ => ?_, fun hnot _ => absurd ⟨hleaves, hisOpen⟩ hnot⟩
  · rcases hw with ⟨rfl, -⟩ | rfl
    · exact hh.numbered
    · refine ⟨hids.symm ▸ hh.numbered.nodup, fun m hm => ?_⟩
      have hin : m.id ∈ h.world.tables.ids := hids ▸ List.mem_map_of_mem hm
      obtain ⟨m', hm', hid⟩ := List.mem_map.mp hin
      rw [← hid]
      exact hh.numbered.lt_issued m' hm'
  · have hsession := hh.session pid xs (hpending ▸ hxs)
    rw [hunclaimed] at hsession
    rw [hclaimed]
    exact hsession.of_unread
  · exact hholder.trans (hh.locked pid xs (hpending ▸ hxs) hlocked)
  · rw [hclaimed] at hsome
    cases hsome
  · rw [hnext]
    cases r with
    | error e => trivial
    | ok a =>
      rcases hw with ⟨-, hfailed⟩ | rfl
      · cases hfailed
      · have hsaved : (h.world.tables.commit missing [.saveMember member]).members =
            (h.world.tables.write missing (.saveMember member)).members := rfl
        have hview := members_view_congr missing hsaved fun x hx => by
          obtain ⟨m, hm, -⟩ := hpresent x (List.mem_cons_of_mem _ hx)
          exact ⟨m, hm⟩
        refine ⟨hconsecutive.of_members hview, fun x hx => ?_⟩
        · change ∃ m : Member, x = .saveMember m ∧
            m.id ∈ (h.world.tables.commit missing [.saveMember member]).ids
          rw [hids]
          exact hpresent x (List.mem_cons_of_mem _ hx)

/-- A save of the group by its activation. -/
theorem effect_saveGroup (hh : Ordered missing h) {group : GroupRow}
    (hloads : LoadsStrategy group.payoutOrderStrategy (log pid h.trace)) {r : Except Exc Unit}
    (hexec : exec missing (.db (.write (.saveGroup group))) pid choice h.world = some (r, w)) :
    Effect missing h pid (.db (.write (.saveGroup group))) r w := by
  have hsame : group.payoutOrderStrategy = .sequential := (hh.known pid).2 _ hloads
  have hw : w = h.world ∨
      w = { h.world with tables := h.world.tables.commit missing [.saveGroup group] } := by
    rcases exec_db hexec with ⟨rfl, -⟩ | ⟨-, rfl, -⟩
    · exact .inl rfl
    · exact .inr rfl
  refine .silent hh ⟨rfl, rfl, rfl⟩ ((hh.known pid).cons_other nofun nofun) (fun g hg => ?_) ?_ ?_
    fun p => .inr ?_
  · rcases hw with rfl | rfl
    · exact hh.sequential g hg
    · obtain rfl := Option.some.inj hg
      exact hsame
  · rcases hw with rfl | rfl <;> rfl
  · rcases hw with rfl | rfl <;> rfl
  · rcases hw with rfl | rfl <;> exact ⟨rfl, id⟩

/-- The notification at the end of a departure. -/
theorem effect_notify (hh : Ordered missing h) {n : Notification}
    (hsaving : progress (log pid h.trace) = .saving []) {r : Except Exc Unit}
    (hexec : exec missing (.notify n) pid choice h.world = some (r, w)) :
    Effect missing h pid (.notify n) r w := by
  obtain rfl := exec_external (o := .notify n) rfl hexec
  have hleaves := hh.saves pid _ hsaving
  have hbefore : OpenDeparture h pid := ⟨hleaves, by rw [hsaving]; rfl⟩
  have hunclaimed : claimed (log pid h.trace) = none := hh.apart pid (by rw [hsaving]; simp)
  have hclaimed : claimed (⟨.notify n, r⟩ :: log pid h.trace) = none := hunclaimed
  have hnext : progress (⟨.notify n, r⟩ :: log pid h.trace) = .done := rfl
  have hleft := hh.departure pid hbefore
  rw [hsaving] at hleft
  refine ⟨hh.sequential, (hh.known pid).cons_other nofun nofun, hh.numbered,
    fun p _ => .inr ⟨rfl, id⟩, fun xs hxs => hh.session pid xs hxs,
    fun xs hxs hlocked => hh.locked pid xs hxs hlocked, fun hsome => ?_, fun _ => hclaimed,
    fun writes hw => ?_, .inl rfl, fun _ => .inl (.inl hbefore), fun _ hopen => ?_,
    fun _ _ => hleft.1⟩
  · rw [hclaimed] at hsome
    cases hsome
  · rw [hnext] at hw
    cases hw
  · rw [hnext] at hopen
    cases hopen

/-! ### Transactions -/

theorem effect_startTransaction (hh : Ordered missing h) (hfirst : log pid h.trace = [])
    {r : Except Exc Unit} (hexec : exec missing .startTransaction pid choice h.world = some (r, w)) :
    Effect missing h pid .startTransaction r w := by
  have hknown : Known (⟨.startTransaction, r⟩ :: log pid h.trace) :=
    (hh.known pid).cons_other nofun nofun
  rcases exec_startTransaction hexec with ⟨rfl, -⟩ | ⟨-, rfl⟩
  · exact .rest hh ⟨rfl, rfl, rfl⟩ hknown (.inl rfl)
  have hclaimed : claimed (⟨.startTransaction, r⟩ :: log pid h.trace) = none := by
    rw [hfirst]
    rfl
  have hunlocked : hasLocked (⟨.startTransaction, r⟩ :: log pid h.trace) = false := by
    rw [hfirst]
    rfl
  refine .within hh rfl hknown hh.sequential rfl hh.numbered
    (fun p hp => .inr ⟨Function.update_of_ne hp _ _, id⟩) (fun xs hxs => ?_)
    (fun xs _ hlocked => ?_) (fun hsome => ?_) (fun _ => hclaimed) fun _ hsome => ?_
  · rw [pending_hold] at hxs
    obtain rfl := Option.some.inj hxs
    rw [hclaimed]
    exact ⟨fun x hx => absurd hx List.not_mem_nil, fun _ => rfl, fun _ hnext => by cases hnext⟩
  · rw [hunlocked] at hlocked
    cases hlocked
  · rw [hclaimed] at hsome
    cases hsome
  · rw [hclaimed] at hsome
    cases hsome

/-- The lock is granted while nobody else holds it. -/
theorem effect_lockGroup (hh : Ordered missing h) {r : Except Exc (Option GroupRow)}
    (hexec : exec missing .lockGroup pid choice h.world = some (r, w)) :
    Effect missing h pid .lockGroup r w := by
  rcases exec_lockGroup hexec with ⟨rfl, e, rfl⟩ | ⟨ys, hys, hheld, rfl, rfl⟩
  · have hknown : Known (⟨.lockGroup, .error e⟩ :: log pid h.trace) :=
      (hh.known pid).cons (fun _ heq => by cases heq) fun _ _ heq => by cases heq
    exact .rest hh ⟨rfl, rfl, rfl⟩ hknown (.inl rfl)
  have hknown : Known (⟨.lockGroup, .ok h.world.tables.group⟩ :: log pid h.trace) := by
    refine (hh.known pid).cons (fun group heq => hh.sequential group ?_) fun _ _ heq => by cases heq
    exact Except.ok.inj (eq_of_heq (Sigma.mk.inj heq).2)
  have hlocks : ∀ L : Log Op.Ret, hasLocked (⟨.lockGroup, .ok h.world.tables.group⟩ :: L) =
      (h.world.tables.group.isSome || hasLocked L) := by
    intro L
    cases h.world.tables.group <;> rfl
  refine .within hh rfl hknown hh.sequential rfl hh.numbered
    (fun p hp => .inr ⟨rfl, fun hholder => ?_⟩) (fun xs hxs => hh.session pid xs hxs)
    (fun xs hxs hlocked => ?_) (fun hsome => ?_) (fun hne => hh.apart pid hne)
    fun hsome hclaimed => .inl ⟨hsome, hclaimed⟩
  · rw [World.groupHeld, hholder] at hheld
    exact absurd hheld (by simpa using hp)
  · rw [hlocks] at hlocked
    change (if h.world.tables.group.isSome then some pid else h.world.groupHolder) = some pid
    by_cases hgroup : h.world.tables.group.isSome = true
    · rw [if_pos hgroup]
    · rw [if_neg hgroup]
      exact hh.locked pid xs hxs ((Bool.or_eq_true_iff.mp hlocked).resolve_left hgroup)
  · rw [hlocks, hh.reads pid hsome, Bool.or_true]

theorem effect_lockWaiting (hh : Ordered missing h) {limit : ℕ}
    {r : Except Exc (List WaitlistEntry)}
    (hexec : exec missing (.lockWaiting limit) pid choice h.world = some (r, w)) :
    Effect missing h pid (.lockWaiting limit) r w := by
  have hknown : Known (⟨.lockWaiting limit, r⟩ :: log pid h.trace) :=
    (hh.known pid).cons_other nofun nofun
  rcases exec_lockWaiting hexec with ⟨rfl, -⟩ | ⟨-, -, -, -, rfl⟩
  · exact .rest hh ⟨rfl, rfl, rfl⟩ hknown (.inl rfl)
  · exact .silent hh ⟨rfl, rfl, rfl⟩ hknown hh.sequential rfl rfl fun _ => .inr ⟨rfl, id⟩

/-- A query inside the transaction, which now holds back these writes. -/
theorem Effect.held (hh : Ordered missing h) {xs ys : List Write}
    (hxs : h.world.pending pid = some xs)
    (hprogress : progress (⟨o, r⟩ :: log pid h.trace) = progress (log pid h.trace))
    (hlocks : hasLocked (⟨o, r⟩ :: log pid h.trace) = hasLocked (log pid h.trace))
    (hknown : Known (⟨o, r⟩ :: log pid h.trace))
    (hsession : Session h.world.tables.members.length (claimed (⟨o, r⟩ :: log pid h.trace)) ys)
    (hreads : (claimed (⟨o, r⟩ :: log pid h.trace)).isSome = true →
      hasLocked (log pid h.trace) = true)
    (hapart : progress (log pid h.trace) ≠ .idle → claimed (⟨o, r⟩ :: log pid h.trace) = none)
    (hread : (claimed (⟨o, r⟩ :: log pid h.trace)).isSome = true →
      HasRead h pid ∨ ∀ p, p ≠ pid → ¬ Busy h p) :
    Effect missing h pid o r (h.world.hold pid ys) := by
  refine .within hh hprogress hknown hh.sequential rfl hh.numbered
    (fun p hp => .inr ⟨Function.update_of_ne hp _ _, id⟩) (fun zs hzs => ?_)
    (fun _ _ hlocked => hh.locked pid xs hxs (hlocks ▸ hlocked)) (fun hsome => hlocks ▸ hreads hsome)
    hapart fun _ hclaimed => hread hclaimed
  rw [pending_hold] at hzs
  exact Option.some.inj hzs ▸ hsession

/-- A query inside the transaction that says nothing. -/
theorem Effect.heldSilent (hh : Ordered missing h) {xs ys : List Write}
    (hxs : h.world.pending pid = some xs) (hsilent : Silent (log pid h.trace) ⟨o, r⟩)
    (hknown : Known (⟨o, r⟩ :: log pid h.trace))
    (hsession : Session h.world.tables.members.length (claimed (log pid h.trace)) ys) :
    Effect missing h pid o r (h.world.hold pid ys) := by
  refine .held hh hxs hsilent.progress hsilent.hasLocked hknown (hsilent.claimed ▸ hsession)
    (fun hsome => hh.reads pid (hsilent.claimed ▸ hsome)) (fun hne => ?_) fun hsome => .inl ?_
  · rw [hsilent.claimed]
    exact hh.apart pid hne
  · exact ⟨by rw [hxs]; rfl, hsilent.claimed ▸ hsome⟩

/-- Reading inside the transaction, except for the greatest order. -/
theorem effect_tx_read (hh : Ordered missing h) {q : Query} (hq : q.isRead = true)
    (hne : q ≠ .maxPayoutOrder) {r : Except Exc q.Ret}
    (hexec : exec missing (.tx q) pid choice h.world = some (r, w)) :
    Effect missing h pid (.tx q) r w := by
  have hknown : Known (⟨.tx q, r⟩ :: log pid h.trace) := (hh.known pid).cons_other nofun nofun
  have hsilent : Silent (log pid h.trace) ⟨.tx q, r⟩ := by
    cases q with
    | maxPayoutOrder => exact absurd rfl hne
    | write x => cases hq
    | _ => exact ⟨rfl, rfl, rfl⟩
  rcases exec_tx hexec with ⟨rfl, -⟩ | ⟨xs, hxs, -, rfl⟩
  · exact .rest hh hsilent hknown (.inl rfl)
  · rw [writes_of_isRead hq, Option.toList_none, List.append_nil]
    exact .heldSilent hh hxs hsilent hknown (hh.session pid xs hxs)

/-- The greatest order is read while nobody else relies on the orders. -/
theorem effect_maxPayoutOrder (hh : Ordered missing h)
    (hlocked : hasLocked (log pid h.trace) = true) (hunclaimed : claimed (log pid h.trace) = none)
    (hidle : progress (log pid h.trace) = .idle) (hnone : ∀ p, ¬ OpenDeparture h p)
    {r : Except Exc (Option ℤ)}
    (hexec : exec missing (.tx .maxPayoutOrder) pid choice h.world = some (r, w)) :
    Effect missing h pid (.tx .maxPayoutOrder) r w := by
  have hknown : Known (⟨.tx .maxPayoutOrder, r⟩ :: log pid h.trace) :=
    (hh.known pid).cons_other nofun nofun
  rcases exec_tx hexec with ⟨rfl, e, rfl⟩ | ⟨xs, hxs, rfl, rfl⟩
  · exact .rest hh ⟨rfl, rfl, rfl⟩ hknown (.inl rfl)
  have hsession := hh.session pid xs hxs
  have hnothing := hsession.unread hunclaimed
  obtain ⟨new, hnew, -, horders⟩ := members_view missing h.world.tables hsession.takesIn
  rw [hnothing] at horders
  rw [List.map_eq_nil_iff.mp horders, List.append_nil] at hnew
  have hnext : nextPayoutOrder
      ((h.world.tables.view missing xs).members.filterMap (·.payoutOrder)).max? =
        h.world.tables.members.length := by
    rw [hnew]
    exact (hh.filled hnone).nextPayoutOrder
  have hclaimed : ∀ L : Log Op.Ret, claimed (⟨.tx .maxPayoutOrder,
      Query.maxPayoutOrder.read missing (h.world.tables.view missing xs)⟩ :: L) =
        some (h.world.tables.members.length : ℤ) := fun _ => congrArg some hnext
  rw [show Query.maxPayoutOrder.writes missing (h.world.tables.view missing xs) = none from rfl,
    Option.toList_none, List.append_nil]
  refine .held hh hxs rfl rfl hknown ?_ (fun _ => hlocked) (fun hne => absurd hidle hne)
    fun _ => .inr fun p hp hbusy => ?_
  · rw [hclaimed]
    refine ⟨hsession.takesIn, fun heq => ?_, fun next heq => ⟨0, ?_, hnothing⟩⟩
    · cases heq
    · rw [← Option.some.inj heq, Nat.cast_zero, add_zero]
  · -- whoever has read the greatest order holds the lock
    rcases hbusy with hopen | ⟨hpending, hread⟩
    · exact hnone p hopen
    · obtain ⟨ys, hys⟩ := Option.isSome_iff_exists.mp hpending
      have hother := hh.locked p ys hys (hh.reads p hread)
      have hself := hh.locked pid xs hxs hlocked
      exact hp (Option.some.inj (hother.symm.trans hself))

/-- An insertion at the order that the transaction takes next. -/
theorem Session.insertMember {n : ℕ} {k : ℤ} {xs : List Write} (hs : Session n (some k) xs)
    {member : Member} (hmember : member.payoutOrder = some k) :
    Session n (some (k + 1)) (xs ++ [.insertMember member]) where
  takesIn x hx := by
    rcases List.mem_append.mp hx with hx | hx
    · exact hs.takesIn x hx
    · rw [List.mem_singleton.mp hx]
      rfl
  unread hnone := by cases hnone
  read next hnext := by
    obtain ⟨j, rfl, horders⟩ := hs.read k rfl
    refine ⟨j + 1, ?_, ?_⟩
    · rw [← Option.some.inj hnext]
      push_cast
      omega
    · rw [List.filterMap_append, horders, List.range_succ, List.map_append, List.map_singleton]
      exact congrArg (_ ++ [·]) hmember

theorem effect_insertMember (hh : Ordered missing h) {member : Member} {k : ℤ}
    (hclaimed : claimed (log pid h.trace) = some k) (hmember : member.payoutOrder = some k)
    {r : Except Exc Unit}
    (hexec : exec missing (.tx (.write (.insertMember member))) pid choice h.world = some (r, w)) :
    Effect missing h pid (.tx (.write (.insertMember member))) r w := by
  have hknown : Known (⟨.tx (.write (.insertMember member)), r⟩ :: log pid h.trace) :=
    (hh.known pid).cons_other nofun nofun
  rcases exec_tx hexec with ⟨rfl, e, rfl⟩ | ⟨xs, hxs, rfl, rfl⟩
  · exact .rest hh ⟨rfl, rfl, rfl⟩ hknown (.inl rfl)
  have hsession := hh.session pid xs hxs
  cases hconflict : (h.world.tables.view missing xs).conflict missing (.insertMember member) with
  | some constraint =>
    have hread : (Query.write (.insertMember member)).read missing (h.world.tables.view missing xs) =
        .error (.uniqueViolation constraint) := by
      simp only [Query.read, hconflict]
    have hwrites : (Query.write (.insertMember member)).writes missing
        (h.world.tables.view missing xs) = none := by
      simp only [Query.writes, hconflict, Option.isNone_some, Bool.false_eq_true, if_false]
    rw [hread] at hknown ⊢
    rw [hwrites, Option.toList_none, List.append_nil]
    exact .heldSilent hh hxs ⟨rfl, rfl, rfl⟩ hknown hsession
  | none =>
    have hread : (Query.write (.insertMember member)).read missing (h.world.tables.view missing xs) =
        .ok () := by
      simp only [Query.read, hconflict]
    have hwrites : (Query.write (.insertMember member)).writes missing
        (h.world.tables.view missing xs) = some (.insertMember member) := by
      simp only [Query.writes, hconflict, Option.isNone_none, if_true]
    rw [hread] at hknown ⊢
    rw [hwrites, Option.toList_some]
    have hnext : claimed ((⟨.tx (.write (.insertMember member)), .ok ()⟩ : Entry Op.Ret) ::
        log pid h.trace) = some (k + 1) := by
      change (claimed (log pid h.trace)).map (· + 1) = _
      rw [hclaimed]
      rfl
    have hsome : (claimed (log pid h.trace)).isSome = true := by
      rw [hclaimed]
      rfl
    refine .held hh hxs rfl rfl hknown ?_ (fun _ => hh.reads pid hsome) (fun hne => ?_)
      fun _ => .inl ⟨by rw [hxs]; rfl, hsome⟩
    · rw [hclaimed] at hsession
      rw [hnext]
      exact hsession.insertMember hmember
    · have hunclaimed := hh.apart pid hne
      rw [hclaimed] at hunclaimed
      cases hunclaimed

/-- An update of the waitlist. -/
theorem Session.saveEntry {n : ℕ} {k : Option ℤ} {xs : List Write} (hs : Session n k xs)
    (entry : WaitlistEntry) : Session n k (xs ++ [.saveEntry entry]) := by
  have hsame : (xs ++ [Write.saveEntry entry]).filterMap Write.insertedOrder =
      xs.filterMap Write.insertedOrder := by
    rw [List.filterMap_append]
    exact List.append_nil _
  refine ⟨fun x hx => ?_, fun hnone => hsame.trans (hs.unread hnone), fun next hnext => ?_⟩
  · rcases List.mem_append.mp hx with hx | hx
    · exact hs.takesIn x hx
    · rw [List.mem_singleton.mp hx]
      rfl
  · rw [hsame]
    exact hs.read next hnext

theorem effect_saveEntry (hh : Ordered missing h) {entry : WaitlistEntry} {r : Except Exc Unit}
    (hexec : exec missing (.tx (.write (.saveEntry entry))) pid choice h.world = some (r, w)) :
    Effect missing h pid (.tx (.write (.saveEntry entry))) r w := by
  have hknown : Known (⟨.tx (.write (.saveEntry entry)), r⟩ :: log pid h.trace) :=
    (hh.known pid).cons_other nofun nofun
  rcases exec_tx hexec with ⟨rfl, -⟩ | ⟨xs, hxs, -, rfl⟩
  · exact .rest hh ⟨rfl, rfl, rfl⟩ hknown (.inl rfl)
  · exact .heldSilent hh hxs ⟨rfl, rfl, rfl⟩ hknown ((hh.session pid xs hxs).saveEntry entry)

/-- New members have new keys. -/
theorem Numbered.view {d : Tables} (hd : Numbered d) {xs : List Write}
    (hxs : ∀ x ∈ xs, x.takesIn = true) : Numbered (d.view missing xs) := by
  induction xs generalizing d with
  | nil => exact hd
  | cons x xs ih =>
    refine ih ?_ fun y hy => hxs y (List.mem_cons_of_mem _ hy)
    have hx := hxs x List.mem_cons_self
    cases x with
    | insertMember member =>
      refine ⟨?_, fun m hm => ?_⟩
      · change ((d.members ++ [_]).map _).Nodup
        rw [List.map_append, List.map_singleton, List.nodup_append]
        refine ⟨hd.nodup, List.nodup_singleton _, fun id hid id' hid' heq => ?_⟩
        obtain ⟨m, hm, rfl⟩ := List.mem_map.mp hid
        rw [List.mem_singleton.mp hid'] at heq
        exact absurd heq (Nat.ne_of_lt (hd.lt_issued m hm))
      · change m.id < (d.issued ++ [_]).length
        rw [List.length_append, List.length_singleton]
        rcases List.mem_append.mp hm with hm | hm
        · exact Nat.lt_succ_of_lt (hd.lt_issued m hm)
        · rw [List.mem_singleton.mp hm]
          exact Nat.lt_succ_self _
    | saveEntry entry => exact ⟨hd.nodup, hd.lt_issued⟩
    | _ => cases hx

/-- **A commit** continues the orders behind the last place. -/
theorem effect_commitTransaction (hh : Ordered missing h) {r : Except Exc Unit}
    (hexec : exec missing .commitTransaction pid choice h.world = some (r, w)) :
    Effect missing h pid .commitTransaction r w := by
  have hknown : Known (⟨.commitTransaction, r⟩ :: log pid h.trace) :=
    (hh.known pid).cons_other nofun nofun
  rcases exec_commitTransaction hexec with ⟨rfl, -⟩ | ⟨xs, hxs, rfl, -⟩
  · exact .rest hh ⟨rfl, rfl, rfl⟩ hknown (.inr ⟨pid, rfl⟩)
  have hsession := hh.session pid xs hxs
  have hended : (h.world.commit missing pid xs).pending pid = none := Function.update_self ..
  have hgroup : ∀ g, (h.world.commit missing pid xs).tables.group = some g →
      g.payoutOrderStrategy = .sequential := fun g hg =>
    hh.sequential g ((group_view hsession.takesIn).symm.trans hg)
  have hnumbered : Numbered (h.world.commit missing pid xs).tables := by
    have hview : Numbered (h.world.tables.view missing xs) := hh.numbered.view hsession.takesIn
    exact ⟨hview.nodup, hview.lt_issued⟩
  have hothers : ∀ p, p ≠ pid → (h.world.commit missing pid xs).pending p = none ∨
      ((h.world.commit missing pid xs).pending p = h.world.pending p ∧
        (h.world.groupHolder = some p → (h.world.commit missing pid xs).groupHolder = some p)) := by
    refine fun p hp => .inr ⟨Function.update_of_ne hp _ _, fun hheld => ?_⟩
    change (if h.world.groupHolder = some pid then none else h.world.groupHolder) = some p
    rw [hheld, if_neg fun heq => hp (Option.some.inj heq)]
  have hover : ∀ ys, (h.world.commit missing pid xs).pending pid ≠ some ys := by
    intro ys hys
    rw [hended] at hys
    cases hys
  cases hclaimed : claimed (log pid h.trace) with
  | none =>
    obtain ⟨new, hnew, -, horders⟩ := members_view missing h.world.tables hsession.takesIn
    rw [hsession.unread hclaimed] at horders
    rw [List.map_eq_nil_iff.mp horders, List.append_nil] at hnew
    refine .within hh rfl hknown hgroup hnew hnumbered hothers (fun ys hys => absurd hys (hover ys))
      (fun ys hys => absurd hys (hover ys)) (hh.reads pid) (hh.apart pid) fun hsome _ => ?_
    rw [hended] at hsome
    cases hsome
  | some k =>
    have hsome : (claimed (log pid h.trace)).isSome = true := by
      rw [hclaimed]
      rfl
    have hidle : progress (log pid h.trace) = .idle := by
      by_contra hne
      rw [hh.apart pid hne] at hclaimed
      cases hclaimed
    have hnext : progress (⟨.commitTransaction, r⟩ :: log pid h.trace) = .idle := hidle
    have hbusy : Busy h pid := .inr ⟨by rw [hxs]; rfl, hsome⟩
    have hfree : ∀ p, p ≠ pid → ¬ Busy h p := fun p hp hother =>
      hp (hh.exclusive p pid hother hbusy)
    refine ⟨hgroup, hknown, hnumbered, hothers, fun ys hys => absurd hys (hover ys),
      fun ys hys => absurd hys (hover ys), hh.reads pid, hh.apart pid, hh.saves pid, .inr hfree,
      fun _ => .inl hbusy, fun _ hopen => ?_, fun _ hopen => ?_⟩
    · rw [hnext] at hopen
      cases hopen
    · have hbefore : Consecutive h.world.tables := by
        refine hh.filled fun p hother => ?_
        by_cases hp : p = pid
        · have hstuck := hother.2
          rw [hp, hidle] at hstuck
          cases hstuck
        · exact hopen p hp hother
      obtain ⟨j, -, horders⟩ := hsession.read k hclaimed
      exact hbefore.takeIn hsession.takesIn horders

/-- **What an operation in order does**, if its call follows the discipline. -/
theorem effect_of_numbers (hh : Ordered missing h) {leaves : Bool}
    (hleaves : leaves = true → Leaves h pid) (hD : Numbers leaves (log pid h.trace) o)
    (hok : InOrder h (h.push (.did pid o r h.world) w))
    (hexec : exec missing o pid choice h.world = some (r, w)) : Effect missing h pid o r w := by
  have hread : ∀ q : Query, q.isRead = true → q ≠ .findMembers → o = .db q →
      Effect missing h pid o r w := by
    rintro q hq hne rfl
    exact effect_read hh hq hne hexec
  have htx : ∀ q : Query, q.isRead = true → q ≠ .maxPayoutOrder → o = .tx q →
      Effect missing h pid o r w := by
    rintro q hq hne rfl
    exact effect_tx_read hh hq hne hexec
  cases o with
  | db q =>
    cases q with
    | findMembers =>
      obtain ⟨hleft, member, hprogress⟩ := hD
      exact effect_findMembers hh (hleaves hleft) hprogress hexec
    | write x =>
      cases x with
      | removeMember member => exact effect_removeMember hh hD.1 hD.2 hok hexec
      | saveMember member =>
        rcases hD with ⟨writes, hsaving⟩ | ⟨strategy, hother, hloads⟩
        · exact effect_saveMember hh hsaving hexec
        · exact absurd ((hh.known pid).2 strategy hloads) hother
      | saveGroup group => exact effect_saveGroup hh hD hexec
      | _ => exact hD.elim
    | findGroup => exact hread .findGroup rfl nofun rfl
    | findGroupWithMembers => exact hread .findGroupWithMembers rfl nofun rfl
    | countMembers => exact hread .countMembers rfl nofun rfl
    | findMember userId => exact hread (.findMember userId) rfl nofun rfl
    | maxPayoutOrder => exact hread .maxPayoutOrder rfl nofun rfl
    | findWaiting userId => exact hread (.findWaiting userId) rfl nofun rfl
    | countWaiting => exact hread .countWaiting rfl nofun rfl
  | startTransaction => exact effect_startTransaction hh hD hexec
  | lockGroup => exact effect_lockGroup hh hexec
  | lockWaiting limit => exact effect_lockWaiting hh hexec
  | tx q =>
    cases q with
    | maxPayoutOrder =>
      refine effect_maxPayoutOrder hh hD.1 hD.2.1 hD.2.2 (fun p hopen => ?_) hexec
      obtain ⟨e, he, rfl⟩ := Busy.exists_event (.inl hopen)
      exact hok e he hopen
    | write x =>
      cases x with
      | insertMember member =>
        rcases hD with ⟨k, hclaimed, hmember⟩ | hother
        · exact effect_insertMember hh hclaimed hmember hexec
        · exact absurd hother (hh.known pid).1
      | saveEntry entry => exact effect_saveEntry hh hexec
      | _ => exact hD.elim
    | findGroup => exact htx .findGroup rfl nofun rfl
    | findGroupWithMembers => exact htx .findGroupWithMembers rfl nofun rfl
    | countMembers => exact htx .countMembers rfl nofun rfl
    | findMember userId => exact htx (.findMember userId) rfl nofun rfl
    | findMembers => exact htx .findMembers rfl nofun rfl
    | findWaiting userId => exact htx (.findWaiting userId) rfl nofun rfl
    | countWaiting => exact htx .countWaiting rfl nofun rfl
  | commitTransaction => exact effect_commitTransaction hh hexec
  | rollbackTransaction =>
    have hknown : Known (⟨.rollbackTransaction, r⟩ :: log pid h.trace) :=
      (hh.known pid).cons_other nofun nofun
    refine .rest hh ⟨rfl, rfl, rfl⟩ hknown ?_
    exact (exec_rollbackTransaction hexec).imp_right fun hw => ⟨pid, hw⟩
  | notify n => exact effect_notify hh hD hexec
  | deployRoscaContract group =>
    have hknown : Known (⟨.deployRoscaContract group, r⟩ :: log pid h.trace) :=
      (hh.known pid).cons_other nofun nofun
    exact .rest hh ⟨rfl, rfl, rfl⟩ hknown (.inl (exec_external (o := .deployRoscaContract group) rfl hexec))
  | dispatchEvent event =>
    have hknown : Known (⟨.dispatchEvent event, r⟩ :: log pid h.trace) :=
      (hh.known pid).cons_other nofun nofun
    exact .rest hh ⟨rfl, rfl, rfl⟩ hknown (.inl (exec_external (o := .dispatchEvent event) rfl hexec))
  | dropSession p =>
    have hknown : Known (⟨.dropSession p, r⟩ :: log pid h.trace) :=
      (hh.known pid).cons_other nofun nofun
    exact .rest hh ⟨rfl, rfl, rfl⟩ hknown (.inr ⟨p, exec_dropSession hexec⟩)

end Operation

/-! ### Runs -/

section Runs

variable {missing : OnMissing} {maxWaitlist : ℤ} {h : MembersHist}

/-- A departure has been started before it has done anything. -/
theorem openDeparture_of_idle {D : Call → Log Op.Ret → Op → Prop}
    {Q : Call → Except Exc Reply → Log Op.Ret → Prop} {e : Event Op.Ret World Call (Except Exc Reply)}
    (he : ∀ pid es, log pid (e :: es) = log pid es) (hd : Disciplined D Q h)
    (hd' : Disciplined D Q (h.push e h.world)) {p : ℕ}
    (hopen : OpenDeparture (h.push e h.world) p) : OpenDeparture h p := by
  obtain ⟨⟨e', he', hstart⟩, hprogress⟩ := hopen
  rw [Hist.push_trace, he] at hprogress
  refine ⟨?_, hprogress⟩
  rcases List.mem_cons.mp he' with rfl | he'
  · -- the call has been started twice
    obtain ⟨e₁, he₁, hpid⟩ : ∃ e ∈ h.trace, e.pid = p := exists_event_of_log fun hnil => by
      rw [hnil] at hprogress
      cases hprogress
    obtain ⟨c, hc⟩ := hd.start_mem e₁ he₁
    rw [hpid] at hc
    cases e' with
    | start q c' =>
      cases c' with
      | leaveGroup userId =>
        obtain rfl : q = p := of_decide_eq_true hstart
        obtain rfl := hd'.start_unique q c (.leaveGroup userId) (List.mem_cons_of_mem _ hc)
          List.mem_cons_self
        exact ⟨_, hc, hstart⟩
      | _ => cases hstart
    | _ => cases hstart
  · exact ⟨e', he', hstart⟩

theorem Leaves.push {p : ℕ} (hleaves : Leaves h p) (e : Event Op.Ret World Call (Except Exc Reply))
    (w : World) : Leaves (h.push e w) p := by
  obtain ⟨e', he', hstart⟩ := hleaves
  exact ⟨e', List.mem_cons_of_mem _ he', hstart⟩

/-- An event that performs nothing. -/
theorem Ordered.idle {D : Call → Log Op.Ret → Op → Prop}
    {Q : Call → Except Exc Reply → Log Op.Ret → Prop} (hh : Ordered missing h)
    {e : Event Op.Ret World Call (Except Exc Reply)}
    (he : ∀ pid es, log pid (e :: es) = log pid es) (hd : Disciplined D Q h)
    (hd' : Disciplined D Q (h.push e h.world)) (hok : InOrder h (h.push e h.world)) :
    Ordered missing (h.push e h.world) := by
  have hopen : ∀ {p}, OpenDeparture (h.push e h.world) p → OpenDeparture h p :=
    fun hopen => openDeparture_of_idle he hd hd' hopen
  have hbusy : ∀ {p}, Busy (h.push e h.world) p → Busy h p := by
    rintro p (hopenp | ⟨hsome, hclaimed⟩)
    · exact .inl (hopen hopenp)
    · rw [Hist.push_trace, he] at hclaimed
      exact .inr ⟨hsome, hclaimed⟩
  constructor
  case calls =>
    intro pid c hstart
    rcases List.mem_cons.mp hstart with rfl | hstart
    · exact hok
    · exact hh.calls pid c hstart
  case sequential => exact hh.sequential
  case numbered => exact hh.numbered
  case exclusive => exact fun p q hp hq => hh.exclusive p q (hbusy hp) (hbusy hq)
  case filled =>
    refine fun hnone => hh.filled fun p hopenp => hnone p ?_
    refine ⟨hopenp.1.push e _, ?_⟩
    rw [Hist.push_trace, he]
    exact hopenp.2
  case alive =>
    intro p hopenp e' he' hend
    rcases List.mem_cons.mp he' with rfl | he'
    · rintro rfl
      cases e' with
      | returned pid a => exact hok (hopen hopenp)
      | crashed pid => exact hok (hopen hopenp)
      | _ => cases hend
    · exact hh.alive p (hopen hopenp) e' he' hend
  all_goals simp only [Hist.push_trace, Hist.push_world, he]
  case known => exact hh.known
  case session => exact hh.session
  case locked => exact hh.locked
  case reads => exact hh.reads
  case apart => exact hh.apart
  case saves => exact fun pid writes hsaving => (hh.saves pid writes hsaving).push e _
  case departure => exact fun pid hopenp => hh.departure pid (hopen hopenp)

theorem ordered_started {d : Tables} (hd : Consecutive d) (hnumbered : Numbered d)
    (hsequential : ∀ g, d.group = some g → g.payoutOrderStrategy = .sequential) :
    Ordered missing (⟨started d, []⟩ : MembersHist) where
  calls pid c hstart := absurd hstart List.not_mem_nil
  sequential := hsequential
  known pid := ⟨fun ⟨_, hmem, _⟩ => absurd hmem List.not_mem_nil,
    fun _ ⟨_, _, hmem, _⟩ => absurd hmem List.not_mem_nil⟩
  numbered := hnumbered
  session pid xs hxs := by cases hxs
  locked pid xs hxs := by cases hxs
  reads pid hsome := by cases hsome
  apart pid hne := absurd rfl hne
  saves pid writes hsaving := by cases hsaving
  exclusive p q hp _ := by
    obtain ⟨e, he, -⟩ := hp.exists_event
    exact absurd he List.not_mem_nil
  departure pid hopen := by
    obtain ⟨e, he, -⟩ := hopen.1
    exact absurd he List.not_mem_nil
  filled _ := hd
  alive pid hopen e he := absurd he List.not_mem_nil

theorem leaves_of_start {pid : ℕ} {c : Call} (hstart : .start pid c ∈ h.trace)
    (hc : c.leaves = true) : Leaves h pid := by
  cases c with
  | leaveGroup userId => exact ⟨_, hstart, decide_eq_true rfl⟩
  | _ => cases hc

/-- **In every run in order the invariant holds.** -/
theorem ordered_of_inOrder {d : Tables} (hd : Consecutive d) (hnumbered : Numbered d)
    (hsequential : ∀ g, d.group = some g → g.payoutOrderStrategy = .sequential) {s : MembersState}
    (hs : (system missing maxWaitlist).ReachableWhen InOrder (.init (started d)) s) :
    Ordered missing s.hist := by
  refine hist_invariant (follows_numbersIf missing maxWaitlist)
    (ordered_started hd hnumbered hsequential) (fun h h' hdisc hdisc' hh hstep hok => ?_) hs
  cases hstep with
  | idle e he hlive => exact hh.idle he hdisc hdisc' hok
  | did pid c o choice r w hstart hD hexec hlive =>
    refine hh.did (effect_of_numbers hh (fun hc => leaves_of_start hstart hc)
      (hD (hh.calls pid c hstart)) hok hexec) hlive

/-- When no call is in flight, no departure is open. -/
theorem Ordered.not_open_of_quiet {s : MembersState} (hh : Ordered missing s.hist)
    (hl : System.Lifecycle s) (hquiet : s.Quiet) (pid : ℕ) : ¬ OpenDeparture s.hist pid := by
  intro hopen
  obtain ⟨e, he, hpid⟩ := Busy.exists_event (.inl hopen)
  have hlt : pid < s.started := hpid ▸ hl.lt_started e he
  obtain ⟨e', he', hend, hpid'⟩ := hl.ended pid hlt (hquiet pid)
  exact hh.alive pid hopen e' he' hend hpid'

/-- Consecutive orders give every round one recipient. -/
theorem Consecutive.oneRecipientEach {d : Tables} (hd : Consecutive d) : OneRecipientEach d where
  perm := hd
  recipient r hpos hle := hd.countP_eq_one (by omega) (by omega)

/-- **Every round has one recipient** in every run in order from a group with sequential orders that
are consecutive. -/
theorem recipientsUnique_of_inOrder (missing : OnMissing) (maxWaitlist : ℤ) {d : Tables}
    (hsequential : ∀ g, d.group = some g → g.payoutOrderStrategy = .sequential)
    (hnumbered : Numbered d) (hd : Consecutive d) {s : MembersState}
    (hs : (system missing maxWaitlist).ReachableWhen InOrder (.init (started d)) s) :
    RecipientsUnique s := by
  intro hquiet _
  have hh : Ordered missing s.hist := ordered_of_inOrder hd hnumbered hsequential hs
  obtain ⟨hl, -⟩ := System.ReachableWhen.rule (J := fun _ => True) trivial
    (fun _ _ _ _ _ _ _ => trivial) hs
  exact (hh.filled fun pid => hh.not_open_of_quiet hl hquiet pid).oneRecipientEach

end Runs

/-! ### A removal -/

namespace Sample

/-- A pending group with sequential orders that has no members yet. -/
def noMembers : Tables where
  group := some { id := 0, name := "group", adminWallet := "G0", minMembers := 1, maxMembers := 3 }

/-- Users 0 to 2 become members. -/
def additions : List (Move Choice Call) :=
  whole 0 7 (.addMember 0 "G0") ++ whole 1 7 (.addMember 1 "G1") ++ whole 2 7 (.addMember 2 "G2")

/-- An activation whose contract is deployed. -/
def activation (pid : ℕ) : List (Move Choice Call) :=
  .start (.activateGroup "G0" id) :: dones pid 2 ++ .run pid (.deployed "C") :: dones pid 2 ++
    [.finish pid]

end Sample

/-- One of three members leaves before the activation. -/
theorem recipientsUnique_sample : ∃ s : MembersState,
    s.hist.world.tables.users = [1, 2] ∧ RecipientsUnique s := by
  obtain ⟨s, hs, husers⟩ := System.exists_of_replay (system .inserts 50) InOrder
    (.init (started Sample.noMembers))
    (Sample.additions ++ Sample.whole 3 7 (.leaveGroup 0) ++ Sample.activation 4)
    (fun s => s.hist.world.tables.users == [1, 2]) (by decide +kernel)
  refine ⟨s, by simpa using husers, ?_⟩
  refine recipientsUnique_of_inOrder .inserts 50 (d := Sample.noMembers) ?_ ?_ ?_ hs
  · rintro g ⟨⟩
    rfl
  · exact ⟨by decide, by decide⟩
  · decide

/-- One of three members is removed before the activation: nobody is at the first place. -/
theorem not_recipientsUnique : ¬ ∀ s : MembersState,
    (system .inserts 50).ReachableWhen CallsThatNumber (.init (started Sample.noMembers)) s →
      RecipientsUnique s := by
  intro hall
  obtain ⟨s, hs, hp⟩ := System.exists_of_replay (system .inserts 50) CallsThatNumber
    (.init (started Sample.noMembers))
    (Sample.additions ++ Sample.whole 3 3 (.removeMember 0) ++ Sample.activation 4)
    (fun s => decide (AllEnded s.hist ∧ Activated s.hist ∧
      ¬ s.hist.world.tables.orders.Perm (places s.hist.world.tables.members.length)))
    (by decide +kernel)
  obtain ⟨hended, hactivated, hnot⟩ := of_decide_eq_true hp
  obtain ⟨hl, -⟩ := System.ReachableWhen.rule (J := fun _ => True) trivial
    (fun _ _ _ _ _ _ _ => trivial) hs
  exact hnot (hall s hs (hl.quiet hended) hactivated).perm

end Ahjoor.Members
