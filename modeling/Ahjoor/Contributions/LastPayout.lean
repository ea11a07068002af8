import Ahjoor.Async.Discipline
import Ahjoor.Contributions.Payments
import Ahjoor.Groups.Footprint
import Ahjoor.Groups.Steps

/-!
# The payout of the last round

`tryAdvanceRound` saves the group and then starts the payout of the round that is over. The payout
reads the group again and is refused unless it is `ACTIVE`; behind the last round the group has
been saved as `COMPLETED` by then.

The runs are those of any number of advances on one group, with the payment events between them. As
long as no step takes the group out of its last round, it stays `ACTIVE`, and every payout that is
started gets past this check.
-/

namespace Ahjoor

open Async StellarService

/-! ### The calls -/

/-- The calls that take a group from round to round. -/
inductive RoundCall
  | tryAdvanceRound
  | handleTransferEvent (event : TransferEvent)
  | handleContributionReceived (payload : ContributionReceived)

section

variable (sdk : Sdk) (cfg : Config) (groupId : Uuid)

/-- The body of each call; the advances are those of one group. -/
def roundBody : RoundCall → Prog Op.Ret (Except Exc Unit)
  | .tryAdvanceRound => entry (RoundService.tryAdvanceRound sdk cfg groupId)
  | .handleTransferEvent event => entry (EventSyncProcessor.handleTransferEvent event)
  | .handleContributionReceived payload =>
      entry (EventListenerService.handleContributionReceived payload)

/-- Any number of these calls on one world. -/
def roundSystem : System Op.Ret Choice World RoundCall (Except Exc Unit) :=
  ⟨exec, roundBody sdk cfg groupId⟩

end

/-- A history of the rounds of a group. -/
abbrev RoundHist := Hist Op.Ret World RoundCall (Except Exc Unit)

/-- A state of the rounds of a group. -/
abbrev RoundState := State Op.Ret World RoundCall (Except Exc Unit)

/-! ### Payouts that are started in time -/

/-- The group is there, and `ACTIVE`. -/
def isActive (group : Option Group) : Bool := group.any (·.status = .active)

/-- **Every payout is started in time**: the group is `ACTIVE` when `distributePayout` is invoked,
and when it reads the group for its check. -/
structure PayoutsInTime (groupId : Uuid) (h : RoundHist) : Prop where
  invoked : ∀ pid round r before,
    .did pid (.note (.payoutStarted groupId round)) r before ∈ h.trace →
      isActive (before.db.groups.row groupId) = true
  checked : ∀ pid round r found L,
    ⟨.db (.findGroup groupId), .ok found⟩ :: ⟨.note (.payoutStarted groupId round), r⟩ :: L <:+
      log pid h.trace → isActive found = true

/-- The group that the last event saves. -/
def savedGroup : List (Event Op.Ret World RoundCall (Except Exc Unit)) → Option Group
  | .did _ (.db (.saveGroup group)) _ _ :: _ => some group
  | _ => none

/-- The step does not take the group out of its last round: what it changes of the row is saved
from a copy that is in one of the rounds. -/
def LastRoundStays (groupId : Uuid) (h h' : RoundHist) : Prop :=
  h'.world.db.groups.row groupId ≠ h.world.db.groups.row groupId →
    ∀ group ∈ savedGroup h'.trace, group.currentRound ≤ group.totalRounds

instance (groupId : Uuid) : DecidableRel (LastRoundStays groupId) := fun _ h' =>
  inferInstanceAs (Decidable (_ → ∀ group ∈ savedGroup h'.trace, _))

/-! ### What the contract's payment event does -/

/-- The operation is one that the contract's payment event performs. -/
def Op.reportsPayment : Op → Bool
  | .db (.findContribution _) | .db (.updateContribution _ _) | .db (.insertContribution _)
  | .db (.updateHasPaid _ _) | .now => true
  | _ => false

section Uses

variable {σ : Type}

theorem uses_recordReceived (groupId userId : Uuid) (walletAddress amount : String)
    (roundNumber : ℤ) (transactionHash : String) (timestamp : ℕ) :
    Routine.Uses (fun o => o.reportsPayment = true)
      (EventListenerService.recordReceived groupId userId walletAddress amount roundNumber
        transactionHash timestamp : Service σ Unit) := by
  refine Routine.uses_bind (uses_query rfl) fun existing => ?_
  cases existing with
  | some existing => exact uses_query rfl
  | none => exact Routine.uses_bind (uses_query rfl) fun _ => Routine.uses_pure ()

theorem uses_handleContributionReceived (payload : ContributionReceived) :
    Routine.Uses (fun o => o.reportsPayment = true)
      (EventListenerService.handleContributionReceived payload : Service σ Unit) := by
  -- without one of the first four there is nothing to record
  rcases payload with ⟨_ | groupId, userId, walletAddress, amount, roundNumber, hash, createdAt⟩
  · exact Routine.uses_pure ()
  rcases userId with _ | userId
  · exact Routine.uses_pure ()
  rcases walletAddress with _ | walletAddress
  · exact Routine.uses_pure ()
  rcases amount with _ | amount
  · exact Routine.uses_pure ()
  refine Routine.uses_bind ?_ fun timestamp =>
    Routine.uses_bind (uses_recordReceived _ _ _ _ _ _ _) fun _ => uses_query rfl
  cases createdAt with
  | some t => exact Routine.uses_pure t
  | none => exact uses_dateNow rfl

end Uses

/-! ### What a call may do next -/

/-- **What a call may do next**: it saves the group as `ACTIVE`, unless its last round is over, and
opens no database transaction. -/
def RoundRule : Op → Prop
  | .db (.saveGroup group) => group.status = .active ∨ group.totalRounds < group.currentRound
  | .commit => False
  | _ => True

section Bodies

variable {σ α : Type} {L : Log Op.Ret}

/-- The routine does only what a call may do. -/
abbrev KeepsRule (m : Service σ α) (s : σ) (L : Log Op.Ret) : Prop :=
  Obeys (fun _ => RoundRule) m (fun _ _ _ => True) (fun _ _ _ => True) s L

theorem keepsRule_query {s : σ} {q : Query} {f : q.Ret → Service σ α} (hq : RoundRule (.db q))
    (hf : ∀ a, KeepsRule (f a) s (⟨.db q, .ok a⟩ :: L)) : KeepsRule (query q >>= f) s L :=
  Obeys.bind (obeys_query hq hf fun _ => trivial)

/-- A payout saves no group. -/
theorem letsPay_roundRule : LetsPay (fun _ => RoundRule) fun _ => True where
  pays := by
    refine ⟨fun _ o _ ho => ?_, fun _ _ _ _ _ => trivial⟩
    cases o with
    | db q =>
      cases q with
      | saveGroup group => cases ho
      | _ => trivial
    | commit => cases ho
    | _ => trivial
  saves _ _ _ _ := trivial
  kept _ _ _ _ := trivial

section

variable (sdk : Sdk) (cfg : Config) (groupId : Uuid)

theorem keepsRule_triggerPayout {s : σ} (round : ℤ) :
    KeepsRule (RoundService.triggerPayout sdk cfg groupId round) s L :=
  Obeys.tryCatch (Obeys.bind ((PayoutService.obeys_distributePayout sdk cfg letsPay_roundRule groupId
    round trivial).mono (fun _ _ _ _ => Obeys.pure trivial) fun _ _ _ _ => Obeys.pure trivial))

/-- A failure that is only logged. -/
theorem keepsRule_logged {s : σ} {m : Service σ Unit} (hm : KeepsRule m s L) :
    KeepsRule (tryCatch m fun _ => pure ()) s L :=
  Obeys.tryCatch (hm.mono (fun _ _ _ _ => trivial) fun _ _ _ _ => Obeys.pure trivial)

theorem keepsRule_emit {s : σ} (e : Effect) : KeepsRule (emit e : Service σ Unit) s L :=
  obeys_emit trivial trivial fun _ => trivial

theorem keepsRule_completeGroup {s : σ} {group : Group}
    (hlast : group.totalRounds < group.currentRound + 1) :
    KeepsRule (RoundService.completeGroup sdk cfg groupId group : Service σ Bool) s L := by
  refine keepsRule_query (.inr hlast) fun _ => Obeys.bind ?_
  have hnow : ∀ (e : ℕ → Effect) L, KeepsRule (do
      let completedAt ← dateNow
      emit (e completedAt) : Service σ Unit) s L := fun e _ =>
    Obeys.bind (Obeys.perform (o := .now) trivial fun t => keepsRule_emit (e t))
  refine (keepsRule_logged (hnow _ _)).mono (fun _ _ _ _ => ?_) fun _ _ _ _ => trivial
  exact Obeys.bind ((keepsRule_triggerPayout sdk cfg groupId _).mono
    (fun _ _ _ _ => Obeys.pure trivial) fun _ _ _ _ => trivial)

theorem keepsRule_openNextRound {s : σ} {group : Group} (memberships : List Membership)
    (hactive : group.status = .active) :
    KeepsRule (RoundService.openNextRound sdk cfg groupId group memberships : Service σ Bool) s L := by
  refine keepsRule_query trivial fun _ => keepsRule_query (.inl hactive) fun _ => Obeys.bind ?_
  refine (keepsRule_triggerPayout sdk cfg groupId _).mono (fun _ _ _ _ => ?_) fun _ _ _ _ => trivial
  exact Obeys.bind ((keepsRule_logged (keepsRule_emit _)).mono (fun _ _ _ _ => Obeys.pure trivial)
    fun _ _ _ _ => trivial)

theorem keepsRule_tryAdvanceRound {s : σ} :
    KeepsRule (RoundService.tryAdvanceRound sdk cfg groupId : Service σ Bool) s L := by
  refine keepsRule_query trivial fun found => ?_
  cases found with
  | none => exact Obeys.pure trivial
  | some group =>
    refine Obeys.ite (fun _ => Obeys.pure trivial) fun hactive => ?_
    refine keepsRule_query trivial fun memberships => ?_
    refine Obeys.ite (fun _ => Obeys.pure trivial) fun _ => ?_
    refine Obeys.ite (fun _ => Obeys.pure trivial) fun _ => ?_
    exact Obeys.ite (keepsRule_completeGroup sdk cfg groupId) fun _ =>
      keepsRule_openNextRound sdk cfg groupId memberships (not_not.mp hactive)

end

theorem keepsRule_handleTransferEvent {s : σ} (event : TransferEvent) :
    KeepsRule (EventSyncProcessor.handleTransferEvent event : Service σ Unit) s L := by
  refine keepsRule_query trivial fun existing => ?_
  refine Obeys.ite (fun _ => Obeys.pure trivial) fun _ => ?_
  refine keepsRule_query trivial fun membership => ?_
  cases membership with
  | none => exact Obeys.pure trivial
  | some membership =>
    refine keepsRule_query trivial fun group => ?_
    cases group with
    | none => exact Obeys.pure trivial
    | some group =>
      refine Obeys.ite (fun _ => Obeys.pure trivial) fun _ => ?_
      refine Obeys.bind (Obeys.perform (o := Op.now) trivial fun timestamp => ?_)
      refine keepsRule_query trivial fun _ => ?_
      exact obeys_query trivial (fun _ => trivial) fun _ => trivial

theorem keepsRule_handleContributionReceived {s : σ} (payload : ContributionReceived) :
    KeepsRule (EventListenerService.handleContributionReceived payload : Service σ Unit) s L := by
  have hadmits : Admits (fun _ : Log Op.Ret => RoundRule) (·.reportsPayment = true)
      fun _ => True := by
    refine ⟨fun _ o _ ho => ?_, fun _ _ _ _ _ => trivial⟩
    cases o with
    | db q =>
      cases q with
      | saveGroup group => cases ho
      | _ => trivial
    | commit => cases ho
    | _ => trivial
  exact (Obeys.of_uses hadmits (uses_handleContributionReceived payload) trivial).mono
    (fun _ _ _ _ => trivial) fun _ _ _ _ => trivial

/-- **Every body keeps its discipline.** -/
theorem follows_roundBody (sdk : Sdk) (cfg : Config) (groupId : Uuid) (c : RoundCall) :
    Follows (fun _ => RoundRule) (fun _ _ => True) (roundBody sdk cfg groupId c) [] := by
  cases c with
  | tryAdvanceRound => exact follows_entry (keepsRule_tryAdvanceRound sdk cfg groupId)
  | handleTransferEvent event => exact follows_entry (keepsRule_handleTransferEvent event)
  | handleContributionReceived payload =>
    exact follows_entry (keepsRule_handleContributionReceived payload)

end Bodies

/-! ### What a run keeps -/

section Runs

variable {sdk : Sdk} {cfg : Config} {groupId : Uuid} {h h' : RoundHist}

/-- Only a save of a group and a commit change the groups. -/
theorem groups_exec {o : Op} {r : o.Ret} {pid : ℕ} {choice : Choice} {w w' : World}
    (ho : ∀ group, o ≠ .db (.saveGroup group)) (hcommit : o ≠ .commit)
    (h : exec o pid choice w = some (r, w')) : w'.db.groups = w.db.groups := by
  cases o with
  | db q =>
    have hq : q.writesGroups = false := by
      cases q with
      | saveGroup group => exact absurd rfl (ho group)
      | _ => rfl
    rcases db_of_exec_db h with hdb | hdb
    · rw [hdb]
    · rw [hdb, Query.groups_eval hq]
  | commit => exact absurd rfl hcommit
  | _ => rw [(changes_of_exec h).db rfl]

/-- A step leaves the group as it is, or saves it. -/
theorem group_step {D : RoundCall → Log Op.Ret → Op → Prop} (hcommit : ∀ c L, ¬ D c L .commit)
    (hstep : HistStep (roundSystem sdk cfg groupId) D h h') :
    h'.world.db.groups.row groupId = h.world.db.groups.row groupId ∨
      ∃ pid c group r, h'.trace = .did pid (.db (.saveGroup group)) r h.world :: h.trace ∧
        D c (log pid h.trace) (.db (.saveGroup group)) ∧
        h'.world.db.groups.row groupId = some group := by
  cases hstep with
  | idle e he hlive => exact .inl rfl
  | did pid c o choice r w hstart hrule hexec hlive =>
    by_cases ho : ∃ group, o = .db (.saveGroup group)
    · obtain ⟨group, rfl⟩ := ho
      rw [Hist.push_world]
      rcases db_of_exec_db hexec with hdb | hdb
      · exact .inl (by rw [hdb])
      · have hrow : w.db.groups.row groupId = if groupId = group.id then some group
            else h.world.db.groups.row groupId := by
          rw [hdb]
          exact Store.Table.row_put _ _ _
        split_ifs at hrow with hid
        · exact .inr ⟨pid, c, group, r, rfl, hrule, hrow⟩
        · exact .inl hrow
    · left
      rw [Hist.push_world, groups_exec (not_exists.mp ho) (fun ho => ?_) hexec]
      exact hcommit c _ (ho ▸ hrule)

/-- **A step that does not take the group out of its last round** leaves it `ACTIVE`. -/
theorem isActive_step (hstep : HistStep (roundSystem sdk cfg groupId) (fun _ _ => RoundRule) h h')
    (hok : LastRoundStays groupId h h')
    (hactive : isActive (h.world.db.groups.row groupId) = true) :
    isActive (h'.world.db.groups.row groupId) = true := by
  by_cases hsame : h'.world.db.groups.row groupId = h.world.db.groups.row groupId
  · rwa [hsame]
  have hlast := hok hsame
  obtain ⟨pid, c, group, r, htrace, hrule, hrow⟩ :=
    (group_step (fun _ _ => not_false) hstep).resolve_left hsame
  rw [htrace] at hlast
  rw [hrow]
  have hround : group.currentRound ≤ group.totalRounds := hlast group rfl
  rcases hrule with hstatus | hover
  · exact decide_eq_true hstatus
  · exact absurd hover (not_lt.mpr hround)

/-- A payout that is started while the group is `ACTIVE` is started in time. -/
theorem PayoutsInTime.step (ht : PayoutsInTime groupId h)
    (hstep : HistStep (roundSystem sdk cfg groupId) (fun _ _ => RoundRule) h h')
    (hactive : isActive (h.world.db.groups.row groupId) = true) : PayoutsInTime groupId h' := by
  cases hstep with
  | idle e he hlive =>
    refine ⟨fun pid round r before hmem => ?_, fun pid round r found L hsuffix => ?_⟩
    · rcases List.mem_cons.mp hmem with rfl | hold
      · exact absurd rfl (not_did_of_log he pid _ r before)
      · exact ht.invoked pid round r before hold
    · rw [Hist.push_trace, he] at hsuffix
      exact ht.checked pid round r found L hsuffix
  | did p c o choice r w hstart hrule hexec hlive =>
    refine ⟨fun pid round r' before hmem => ?_, fun pid round r' found L hsuffix => ?_⟩
    · rcases List.mem_cons.mp hmem with heq | hold
      · cases heq
        exact hactive
      · exact ht.invoked pid round r' before hold
    · by_cases hp : p = pid
      · subst hp
        rw [Hist.push_trace, log_did_self] at hsuffix
        rcases List.suffix_cons_iff.mp hsuffix with heq | hold
        · cases (List.cons.inj heq).1
          have hfound := (exec_db_ok hexec).1
          cases hfound
          exact hactive
        · exact ht.checked p round r' found L hold
      · rw [Hist.push_trace, log_cons_of_ne (e := .did p o r h.world) hp] at hsuffix
        exact ht.checked pid round r' found L hsuffix

/-- **The payouts of the rounds before the last** are started in time, whatever the order of the
steps. -/
theorem payoutsInTime_of_reachable {w : World}
    (hactive : isActive (w.db.groups.row groupId) = true) {s : RoundState}
    (hr : (roundSystem sdk cfg groupId).ReachableWhen (LastRoundStays groupId) (.init w) s) :
    PayoutsInTime groupId s.hist := by
  have hkept : isActive (s.hist.world.db.groups.row groupId) = true ∧ PayoutsInTime groupId s.hist := by
    refine hist_invariant (I := fun h => isActive (h.world.db.groups.row groupId) = true ∧
      PayoutsInTime groupId h) (follows_roundBody sdk cfg groupId) ⟨hactive, ?_⟩ ?_ hr
    · exact ⟨fun _ _ _ _ hmem => absurd hmem List.not_mem_nil,
        fun _ _ _ _ _ hsuffix => absurd (List.suffix_nil.mp hsuffix) (List.cons_ne_nil _ _)⟩
    · exact fun _ _ _ _ hh hstep hok => ⟨isActive_step hstep hok hh.1, hh.2.step hstep hh.1⟩
  exact hkept.2

end Runs

/-! ### The last round -/

/-- The event starts a payout of a group that is not `ACTIVE`. -/
def startsLate (groupId : Uuid) : Event Op.Ret World RoundCall (Except Exc Unit) → Bool
  | .did _ (.note (.payoutStarted id _)) _ before =>
      id == groupId && !isActive (before.db.groups.row groupId)
  | _ => false

theorem not_payoutsInTime_of_startsLate {groupId : Uuid} {h : RoundHist}
    (hlate : h.trace.any (startsLate groupId) = true) : ¬ PayoutsInTime groupId h := by
  intro ht
  obtain ⟨e, he, hlate⟩ := List.any_eq_true.mp hlate
  unfold startsLate at hlate
  split at hlate
  · obtain ⟨hid, hinactive⟩ := Bool.and_eq_true_iff.mp hlate
    obtain rfl := beq_iff_eq.mp hid
    rw [ht.invoked _ _ _ _ he] at hinactive
    cases hinactive
  · cases hlate

namespace Sample

/-- An advance of the first of two rounds, up to the check of its payout. -/
def firstAdvance : List (Move Choice RoundCall) :=
  .start .tryAdvanceRound :: List.replicate 6 (.run 0 .done)

/-- An advance of the last round, up to the check of its payout. -/
def lastAdvance : List (Move Choice RoundCall) :=
  [.start .tryAdvanceRound, .run 0 .done, .run 0 .done, .run 0 .done, .run 0 (.time 0),
    .run 0 .done, .run 0 .done, .run 0 .done]

/-- The group in its last round. -/
def lastRound : World := world { group with currentRound := 2 } [{ member with payoutOrder := some 1 }]

end Sample

theorem payoutsInTime_sample : ∃ s : RoundState,
    s.hist.trace.length = 7 ∧ PayoutsInTime 0 s.hist := by
  obtain ⟨s, hr, hlength⟩ := System.exists_of_replay (roundSystem Sample.sdk Sample.cfg 0)
    (LastRoundStays 0) (.init (Sample.world Sample.group [Sample.member])) Sample.firstAdvance
    (fun s => s.hist.trace.length == 7) (by decide +kernel)
  exact ⟨s, beq_iff_eq.mp hlength, payoutsInTime_of_reachable (by decide +kernel) hr⟩

/-- **Behind the last round** the payout finds the group `COMPLETED`. -/
theorem not_payoutsInTime : ¬ ∀ w : World, isActive (w.db.groups.row 0) = true →
    ∀ s : RoundState, (roundSystem Sample.sdk Sample.cfg 0).Reachable (.init w) s →
      PayoutsInTime 0 s.hist := by
  intro h
  obtain ⟨s, hr, hlate⟩ := System.exists_of_replay (roundSystem Sample.sdk Sample.cfg 0)
    (fun _ _ => True) (.init Sample.lastRound) Sample.lastAdvance
    (fun s => s.hist.trace.any (startsLate 0)) (by decide +kernel)
  exact not_payoutsInTime_of_startsLate hlate (h _ (by decide +kernel) s hr)

end Ahjoor
