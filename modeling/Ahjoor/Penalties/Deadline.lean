import Ahjoor.Async.Solo
import Ahjoor.Penalties.Assessment

/-!
# No penalty before the deadline

The daily job assesses the current round of every active group, whenever it runs: it does not look
at the deadline of the round. So it is on time only as far as the members have contributed anyway,
or the deadlines of all active groups have passed.
-/

namespace Ahjoor.Penalties

open Async Store StellarService

/-- The columns from which the deadline is computed. -/
def GroupRow.timing (group : GroupRow) : Scheduler.Timing := ⟨group.updatedAt, group.roundDuration⟩

/-- The deadline of the current round and the grace period of the group have passed. -/
def GroupRow.isLate (group : GroupRow) (now : ℤ) : Bool :=
  Scheduler.isDeadlinePassed group.timing now group.gracePeriodHours

theorem GroupRow.isLate_mono {group : GroupRow} {t t' : ℤ} (h : group.isLate t = true) (hle : t ≤ t') :
    group.isLate t' = true :=
  Scheduler.isDeadlinePassed_iff.mpr ((Scheduler.isDeadlinePassed_iff.mp h).trans hle)

/-! ### What is claimed -/

/-- When the penalty was created: a week before it is due. -/
def Penalty.assessedAt (p : Penalty) : ℤ := p.dueAt - weekMs

/-- The penalty is for the current round of its group, whose deadline had passed when it was
created, with the grace period, and to which the user has not contributed. -/
def Deserved (w : World) (p : Penalty) : Prop :=
  ∃ group, w.rest.groups.row p.groupId = some group ∧ p.roundNumber = group.currentRound ∧
    group.isLate p.assessedAt = true ∧ w.rest.contributions.find? (pays p.missed) = none

/-- **The job is on time**: however it comes to an end when it runs alone, every penalty that it has
created is deserved. -/
def OnTime (pid : ℕ) (w : World) : Prop :=
  ∀ x w', Alone exec pid (assessPenalties ()) w (x, ()) w' → ∀ i p,
    w'.penalties.row i = some p → w.penalties.row i = none → Deserved w p

/-- The missed round of a member, as the job sees it. -/
abbrev missedBy (group : GroupRow) (m : Membership) : Missed :=
  ⟨m.userId, group.id, group.currentRound⟩

/-- The member has neither contributed to the current round of the group nor a penalty for it. -/
def Misses (w : World) (group : GroupRow) (m : Membership) : Prop :=
  m.groupId = group.id ∧ w.rest.contributions.find? (pays (missedBy group m)) = none ∧
    w.penalties.find? (·.missed = missedBy group m) = none

/-- The job would penalize nobody in the group, or the group is late. -/
def MayBeAssessed (w : World) (group : GroupRow) : Prop :=
  group.isLate w.clock = true ∨ (∀ amount, newDecimal group.contributionAmount ≠ .ok amount) ∨
    ∀ m ∈ w.rest.memberships, ¬ Misses w group m

/-! ### Rules -/

section Rules

variable {pid : ℕ} {w v : World} {α : Type}

/-- A query that may fail. -/
theorem solo_db {q : Query} {Q : q.Ret → Unit → World → Prop} {X : Exc → Unit → World → Prop}
    (hok : Q (q.read v) () { v with penalties := q.write v.penalties })
    (herr : ∀ e, X e () v) (hlost : ∀ e, X e () { v with penalties := q.write v.penalties }) :
    Solo exec pid (db q) Q X () v := by
  refine Solo.call fun choice r v' hexec => ?_
  cases choice with
  | done =>
    cases hexec
    exact hok
  | fails msg =>
    cases hexec
    exact herr _
  | lost msg =>
    cases hexec
    exact hlost _
  | time t => cases hexec

/-- A read. -/
theorem solo_read {q : Query} (hq : q.isRead = true) {Q : q.Ret → Unit → World → Prop}
    {X : Exc → Unit → World → Prop} (hok : Q (q.read v) () v) (herr : ∀ e, X e () v) :
    Solo exec pid (db q) Q X () v := by
  have hsame : { v with penalties := q.write v.penalties } = v := by
    cases q with
    | insertPenalty p => cases hq
    | savePenalty p => cases hq
    | _ => rfl
  exact solo_db (by rw [hsame]; exact hok) herr (by rw [hsame]; exact herr)

theorem solo_dateNow {Q : ℤ → Unit → World → Prop} {X : Exc → Unit → World → Prop}
    (h : ∀ t, v.clock ≤ t → Q t () { v with clock := t }) : Solo exec pid dateNow Q X () v := by
  refine Solo.perform fun choice (t : ℤ) v' hexec => ?_
  cases choice with
  | time t' =>
    rw [exec] at hexec
    split at hexec
    next hle =>
      cases hexec
      exact h t hle
    next => cases hexec
  | _ => cases hexec

theorem solo_sendNotification {userId : Uuid} {type : String} {metadata : List (String × String)}
    {Q : Unit → Unit → World → Prop} {X : Exc → Unit → World → Prop} (hok : Q () () v)
    (herr : ∀ e, X e () v) :
    Solo exec pid (sendNotification userId type metadata) Q X () v := by
  refine Solo.call fun choice r v' hexec => ?_
  cases choice <;> cases hexec
  · exact hok
  · exact herr _

theorem solo_evaluate {x : Except Exc α} {Q : α → Unit → World → Prop}
    {X : Exc → Unit → World → Prop} (hok : ∀ a, x = .ok a → Q a () v) (herr : ∀ e, X e () v) :
    Solo exec pid (evaluate x) Q X () v := by
  cases x with
  | ok a => exact Solo.pure (hok a rfl)
  | error e => exact Solo.throw (herr e)

end Rules

/-! ### The job, if no active group can be penalized too early -/

section OnTime

variable {pid : ℕ} {w v : World}

/-- While the job runs: nothing else changes, and all that it has created is deserved. -/
structure Deserving (w v : World) : Prop where
  rest : v.rest = w.rest
  clock : w.clock ≤ v.clock
  kept : ∀ i p, w.penalties.row i = some p → v.penalties.row i = some p
  created : ∀ i p, v.penalties.row i = some p → w.penalties.row i = some p ∨ Deserved w p

theorem Deserving.refl (w : World) : Deserving w w :=
  ⟨rfl, le_rfl, fun _ _ hp => hp, fun _ _ hp => .inl hp⟩

theorem Deserving.tick (hv : Deserving w v) {t : ℤ} (ht : v.clock ≤ t) :
    Deserving w { v with clock := t } :=
  ⟨hv.rest, hv.clock.trans ht, hv.kept, hv.created⟩

theorem Deserving.insert (hv : Deserving w v) {p : Penalty}
    (hp : Deserved w { p with id := v.penalties.next }) :
    Deserving w { v with penalties := (v.penalties.insert p).2 } where
  rest := hv.rest
  clock := hv.clock
  kept i q hq := v.penalties.row_insert_of_row p (hv.kept i q hq)
  created i q hq := by
    change (v.penalties.put { p with id := v.penalties.next }).row i = some q at hq
    rw [Table.row_put] at hq
    split at hq
    next =>
      obtain rfl := Option.some.inj hq
      exact .inr hp
    next => exact hv.created i q hq

/-- Whatever the end, the job has been deserving. -/
abbrev Ends (w : World) {α : Type} : α → Unit → World → Prop := fun _ _ => Deserving w

variable {group : GroupRow} (hgroup : w.rest.groups.row group.id = some group)
  (hmay : MayBeAssessed w group)

include hgroup hmay

theorem solo_assessMember (hv : Deserving w v) {m : Membership} (hm : m ∈ w.rest.memberships)
    (hmgroup : m.groupId = group.id) :
    Solo exec pid (assessMember group group.id group.currentRound m) (Ends w) (Ends w) () v := by
  refine Solo.bind (solo_read rfl ?_ fun e => hv)
  cases hcontribution : (Query.findContribution (missedBy group m)).read v with
  | some c => exact Solo.pure hv
  | none =>
  refine Solo.bind (solo_evaluate (fun penaltyAmount hamount => ?_) fun e => hv)
  refine Solo.bind (solo_read rfl ?_ fun e => hv)
  cases hexisting : (Query.findPenaltyFor (missedBy group m)).read v with
  | some p => exact Solo.pure hv
  | none =>
  refine Solo.bind (solo_dateNow fun t ht => ?_)
  have hcontributed : w.rest.contributions.find? (pays (missedBy group m)) = none := by
    rw [← hv.rest]
    exact hcontribution
  have hnew : w.penalties.find? (·.missed = missedBy group m) = none := by
    refine Table.find?_eq_none.mpr fun i p hp => ?_
    exact Table.find?_eq_none.mp hexisting i p (hv.kept i p hp)
  have hlate : group.isLate t = true := by
    rcases hmay with hlate | hunparsable | hnobody
    · exact GroupRow.isLate_mono hlate (hv.clock.trans ht)
    · cases hparsed : newDecimal group.contributionAmount with
      | ok amount => exact absurd hparsed (hunparsable amount)
      | error e =>
        rw [calculatePenaltyAmount, hparsed] at hamount
        cases hamount
    · exact absurd ⟨hmgroup, hcontributed, hnew⟩ (hnobody m hm)
  have hinserted : ∀ amount, Deserving w { v with
      clock := t
      penalties := (v.penalties.insert
        { id := 0, userId := m.userId, groupId := group.id, roundNumber := group.currentRound,
          amount, assetCode := group.assetCode, dueAt := t + weekMs }).2 } := fun amount =>
    (hv.tick ht).insert ⟨group, hgroup, rfl, by rwa [Penalty.assessedAt, add_sub_cancel_right],
      hcontributed⟩
  refine Solo.bind (solo_db ?_ (fun e => hv.tick ht) fun e => hinserted _)
  exact Solo.bind (solo_sendNotification (Solo.pure (hinserted _)) fun e => hinserted _)

theorem solo_assessMembers (hv : Deserving w v) {ms : List Membership}
    (hms : ∀ m ∈ ms, m ∈ w.rest.memberships ∧ m.groupId = group.id) :
    Solo exec pid (assessMembers group group.id group.currentRound ms) (Ends w) (Ends w) () v := by
  induction ms generalizing v with
  | nil => exact Solo.pure hv
  | cons m ms ih =>
    obtain ⟨⟨hm, hmgroup⟩, hms⟩ := List.forall_mem_cons.mp hms
    refine Solo.bind ((solo_assessMember hgroup hmay hv hm hmgroup).mono (fun n _ v' hv' => ?_)
      fun _ _ _ h => h)
    exact Solo.bind ((ih hv' hms).mono (fun _ _ _ h => Solo.pure h) fun _ _ _ h => h)

theorem solo_assessPenaltiesForRound (hv : Deserving w v) :
    Solo exec pid (assessPenaltiesForRound group.id group.currentRound) (Ends w) (Ends w) () v := by
  refine Solo.bind (solo_read rfl ?_ fun e => hv)
  have hfound : (Query.findGroup group.id).read v = some group := by
    change v.rest.groups.row group.id = _
    rw [hv.rest, hgroup]
  rw [hfound]
  refine Solo.bind (Solo.pure (Solo.bind (solo_read rfl ?_ fun e => hv)))
  refine solo_assessMembers hgroup hmay hv fun m hm => ?_
  change m ∈ v.rest.memberships.filter _ at hm
  rw [hv.rest] at hm
  obtain ⟨hm, hmgroup⟩ := List.mem_filter.mp hm
  exact ⟨hm, of_decide_eq_true hmgroup⟩

omit hgroup hmay in
theorem solo_assessGroups {groups : List GroupRow}
    (hgroups : ∀ group ∈ groups, w.rest.groups.row group.id = some group ∧ MayBeAssessed w group)
    (hv : Deserving w v) : Solo exec pid (assessGroups groups) (Ends w) (Ends w) () v := by
  induction groups generalizing v with
  | nil => exact Solo.pure hv
  | cons group groups ih =>
    obtain ⟨⟨hgroup, hmay⟩, hgroups⟩ := List.forall_mem_cons.mp hgroups
    have hrest : ∀ (outcome : ℕ × ℕ) v', Deserving w v' → Solo exec pid (do
        let rest ← assessGroups groups
        pure (outcome.1 + rest.1, outcome.2 + rest.2) : Service (ℕ × ℕ))
        (Ends w) (Ends w) () v' := fun outcome v' hv' =>
      Solo.bind ((ih hgroups hv').mono (fun _ _ _ h => Solo.pure h) fun _ _ _ h => h)
    refine Solo.bind (Solo.tryCatch (Solo.bind ((solo_assessPenaltiesForRound hgroup hmay hv).mono
      (fun n _ v' hv' => ?_) fun e _ v' hv' => ?_)))
    · exact Solo.pure (hrest (1, n) v' hv')
    · exact Solo.pure (hrest (0, 0) v' hv')

omit hgroup hmay in
/-- **The job is on time** if no active group can be penalized too early. -/
theorem onTime_of_mayBeAssessed (h : ∀ group, w.rest.groups.row group.id = some group →
    group.status = .active → MayBeAssessed w group) : OnTime pid w := by
  have hsolo : Solo exec pid assessPenalties (Ends w) (Ends w) () w := by
    refine Solo.bind (solo_read rfl ?_ fun e => Deserving.refl w)
    refine solo_assessGroups (fun group hgroup => ?_) (.refl w)
    obtain ⟨hrow, hactive⟩ := w.rest.groups.mem_filter.mp hgroup
    exact ⟨hrow, h group hrow (of_decide_eq_true hactive)⟩
  intro x w' halone i p hp hnew
  have hdeserving : Deserving w w' := by
    have hx := hsolo x () w' halone
    cases x with
    | ok a => exact hx
    | error e => exact hx
  refine (hdeserving.created i p hp).resolve_left fun hold => ?_
  exact absurd (hold.symm.trans hnew) nofun

end OnTime

/-! ### The job, if nothing fails and no time passes -/

section Early

variable {pid : ℕ} {w v : World} {α : Type}

/-- A penalty for a missed round is in the table. -/
def Penalized (t : Table Penalty) (missed : Missed) : Prop :=
  ∃ i p, t.row i = some p ∧ p.missed = missed

/-- While the job runs: nothing else changes, no time passes, and what it has created is due a week
later. -/
structure Instant (w v : World) : Prop where
  rest : v.rest = w.rest
  clock : v.clock = w.clock
  created : ∀ i p, v.penalties.row i = some p →
    w.penalties.row i = some p ∨ w.penalties.row i = none ∧ p.dueAt = w.clock + weekMs
  next : w.penalties.next ≤ v.penalties.next

/-- The later world has the penalties of the earlier one. -/
def Grows (v v' : World) : Prop :=
  ∀ missed, Penalized v.penalties missed → Penalized v'.penalties missed

theorem Grows.trans {v₁ v₂ v₃ : World} (h : Grows v₁ v₂) (h' : Grows v₂ v₃) : Grows v₁ v₃ :=
  fun missed hp => h' missed (h missed hp)

theorem comes_read {q : Query} (hq : q.isRead = true) :
    Comes exec pid (db q) (.ok (q.read v)) (v = ·) () v := by
  have hsame : { v with penalties := q.write v.penalties } = v := by
    cases q with
    | insertPenalty p => cases hq
    | savePenalty p => cases hq
    | _ => rfl
  exact Comes.call .done rfl hsame.symm

theorem comes_dateNow : Comes exec pid dateNow (.ok v.clock) (v = ·) () v := by
  have hnow : exec .now pid (.time v.clock) v = some (v.clock, v) := if_pos le_rfl
  exact ⟨v, .op (.time v.clock) hnow (.ret _ v), rfl⟩

/-- The insertion of a new penalty. -/
theorem Instant.insert (hv : Instant w v) (p : Penalty) (hdue : p.dueAt = w.clock + weekMs) :
    Instant w { v with penalties := (v.penalties.insert p).2 } ∧
      Grows v { v with penalties := (v.penalties.insert p).2 } ∧
        Penalized (v.penalties.insert p).2 p.missed := by
  refine ⟨⟨hv.rest, hv.clock, fun i q hq => ?_, hv.next.trans (le_max_left ..)⟩,
    fun missed ⟨i, q, hq, hmissed⟩ => ⟨i, q, v.penalties.row_insert_of_row p hq, hmissed⟩,
    v.penalties.next, { p with id := v.penalties.next }, Table.row_put_self .., rfl⟩
  change (v.penalties.put { p with id := v.penalties.next }).row i = some q at hq
  rw [Table.row_put] at hq
  split at hq
  next hi =>
    obtain rfl := Option.some.inj hq
    refine .inr ⟨?_, hdue⟩
    by_contra hrow
    obtain ⟨q₀, hq₀⟩ := Option.ne_none_iff_exists'.mp hrow
    have hlt := w.penalties.lt_next hq₀
    have hnext := hv.next
    rw [show i = v.penalties.next from hi] at hlt
    omega
  next => exact hv.created i q hq

/-- What the assessment of members has done: those that have missed the round have a penalty, if the
amount can be computed. -/
structure HasAssessed (w v : World) (group : GroupRow) (ms : List Membership) (x : Except Exc ℕ)
    (v' : World) : Prop where
  during : Instant w v'
  grows : Grows v v'
  penalized : ∀ amount, newDecimal group.contributionAmount = .ok amount →
    (∃ n, x = .ok n) ∧ ∀ m ∈ ms, w.rest.contributions.find? (pays (missedBy group m)) = none →
      Penalized v'.penalties (missedBy group m)

variable (pid) (group : GroupRow)

theorem comes_assessMember (hv : Instant w v) (m : Membership) :
    ∃ x, Comes exec pid (assessMember group group.id group.currentRound m) x
      (HasAssessed w v group [m] x) () v := by
  have hgrows : Grows v v := fun _ hp => hp
  -- nothing is stored, because the member has contributed or has a penalty
  have hdone : ∀ n : ℕ, (w.rest.contributions.find? (pays (missedBy group m)) = none →
      Penalized v.penalties (missedBy group m)) → HasAssessed w v group [m] (.ok n) v := by
    refine fun n h => ⟨hv, hgrows, fun amount _ => ⟨⟨n, rfl⟩, fun m' hm' => ?_⟩⟩
    obtain rfl := List.mem_singleton.mp hm'
    exact h
  cases hcontribution : (Query.findContribution (missedBy group m)).read v with
  | some c =>
    refine ⟨.ok 0, Comes.bind (comes_read rfl) ?_⟩
    rintro _ rfl
    rw [hcontribution]
    refine Comes.pure (hdone 0 fun hnone => ?_)
    rw [← hv.rest] at hnone
    exact absurd (hcontribution.symm.trans hnone) nofun
  | none =>
  cases hparsed : newDecimal group.contributionAmount with
  | error e =>
    refine ⟨.error e, Comes.bind (comes_read rfl) ?_⟩
    rintro _ rfl
    rw [hcontribution]
    refine Comes.bind_error ?_
    rw [calculatePenaltyAmount, hparsed]
    exact Comes.throw ⟨hv, hgrows, fun amount h => absurd (hparsed.symm.trans h) nofun⟩
  | ok amount =>
  cases hexisting : (Query.findPenaltyFor (missedBy group m)).read v with
  | some p =>
    refine ⟨.ok 0, Comes.bind (comes_read rfl) ?_⟩
    rintro _ rfl
    rw [hcontribution]
    refine Comes.bind (R := (v = ·)) (by rw [calculatePenaltyAmount, hparsed]; exact Comes.pure rfl) ?_
    rintro _ rfl
    refine Comes.bind (comes_read rfl) ?_
    rintro _ rfl
    rw [hexisting]
    refine Comes.pure (hdone 0 fun _ => ?_)
    obtain ⟨hrow, hmissed⟩ := Table.of_find?_eq_some hexisting
    exact ⟨p.id, p, hrow, of_decide_eq_true hmissed⟩
  | none =>
    refine ⟨.ok 1, Comes.bind (comes_read rfl) ?_⟩
    rintro _ rfl
    rw [hcontribution]
    refine Comes.bind (R := (v = ·)) (by rw [calculatePenaltyAmount, hparsed]; exact Comes.pure rfl) ?_
    rintro _ rfl
    refine Comes.bind (comes_read rfl) ?_
    rintro _ rfl
    rw [hexisting]
    refine Comes.bind comes_dateNow ?_
    rintro _ rfl
    obtain ⟨hinstant, hgrew, hpenalized⟩ := hv.insert
      { id := 0, userId := m.userId, groupId := group.id, roundNumber := group.currentRound,
        amount := Decimal.toFixed 7 (Decimal.times precision
          (Decimal.times precision amount group.penaltyRate) (calculateDaysLate group group.currentRound)),
        assetCode := group.assetCode, dueAt := v.clock + weekMs } (by rw [hv.clock])
    refine Comes.bind (R := HasAssessed w v group [m] (.ok 1)) (Comes.call .done rfl
      ⟨hinstant, hgrew, fun _ _ => ⟨⟨1, rfl⟩, fun m' hm' _ => ?_⟩⟩) fun v₁ hv₁ => ?_
    · obtain rfl := List.mem_singleton.mp hm'
      exact hpenalized
    · exact Comes.bind (Comes.call .done rfl hv₁) fun v₂ hv₂ => Comes.pure hv₂

theorem comes_assessMembers (hv : Instant w v) (ms : List Membership) :
    ∃ x, Comes exec pid (assessMembers group group.id group.currentRound ms) x
      (HasAssessed w v group ms x) () v := by
  induction ms generalizing v with
  | nil => exact ⟨.ok 0, Comes.pure ⟨hv, fun _ hp => hp, fun _ _ =>
      ⟨⟨0, rfl⟩, fun _ hm => absurd hm List.not_mem_nil⟩⟩⟩
  | cons m ms ih =>
    obtain ⟨x, v₁, halone₁, hv₁⟩ := comes_assessMember pid group hv m
    obtain ⟨y, v₂, halone₂, hv₂⟩ := ih hv₁.during
    cases x with
    | error e =>
      refine ⟨.error e, v₁, halone₁.bind (.ret _ v₁), hv₁.during, hv₁.grows, fun amount h => ?_⟩
      obtain ⟨⟨n, hn⟩, -⟩ := hv₁.penalized amount h
      cases hn
    | ok n =>
    cases y with
    | error e =>
      refine ⟨.error e, v₂, halone₁.bind (halone₂.bind (.ret _ v₂)), hv₂.during,
        hv₁.grows.trans hv₂.grows, fun amount h => ?_⟩
      obtain ⟨⟨k, hk⟩, -⟩ := hv₂.penalized amount h
      cases hk
    | ok k =>
      refine ⟨.ok (n + k), v₂, halone₁.bind (halone₂.bind (.ret _ v₂)), hv₂.during,
        hv₁.grows.trans hv₂.grows, fun amount h => ⟨⟨n + k, rfl⟩, ?_⟩⟩
      refine List.forall_mem_cons.mpr ⟨fun hnone => ?_, (hv₂.penalized amount h).2⟩
      exact hv₂.grows _ ((hv₁.penalized amount h).2 m (List.mem_singleton_self m) hnone)

/-- What one round of the loop has done for a group. -/
def GroupAssessed (w v v' : World) (group : GroupRow) : Prop :=
  Instant w v' ∧ Grows v v' ∧ ∀ amount, newDecimal group.contributionAmount = .ok amount →
    ∀ m ∈ w.rest.memberships, m.groupId = group.id →
      w.rest.contributions.find? (pays (missedBy group m)) = none →
        Penalized v'.penalties (missedBy group m)

theorem comes_assessPenaltiesForRound (hv : Instant w v)
    (hgroup : w.rest.groups.row group.id = some group) :
    ∃ x, Comes exec pid (assessPenaltiesForRound group.id group.currentRound) x
      (fun v' => GroupAssessed w v v' group) () v := by
  obtain ⟨x, hx⟩ := comes_assessMembers pid group hv
    (w.rest.memberships.filter (·.groupId = group.id))
  have hfound : (Query.findGroup group.id).read v = some group := by
    change v.rest.groups.row group.id = _
    rw [hv.rest, hgroup]
  have hmembers : (Query.findMemberships group.id).read v =
      w.rest.memberships.filter (·.groupId = group.id) := by
    change v.rest.memberships.filter _ = _
    rw [hv.rest]
  refine ⟨x, Comes.bind (comes_read rfl) ?_⟩
  rintro _ rfl
  rw [hfound]
  refine Comes.bind (R := (v = ·)) (Comes.pure rfl) ?_
  rintro _ rfl
  refine Comes.bind (comes_read rfl) ?_
  rintro _ rfl
  rw [hmembers]
  refine hx.mono fun v' hv' => ⟨hv'.during, hv'.grows, fun amount h m hm hmgroup hnone => ?_⟩
  exact (hv'.penalized amount h).2 m (List.mem_filter.mpr ⟨hm, decide_eq_true hmgroup⟩) hnone

/-- Whatever becomes of one group, the loop goes on to the next. -/
theorem comes_assessGroups (hv : Instant w v) (groups : List GroupRow)
    (hgroups : ∀ group ∈ groups, w.rest.groups.row group.id = some group) :
    ∃ n, Comes exec pid (assessGroups groups) (.ok n) (fun v' => Instant w v' ∧ Grows v v' ∧
      ∀ group ∈ groups, ∃ v₁ v₂, GroupAssessed w v₁ v₂ group ∧ Grows v₂ v') () v := by
  induction groups generalizing v with
  | nil => exact ⟨(0, 0), Comes.pure ⟨hv, fun _ hp => hp, fun _ hg => absurd hg List.not_mem_nil⟩⟩
  | cons group groups ih =>
    obtain ⟨hgroup, hgroups⟩ := List.forall_mem_cons.mp hgroups
    obtain ⟨x, v₁, halone₁, hv₁⟩ := comes_assessPenaltiesForRound pid group hv hgroup
    obtain ⟨n, v₂, halone₂, hv₂, hgrows, hdone⟩ := ih hv₁.1 hgroups
    have hall := List.forall_mem_cons.mpr ⟨⟨v, v₁, hv₁, hgrows⟩, hdone⟩
    cases x with
    | ok count =>
      refine ⟨(1 + n.1, count + n.2), v₂, ?_, hv₂, hv₁.2.1.trans hgrows, hall⟩
      have houtcome := Comes.tried (m := do
          let penaltyCount ← assessPenaltiesForRound group.id group.currentRound
          pure (1, penaltyCount)) (f := fun _ => pure (0, 0)) (a := (1, count))
        (Comes.bind (R := (v₁ = ·)) ⟨v₁, halone₁, rfl⟩ fun v' hv' => Comes.pure hv')
      obtain ⟨_, houtcome, rfl⟩ := houtcome
      exact houtcome.bind (halone₂.bind (.ret _ v₂))
    | error e =>
      refine ⟨(0 + n.1, 0 + n.2), v₂, ?_, hv₂, hv₁.2.1.trans hgrows, hall⟩
      have houtcome := Comes.caught (m := do
          let penaltyCount ← assessPenaltiesForRound group.id group.currentRound
          pure (1, penaltyCount)) (f := fun _ => pure (0, 0)) (R := (v₁ = ·))
        (Comes.bind_error ⟨v₁, halone₁, rfl⟩) fun v' hv' => Comes.pure hv'
      obtain ⟨_, houtcome, rfl⟩ := houtcome
      exact houtcome.bind (halone₂.bind (.ret _ v₂))

/-- **The job penalizes** every member that has missed the round of an active group. -/
theorem comes_assessPenalties (w : World) :
    ∃ n, Comes exec pid assessPenalties (.ok n) (fun v => Instant w v ∧
      ∀ group, w.rest.groups.row group.id = some group → group.status = .active →
        ∀ amount, newDecimal group.contributionAmount = .ok amount →
          ∀ m ∈ w.rest.memberships, Misses w group m →
            Penalized v.penalties (missedBy group m)) () w := by
  obtain ⟨n, hn⟩ := comes_assessGroups pid (w := w) (v := w)
    ⟨rfl, rfl, fun _ _ hp => .inl hp, le_rfl⟩ (w.rest.groups.filter (·.status = .active))
    fun group hgroup => (w.rest.groups.mem_filter.mp hgroup).1
  refine ⟨n, Comes.bind (comes_read rfl) ?_⟩
  rintro _ rfl
  refine hn.mono fun v ⟨hv, _, hdone⟩ => ⟨hv, fun group hrow hactive amount h m hm hmisses => ?_⟩
  obtain ⟨v₁, v₂, ⟨-, -, hpenalized⟩, hgrows⟩ :=
    hdone group (w.rest.groups.mem_filter.mpr ⟨hrow, decide_eq_true hactive⟩)
  exact hgrows _ (hpenalized amount h m hm hmisses.1 hmisses.2.1)

end Early

/-- **When the job is on time**: in every active group that is not late, all members have
contributed to the current round or have a penalty for it, or the amount does not parse. -/
theorem onTime_iff (pid : ℕ) (w : World) : OnTime pid w ↔
    ∀ group, w.rest.groups.row group.id = some group → group.status = .active →
      MayBeAssessed w group := by
  refine ⟨fun h group hrow hactive => ?_, onTime_of_mayBeAssessed⟩
  by_contra hmay
  obtain ⟨hlate, hparses, hmisses⟩ : group.isLate w.clock ≠ true ∧
      (¬ ∀ amount, newDecimal group.contributionAmount ≠ .ok amount) ∧
        ¬ ∀ m ∈ w.rest.memberships, ¬ Misses w group m :=
    ⟨fun h => hmay (.inl h), fun h => hmay (.inr (.inl h)), fun h => hmay (.inr (.inr h))⟩
  obtain ⟨amount, hamount⟩ := not_forall_not.mp hparses
  push Not at hmisses
  obtain ⟨m, hm, hmissed⟩ := hmisses
  obtain ⟨n, v, halone, hv, hpenalized⟩ := comes_assessPenalties pid w
  obtain ⟨i, p, hp, hpm⟩ := hpenalized group hrow hactive amount hamount m hm hmissed
  obtain ⟨hnew, hdue⟩ := (hv.created i p hp).resolve_left fun hold =>
    absurd (decide_eq_true hpm) (Bool.not_eq_true _ ▸ Table.find?_eq_none.mp hmissed.2.2 i p hold)
  obtain ⟨group', hrow', -, hlate', -⟩ := h _ v halone i p hp hnew
  have hsame : group' = group := by
    rw [show p.groupId = group.id from congrArg Missed.groupId hpm, hrow] at hrow'
    exact (Option.some.inj hrow').symm
  rw [Penalty.assessedAt, hdue, add_sub_cancel_right, hsame] at hlate'
  exact hlate hlate'

/-- The job runs at the start of a round that lasts a week. -/
theorem not_onTime : ¬ ∀ pid w, OnTime pid w := by
  intro hall
  have halone : Alone exec 0 (assessPenalties ()) Sample.world (.ok (1, 1), ()) _ :=
    alone_of_replay (show Prog.replay exec 0 (List.replicate 5 .done ++ [.time 0, .done, .done])
      (assessPenalties ()) Sample.world = some _ from rfl)
  obtain ⟨group, hgroup, -, hlate, -⟩ := hall 0 Sample.world _ _ halone 0 _ rfl rfl
  obtain rfl : Sample.group = group := Option.some.inj hgroup
  have hlate : Sample.group.isLate 0 = true := hlate
  exact absurd hlate (by decide +kernel)

end Ahjoor.Penalties
