import Ahjoor.Async.Stopping
import Ahjoor.Contributions.Payments

/-!
# Transfer jobs that are tried again

`handleTransferEvent` records the contribution, marks the membership as paid, and takes the first of
the two for the sign that both are done. An attempt that fails before the first of them, or after
the second, leaves a state from which the next attempt finishes the job; one that fails in between
leaves a member without credit, whatever is tried afterwards.
-/

namespace Ahjoor

open Async

variable {event : TransferEvent} {pid : ℕ} {w w₁ w' : World} {d : Database} {m : Membership}
  {g : Group}

/-! ### What a job has to do -/

/-- The `where` of the job's lookup of its contribution. -/
def TransferEvent.recorded (event : TransferEvent) : ContributionWhere :=
  { transactionHash := some event.transactionHash }

/-- The `where` of the job's lookup of the membership. -/
def TransferEvent.ofRecipient (event : TransferEvent) : MembershipWhere :=
  { walletAddress := some event.recipient }

/-- The contribution that the job records. -/
def TransferEvent.contribution (event : TransferEvent) (m : Membership) (g : Group) (timestamp : ℕ) :
    Contribution where
  id := 0
  groupId := g.id
  userId := m.userId
  walletAddress := event.recipient
  roundNumber := g.currentRound
  amount := event.amount
  transactionHash := event.transactionHash
  timestamp := timestamp

/-- The membership that the job saves. -/
def Membership.paid (m : Membership) : Membership :=
  { m with hasPaidCurrentRound := true, contributionsMade := m.contributionsMade + 1 }

theorem Membership.paid_ne (m : Membership) : m.paid ≠ m := by
  intro h
  have hmade : m.contributionsMade + 1 = m.contributionsMade :=
    congrArg Membership.contributionsMade h
  omega

/-- The job has a contribution to record, for this member of this group. -/
structure Due (event : TransferEvent) (d : Database) (m : Membership) (g : Group) : Prop where
  new : d.contributions.find? event.recorded.selects = none
  member : d.memberships.find? event.ofRecipient.selects = some m
  group : d.groups.row m.groupId = some g
  active : g.status = .active

/-- The tables with one more contribution. -/
def Database.withContribution (d : Database) (c : Contribution) : Database :=
  { d with contributions := (d.contributions.insert c).2 }

/-- The tables after the job is done. -/
def Database.credited (d : Database) (c : Contribution) (m : Membership) : Database :=
  { d.withContribution c with memberships := d.memberships.put m.paid }

theorem Due.unique {m' : Membership} {g' : Group} (h : Due event d m g) (h' : Due event d m' g') :
    m = m' ∧ g = g' := by
  obtain rfl := Option.some.inj (h.member.symm.trans h'.member)
  exact ⟨rfl, Option.some.inj (h.group.symm.trans h'.group)⟩

theorem Due.row_member (h : Due event d m g) : d.memberships.row m.id = some m :=
  (Store.Table.of_find?_eq_some h.member).1

/-- Once it is recorded, the contribution is found. -/
theorem find?_withContribution (event : TransferEvent) (m : Membership) (g : Group) (t : ℕ) :
    (d.withContribution (event.contribution m g t)).contributions.find? event.recorded.selects ≠
      none := by
  intro hnone
  have hself : (d.withContribution (event.contribution m g t)).contributions.row
      d.contributions.next = some { event.contribution m g t with id := d.contributions.next } :=
    d.contributions.row_put_self { event.contribution m g t with id := d.contributions.next }
  have hselects := Store.Table.find?_eq_none.mp hnone _ _ hself
  simp [TransferEvent.recorded, TransferEvent.contribution, ContributionWhere.selects, given]
    at hselects

/-- It is the only one. -/
theorem filter_withContribution (hnew : d.contributions.find? event.recorded.selects = none)
    (m : Membership) (g : Group) (t : ℕ) :
    ((d.withContribution (event.contribution m g t)).contributions.filter
      event.recorded.selects).length = 1 := by
  have hold : d.contributions.rows.filter event.recorded.selects = [] :=
    List.filter_eq_nil_iff.mpr (List.find?_eq_none.mp hnew)
  have hrows : (d.withContribution (event.contribution m g t)).contributions.rows = _ :=
    d.contributions.rows_insert (event.contribution m g t)
  have hselects : event.recorded.selects (Store.Entity.withId d.contributions.next
      (event.contribution m g t)) = true := by
    simp [TransferEvent.recorded, ContributionWhere.selects, given, TransferEvent.contribution,
      Store.Entity.withId]
  rw [Store.Table.filter, hrows, List.filter_append, hold, List.nil_append,
    List.filter_cons_of_pos hselects]
  rfl

/-! ### One attempt -/

/-- The tables that attempts can leave. -/
inductive Reached (event : TransferEvent) (pid : ℕ) (w : World) (now : ℕ) (d : Database) : Prop
  | untouched (hdb : d = w.db)
  /-- the contribution is recorded, but the membership is not saved -/
  | recorded {m : Membership} {g : Group} {t : ℕ} (hdue : Due event w.db m g)
      (hfree : w.db.contributionConflict (w.db.contributions.insert (event.contribution m g t)).1 = none)
      (hafter : w.clock ≤ t) (hnow : t ≤ now)
      (hdb : d = w.db.withContribution (event.contribution m g t))
  /-- both are done -/
  | credited {m : Membership} {g : Group} {t : ℕ} (hdue : Due event w.db m g)
      (hfree : w.db.contributionConflict (w.db.contributions.insert (event.contribution m g t)).1 = none)
      (hafter : w.clock ≤ t) (hnow : t ≤ now)
      (hunblocked : w.blocked pid (.saveMembership m.paid) = false)
      (hdb : d = w.db.credited (event.contribution m g t) m)

/-- What attempts can leave. -/
structure Left (event : TransferEvent) (pid : ℕ) (w w' : World) : Prop where
  sessions : w'.sessions = w.sessions
  clock : w.clock ≤ w'.clock
  reached : Reached event pid w w'.clock w'.db

/-- What an attempt leaves that succeeds. -/
structure Attended (event : TransferEvent) (pid : ℕ) (w w' : World) : Prop where
  left : Left event pid w w'
  done : ∀ m g, Due event w.db m g → w'.db ≠ w.db ∧ w'.db.memberships ≠ w.db.memberships

theorem Left.refl (w : World) : Left event pid w w := ⟨rfl, le_rfl, .untouched rfl⟩

theorem exec_db_cases {q : Query} {choice : Choice} {r : Except Exc q.Ret}
    (h : exec (.db q) pid choice w = some (r, w')) :
    (w' = w ∧ ∃ e, r = .error e) ∨ (w.blocked pid q = false ∧
      w' = { w with db := (q.eval w.db).2 } ∧ (r = (q.eval w.db).1 ∨ ∃ e, r = .error e)) := by
  cases choice with
  | done =>
    rw [exec] at h
    split at h
    · cases h
    next hunblocked =>
      cases h
      exact .inr ⟨Bool.eq_false_iff.mpr hunblocked, rfl, .inl rfl⟩
  | fails msg =>
    cases h
    exact .inl ⟨rfl, _, rfl⟩
  | lost msg =>
    rw [exec] at h
    split at h
    · cases h
    next hunblocked =>
      cases h
      exact .inr ⟨Bool.eq_false_iff.mpr hunblocked, rfl, .inr ⟨_, rfl⟩⟩
  | _ => cases h

section Attempt

variable {σ : Type} {C : World → Prop} {s : σ}

theorem throughout_query {q : Query} {Q : q.Ret → σ → World → Prop} (hC : C w)
    (h : ∀ w', w.blocked pid q = false → w' = { w with db := (q.eval w.db).2 } →
      C w' ∧ ∀ a, (q.eval w.db).1 = .ok a → Q a s w') :
    Throughout exec pid C (query q : Service σ q.Ret) Q s w := by
  refine Throughout.call hC fun choice r w' hexec => ?_
  rcases exec_db_cases hexec with ⟨rfl, e, rfl⟩ | ⟨hunblocked, hw', rfl | ⟨e, rfl⟩⟩
  · exact ⟨hC, fun a ha => by cases ha⟩
  · exact h w' hunblocked hw'
  · exact ⟨(h w' hunblocked hw').1, fun a ha => by cases ha⟩

theorem throughout_read {q : Query} (hq : q.isRead = true) {Q : q.Ret → σ → World → Prop} (hC : C w)
    (h : ∀ a, (q.eval w.db).1 = .ok a → Q a s w) :
    Throughout exec pid C (query q : Service σ q.Ret) Q s w := by
  refine throughout_query hC fun w' _ hw' => ?_
  obtain rfl : w' = w := by
    rw [hw', Query.eval_of_isRead hq]
  exact ⟨hC, h⟩

/-- A constraint refuses the contribution, or it is stored. -/
theorem throughout_insertContribution {c : Contribution} {Q : Contribution → σ → World → Prop}
    (hC : C w) (h : w.db.contributionConflict (w.db.contributions.insert c).1 = none →
      ∀ w', w' = { w with db := w.db.withContribution c } → C w' ∧ ∀ stored, Q stored s w') :
    Throughout exec pid C (query (.insertContribution c) : Service σ Contribution) Q s w := by
  refine throughout_query (q := .insertContribution c) hC fun w' _ hw' => ?_
  cases hconflict : w.db.contributionConflict (w.db.contributions.insert c).1 with
  | some constraint =>
    have heval : (Query.insertContribution c).eval w.db =
        (.error (.uniqueViolation constraint), w.db) := by
      simp only [Query.eval, hconflict]
    rw [heval] at hw' ⊢
    exact ⟨hw' ▸ hC, fun a ha => by cases ha⟩
  | none =>
    have heval : (Query.insertContribution c).eval w.db =
        (.ok (w.db.contributions.insert c).1, w.db.withContribution c) := by
      simp only [Query.eval, hconflict]
      rfl
    rw [heval] at hw'
    obtain ⟨hC', hQ⟩ := h hconflict w' hw'
    exact ⟨hC', fun stored _ => hQ stored⟩

theorem throughout_dateNow {Q : ℕ → σ → World → Prop} (hC : C w)
    (h : ∀ t, w.clock ≤ t → C { w with clock := t } ∧ Q t s { w with clock := t }) :
    Throughout exec pid C (dateNow : Service σ ℕ) Q s w := by
  refine Throughout.perform hC fun choice t w' hexec => ?_
  cases choice with
  | time t' =>
    rw [exec] at hexec
    split at hexec
    next hle =>
      obtain ⟨rfl, rfl⟩ := Prod.mk.inj (Option.some.inj hexec)
      exact h t' hle
    next => cases hexec
  | _ => cases hexec

end Attempt

/-- **What an attempt leaves**, wherever it fails. -/
theorem throughout_handleTransferEvent (w : World) :
    Throughout exec pid (Left event pid w) (EventSyncProcessor.handleTransferEvent event)
      (fun _ _ => Attended event pid w) () w := by
  have hskip : (∀ m g, ¬ Due event w.db m g) → Attended event pid w w :=
    fun hnot => ⟨.refl w, fun m g hdue => absurd hdue (hnot m g)⟩
  refine Throughout.bind (throughout_read rfl (.refl w) fun existing hexisting => ?_)
  obtain rfl : w.db.contributions.find? event.recorded.selects = existing := Except.ok.inj hexisting
  split
  next hsome =>
    refine Throughout.pure (.refl w) (hskip fun m g hdue => ?_)
    rw [hdue.new] at hsome
    cases hsome
  next hnone =>
  have hnew : w.db.contributions.find? event.recorded.selects = none :=
    Option.not_isSome_iff_eq_none.mp hnone
  refine Throughout.bind (throughout_read rfl (.refl w) fun membership? hmember => ?_)
  replace hmember : w.db.memberships.find? event.ofRecipient.selects = membership? :=
    Except.ok.inj hmember
  cases membership? with
  | none =>
    refine Throughout.pure (.refl w) (hskip fun m g hdue => ?_)
    rw [hdue.member] at hmember
    cases hmember
  | some m =>
  refine Throughout.bind (throughout_read rfl (.refl w) fun group? hgroup => ?_)
  replace hgroup : w.db.groups.row m.groupId = group? := Except.ok.inj hgroup
  cases group? with
  | none =>
    refine Throughout.pure (.refl w) (hskip fun m' g hdue => ?_)
    obtain rfl := Option.some.inj (hmember.symm.trans hdue.member)
    rw [hdue.group] at hgroup
    cases hgroup
  | some g =>
  refine Throughout.ite (fun hstatus => ?_) fun hstatus => ?_
  · refine Throughout.pure (.refl w) (hskip fun m' g' hdue => hstatus ?_)
    obtain rfl := Option.some.inj (hmember.symm.trans hdue.member)
    obtain rfl := Option.some.inj (hgroup.symm.trans hdue.group)
    exact hdue.active
  have hdue : Due event w.db m g := ⟨hnew, hmember, hgroup, not_not.mp hstatus⟩
  refine Throughout.bind (throughout_dateNow (.refl w) fun t ht => ?_)
  have hleft : Left event pid w { w with clock := t } := ⟨rfl, ht, .untouched rfl⟩
  refine ⟨hleft, Throughout.bind (throughout_insertContribution (c := event.contribution m g t) hleft
    fun hfree w₁ hw₁ => ?_)⟩
  have hrecorded : Left event pid w w₁ := by
    subst hw₁
    exact ⟨rfl, ht, .recorded hdue hfree ht le_rfl rfl⟩
  refine ⟨hrecorded, fun _ => throughout_query (q := .saveMembership m.paid) hrecorded
    fun w₂ hunblocked hw₂ => ?_⟩
  subst hw₁
  have hcredited : Left event pid w w₂ := by
    subst hw₂
    exact ⟨rfl, ht, .credited hdue hfree ht le_rfl hunblocked rfl⟩
  refine ⟨hcredited, fun _ _ => ⟨hcredited, fun m' g' _ => ?_⟩⟩
  have hput : w₂.db.memberships.row m.id = some m.paid := by
    subst hw₂
    exact w.db.memberships.row_put_self m.paid
  have hne : w₂.db.memberships ≠ w.db.memberships := fun h =>
    m.paid_ne (Option.some.inj (hput.symm.trans ((congrArg (·.row m.id) h).trans hdue.row_member)))
  exact ⟨fun h => hne (congrArg Database.memberships h), hne⟩

/-! ### An attempt that succeeds -/

section Possible

theorem not_blocked_of_conflicts {q : Query} (h : ∀ q', q.conflicts w.db q' = false) :
    w.blocked pid q = false := by
  rw [World.blocked, List.any_eq_false]
  intro s _ hany
  obtain ⟨q', -, hconflicts⟩ := List.any_eq_true.mp hany
  rw [h q'] at hconflicts
  cases hconflicts

theorem possible_query_ok {σ : Type} {s : σ} {q : Query} {a : q.Ret} {Q : q.Ret → σ → World → Prop}
    (hunblocked : w.blocked pid q = false) (hq : (q.eval w.db).1 = .ok a)
    (h : Q a s { w with db := (q.eval w.db).2 }) :
    Possible exec pid (query q : Service σ q.Ret) Q s w := by
  refine Possible.call .done ?_ hq h
  rw [exec, if_neg (by rw [hunblocked]; decide)]

theorem possible_read_ok {σ : Type} {s : σ} {q : Query} {a : q.Ret} {Q : q.Ret → σ → World → Prop}
    (hread : q.isRead = true) (hq : (q.eval w.db).1 = .ok a) (h : Q a s w) :
    Possible exec pid (query q : Service σ q.Ret) Q s w := by
  refine possible_query_ok (not_blocked_of_conflicts fun q' => ?_) hq ?_
  · cases q <;> first | rfl | cases hread
  · rwa [Query.eval_of_isRead hread]

/-- Without anything to do, an attempt can succeed that changes nothing. -/
theorem possible_skip (hnot : ∀ m g, ¬ Due event w.db m g) :
    Possible exec pid (EventSyncProcessor.handleTransferEvent event)
      (fun _ _ w' => w'.db = w.db) () w := by
  refine Possible.bind (possible_read_ok rfl rfl ?_)
  refine Possible.ite (fun _ => Possible.pure rfl) fun hnone => ?_
  have hnew : w.db.contributions.find? event.recorded.selects = none :=
    Option.not_isSome_iff_eq_none.mp hnone
  cases hmember : w.db.memberships.find? event.ofRecipient.selects with
  | none => exact Possible.bind (possible_read_ok rfl (congrArg Except.ok hmember) (Possible.pure rfl))
  | some m =>
  refine Possible.bind (possible_read_ok rfl (congrArg Except.ok hmember) ?_)
  cases hgroup : w.db.groups.row m.groupId with
  | none => exact Possible.bind (possible_read_ok rfl (congrArg Except.ok hgroup) (Possible.pure rfl))
  | some g =>
  refine Possible.bind (possible_read_ok rfl (congrArg Except.ok hgroup) ?_)
  refine Possible.ite (fun _ => Possible.pure rfl) fun hactive => ?_
  exact absurd ⟨hnew, hmember, hgroup, not_not.mp hactive⟩ (hnot m g)

/-- An attempt can do both at an instant, unless a constraint or another transaction is in the
way. -/
theorem possible_credited (hdue : Due event w.db m g) {t : ℕ} (ht : w.clock ≤ t)
    (hfree : w.db.contributionConflict
      (w.db.contributions.insert (event.contribution m g t)).1 = none)
    (hunblocked : w.blocked pid (.saveMembership m.paid) = false) :
    Possible exec pid (EventSyncProcessor.handleTransferEvent event)
      (fun _ _ w' => w'.db = w.db.credited (event.contribution m g t) m) () w := by
  have hinsert : (Query.insertContribution (event.contribution m g t)).eval w.db =
      (.ok (w.db.contributions.insert (event.contribution m g t)).1,
        w.db.withContribution (event.contribution m g t)) := by
    simp only [Query.eval, hfree]
    rfl
  refine Possible.bind (possible_read_ok rfl (congrArg Except.ok hdue.new) ?_)
  refine Possible.bind (possible_read_ok rfl (congrArg Except.ok hdue.member) ?_)
  refine Possible.bind (possible_read_ok rfl (congrArg Except.ok hdue.group) ?_)
  refine Possible.ite (fun hinactive => absurd hdue.active hinactive) fun _ => ?_
  refine Possible.bind (Possible.perform (.time t) (if_pos ht) ?_)
  refine Possible.bind (possible_query_ok (q := .insertContribution (event.contribution m g t))
    (not_blocked_of_conflicts fun _ => rfl) (congrArg Prod.fst hinsert) ?_)
  refine possible_query_ok (q := .saveMembership m.paid) (a := ()) ?_ rfl ?_
  · rw [← hunblocked, World.blocked, World.blocked]
    simp only [hinsert]
    rfl
  · simp only [hinsert]
    rfl

end Possible

/-! ### Attempts one after another -/

/-- An attempt starts in `w` and fails, or is cut short, in `w'`. -/
def Attempted (event : TransferEvent) (pid : ℕ) (w w' : World) : Prop :=
  Stops exec pid ((EventSyncProcessor.handleTransferEvent event : Service Unit Unit) ()) w w'

/-- An attempt from `w` succeeds in `w'`. -/
def Succeeds (event : TransferEvent) (pid : ℕ) (w w' : World) : Prop :=
  Alone exec pid ((EventSyncProcessor.handleTransferEvent event : Service Unit Unit) ()) w
    (.ok (), ()) w'

theorem Left.of_attempted (h : Attempted event pid w w') : Left event pid w w' :=
  (throughout_handleTransferEvent w).stops w' h

theorem Attended.of_succeeds (h : Succeeds event pid w w') : Attended event pid w w' :=
  (throughout_handleTransferEvent w).ends () () w' h

/-- What has been recorded is not due. -/
theorem Left.not_due (h : Left event pid w w₁) (hne : w₁.db ≠ w.db) : ∀ m g, ¬ Due event w₁.db m g := by
  intro m' g' hdue
  cases h.reached with
  | untouched hdb => exact hne hdb
  | @recorded m g t _ _ _ _ hdb =>
    refine find?_withContribution (d := w.db) event m g t ?_
    rw [← hdb]
    exact hdue.new
  | @credited m g t _ _ _ _ _ hdb =>
    refine find?_withContribution (d := w.db) event m g t ?_
    have hnew := hdue.new
    rw [hdb] at hnew
    exact hnew

theorem Left.trans (h : Left event pid w w₁) (h' : Left event pid w₁ w') : Left event pid w w' := by
  refine ⟨h'.sessions.trans h.sessions, h.clock.trans h'.clock, ?_⟩
  have hle := h.clock
  have hle' := h'.clock
  by_cases hsame : w₁.db = w.db
  · have hblocked : ∀ q, w₁.blocked pid q = w.blocked pid q := by
      intro q
      rw [World.blocked, World.blocked, World.sessionsWithout, World.sessionsWithout, h.sessions, hsame]
    cases h'.reached with
    | untouched hdb => exact .untouched (hdb.trans hsame)
    | recorded hdue hfree hafter hnow hdb =>
      rw [hsame] at hdue hfree hdb
      exact .recorded hdue hfree (by omega) hnow hdb
    | credited hdue hfree hafter hnow hunblocked hdb =>
      rw [hsame] at hdue hfree hdb
      rw [hblocked] at hunblocked
      exact .credited hdue hfree (by omega) hnow hunblocked hdb
  · have hdb : w'.db = w₁.db := by
      cases h'.reached with
      | untouched hdb => exact hdb
      | recorded hdue => exact absurd hdue (h.not_due hsame _ _)
      | credited hdue => exact absurd hdue (h.not_due hsame _ _)
    rw [hdb]
    cases h.reached with
    | untouched hdb => exact .untouched hdb
    | recorded hdue hfree hafter hnow hdb => exact .recorded hdue hfree hafter (by omega) hdb
    | credited hdue hfree hafter hnow hunblocked hdb =>
      exact .credited hdue hfree hafter (by omega) hunblocked hdb

/-- **What attempts leave**, however many fail. -/
theorem Left.of_attempts (h : Relation.ReflTransGen (Attempted event pid) w w') :
    Left event pid w w' := by
  induction h with
  | refl => exact .refl w
  | tail _ hlast ih => exact ih.trans (.of_attempted hlast)

/-! ### What is claimed -/

/-- **The job is finished as one attempt would have finished it**: the tables are those that one
attempt could have left, and if a contribution was due, there is one for the transaction, and the
member has been credited for it once. -/
structure FinishedAsOnce (event : TransferEvent) (pid : ℕ) (w w' : World) : Prop where
  once : ∃ w₁, Succeeds event pid w w₁ ∧ w₁.db = w'.db
  credited : ∀ m g, Due event w.db m g →
    (w'.db.contributions.filter event.recorded.selects).length = 1 ∧
      w'.db.memberships.row m.id = some
        { m with hasPaidCurrentRound := true, contributionsMade := m.contributionsMade + 1 }

/-- The attempts have recorded the contribution, and have left the memberships as they were. -/
structure HalfDone (event : TransferEvent) (d d₁ : Database) : Prop where
  new : d.contributions.find? event.recorded.selects = none
  recorded : d₁.contributions.find? event.recorded.selects ≠ none
  memberships : d₁.memberships = d.memberships

theorem succeeds_of_possible {P : World → Prop}
    (h : Possible exec pid (EventSyncProcessor.handleTransferEvent event) (fun _ _ => P) () w) :
    ∃ w', Succeeds event pid w w' ∧ P w' := by
  obtain ⟨_, _, w', halone, hP⟩ := h
  exact ⟨w', halone, hP⟩

theorem Attended.untouched (h : Attended event pid w w') (hnot : ∀ m g, ¬ Due event w.db m g) :
    w'.db = w.db := by
  cases h.left.reached with
  | untouched hdb => exact hdb
  | recorded hdue => exact absurd hdue (hnot _ _)
  | credited hdue => exact absurd hdue (hnot _ _)

/-- Where the job has credited the member, it is finished. -/
theorem finishedAsOnce_of_credited {t : ℕ} (hdue : Due event w.db m g) (ht : w.clock ≤ t)
    (hfree : w.db.contributionConflict
      (w.db.contributions.insert (event.contribution m g t)).1 = none)
    (hunblocked : w.blocked pid (.saveMembership m.paid) = false)
    (hdb : w'.db = w.db.credited (event.contribution m g t) m) : FinishedAsOnce event pid w w' := by
  refine ⟨?_, fun m' g' hdue' => ?_⟩
  · obtain ⟨w₁, hw₁, hdb₁⟩ := succeeds_of_possible (possible_credited hdue ht hfree hunblocked)
    exact ⟨w₁, hw₁, hdb₁.trans hdb.symm⟩
  · obtain ⟨rfl, rfl⟩ := hdue.unique hdue'
    rw [hdb]
    exact ⟨filter_withContribution hdue.new m g t, w.db.memberships.row_put_self m.paid⟩

/-- **When trying again finishes the job**: exactly when the attempts that failed have not left it
half done. -/
theorem finishedAsOnce_iff (hretries : Relation.ReflTransGen (Attempted event pid) w w₁)
    (hlast : Succeeds event pid w₁ w') :
    FinishedAsOnce event pid w w' ↔ ¬ HalfDone event w.db w₁.db := by
  have hleft : Left event pid w w₁ := Left.of_attempts hretries
  have hattended := Attended.of_succeeds hlast
  constructor
  · rintro ⟨-, hcredited⟩ ⟨hnew, hrecorded, hmemberships⟩
    have hchanged : w₁.db ≠ w.db := by
      intro h
      rw [h] at hrecorded
      exact hrecorded hnew
    have hdb : w'.db = w₁.db := hattended.untouched (hleft.not_due hchanged)
    have hdue : ∃ m g, Due event w.db m g := by
      cases hleft.reached with
      | untouched hdb => exact absurd hdb hchanged
      | recorded hdue => exact ⟨_, _, hdue⟩
      | credited hdue => exact ⟨_, _, hdue⟩
    obtain ⟨m, g, hdue⟩ := hdue
    have hpaid : w'.db.memberships.row m.id = some m.paid := (hcredited m g hdue).2
    rw [hdb, hmemberships, hdue.row_member] at hpaid
    exact m.paid_ne (Option.some.inj hpaid).symm
  · intro hhalf
    have hnotRecorded : ∀ {m g t}, Due event w.db m g →
        w₁.db ≠ w.db.withContribution (event.contribution m g t) := by
      intro m g t hdue hdb
      refine hhalf ⟨hdue.new, ?_, ?_⟩
      · rw [hdb]
        exact find?_withContribution event m g t
      · rw [hdb]
        rfl
    cases hleft.reached with
    | recorded hdue _ _ _ hdb => exact absurd hdb (hnotRecorded hdue)
    | @credited m g t hdue hfree hafter hnow hunblocked hdb =>
      have hchanged : w₁.db ≠ w.db := by
        intro h
        have hrow : w₁.db.memberships.row m.id = some m.paid := by
          rw [hdb]
          exact w.db.memberships.row_put_self m.paid
        rw [h, hdue.row_member] at hrow
        exact m.paid_ne (Option.some.inj hrow).symm
      have hlastDb : w'.db = w₁.db := hattended.untouched (hleft.not_due hchanged)
      exact finishedAsOnce_of_credited hdue hafter hfree hunblocked (hlastDb.trans hdb)
    | untouched hdb =>
      -- the last attempt does what one attempt from the beginning would have done
      by_cases hnot : ∀ m g, ¬ Due event w.db m g
      · have hnot₁ : ∀ m g, ¬ Due event w₁.db m g := hdb ▸ hnot
        have hskip : ∃ w₂, Succeeds event pid w w₂ ∧ w₂.db = w.db :=
          succeeds_of_possible (possible_skip hnot)
        obtain ⟨w₂, hw₂, hdb₂⟩ := hskip
        have hlastDb : w'.db = w.db := (hattended.untouched hnot₁).trans hdb
        exact ⟨⟨w₂, hw₂, hdb₂.trans hlastDb.symm⟩, fun m g hdue => absurd hdue (hnot m g)⟩
      · obtain ⟨m, g, hdue⟩ : ∃ m g, Due event w.db m g := by
          by_contra hnone
          exact hnot fun m g hdue => hnone ⟨m, g, hdue⟩
        have hdue₁ : Due event w₁.db m g := hdb ▸ hdue
        have hmemberships := (hattended.done m g hdue₁).2
        rw [hdb] at hmemberships
        have hboth : Left event pid w w' := hleft.trans hattended.left
        cases hboth.reached with
        | untouched hdb' => exact absurd (congrArg Database.memberships hdb') hmemberships
        | recorded _ _ _ _ hdb' => exact absurd (by rw [hdb']; rfl) hmemberships
        | credited hdue' hfree hafter hnow hunblocked hdb' =>
          exact finishedAsOnce_of_credited hdue' hafter hfree hunblocked hdb'

namespace Sample

/-- A transfer by the member of the group. -/
def transfer : TransferEvent where
  sender := "C"
  recipient := "G0"
  amount := "100"
  transactionHash := "hash"

/-- The group, whose member has not paid. -/
def unpaidWorld : World := world group [{ member with hasPaidCurrentRound := false }]

/-- One attempt, in which the operations do what the choices say. -/
def attempt (choices : List Choice) (w : World) : Option ((Except Exc Unit × Unit) × World) :=
  Prog.replay exec 0 choices
    ((EventSyncProcessor.handleTransferEvent transfer : Service Unit Unit) ()) w

/-- The contribution could not be stored. -/
def refused : List Choice := [.done, .done, .done, .time 0, .fails "timeout"]

/-- The contribution has been stored, the membership could not be saved. -/
def interrupted : List Choice := [.done, .done, .done, .time 0, .done, .fails "timeout"]

/-- Two attempts: the first one fails in a world that `p` accepts, the second one succeeds in one
that `p'` accepts. -/
def tried (first second : List Choice) (p p' : World → Bool) : Bool :=
  (attempt first unpaidWorld).any fun x =>
    p x.2 && (attempt second x.2).any fun y => y.1.1.isOk && p' y.2

theorem exists_of_tried (first second : List Choice) (p p' : World → Bool)
    (h : tried first second p p' = true) : ∃ w₁ w', Attempted transfer 0 unpaidWorld w₁ ∧
      Succeeds transfer 0 w₁ w' ∧ p w₁ = true ∧ p' w' = true := by
  obtain ⟨⟨x, w₁⟩, hfirst, hand⟩ := System.exists_of_any h
  obtain ⟨hp, hsecond⟩ := Bool.and_eq_true_iff.mp hand
  obtain ⟨⟨⟨y, ⟨⟩⟩, w'⟩, hlast, hand'⟩ := System.exists_of_any hsecond
  obtain ⟨hok, hp'⟩ := Bool.and_eq_true_iff.mp hand'
  cases y with
  | error e => cases hok
  | ok a => exact ⟨w₁, w', (alone_of_replay hfirst).stops, alone_of_replay hlast, hp, hp'⟩

end Sample

/-- An attempt fails before the contribution is stored, and the next one finishes the job. -/
theorem finishedAsOnce_sample : ∃ w₁ w', Attempted Sample.transfer 0 Sample.unpaidWorld w₁ ∧
    Succeeds Sample.transfer 0 w₁ w' ∧
      FinishedAsOnce Sample.transfer 0 Sample.unpaidWorld w' := by
  obtain ⟨w₁, w', hfirst, hlast, hnone, -⟩ := Sample.exists_of_tried Sample.refused
    [.done, .done, .done, .time 0, .done, .done]
    (fun w => (w.db.contributions.find? Sample.transfer.recorded.selects).isNone) (fun _ => true)
    (by decide +kernel)
  refine ⟨w₁, w', hfirst, hlast, (finishedAsOnce_iff (.single hfirst) hlast).mpr fun hhalf => ?_⟩
  exact hhalf.recorded (Option.isNone_iff_eq_none.mp hnone)

/-- An attempt fails after the contribution is stored: the next one succeeds, and the member is
never credited. -/
theorem not_finishedAsOnce : ¬ ∀ event pid w w₁ w',
    Relation.ReflTransGen (Attempted event pid) w w₁ → Succeeds event pid w₁ w' →
      FinishedAsOnce event pid w w' := by
  intro hall
  obtain ⟨w₁, w', hfirst, hlast, -, hunpaid⟩ := Sample.exists_of_tried Sample.interrupted [.done]
    (fun _ => true) (fun w => (w.db.memberships.row 0).any fun m => m.contributionsMade == 0)
    (by decide +kernel)
  obtain ⟨-, hcredited⟩ := hall Sample.transfer 0 Sample.unpaidWorld w₁ w' (.single hfirst) hlast
  have hdue : Due Sample.transfer Sample.unpaidWorld.db
      { Sample.member with hasPaidCurrentRound := false } Sample.group :=
    ⟨by decide +kernel, by decide +kernel, by decide +kernel, rfl⟩
  have hrow : w'.db.memberships.row 0 = _ := (hcredited _ _ hdue).2
  rw [hrow] at hunpaid
  cases hunpaid

end Ahjoor
