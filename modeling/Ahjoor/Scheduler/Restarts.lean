import Ahjoor.Scheduler.Services

/-!
# What moves a deadline

The deadline of a round is counted from `updatedAt`, which every save of a changed row sets. So it
does not go back while the row stays as it is, and it starts again when any column changes, also
in the middle of a round.
-/

namespace Ahjoor.Scheduler

open Async

/-! ### Versions of the row -/

/-- The row is as it was, or its latest version was stored at `t` or later. -/
def StoredSince (t : ℤ) (w w' : World) : Prop :=
  w'.versions = w.versions ∨ ∃ row, w'.group = some row ∧ t ≤ row.updatedAt

section Stored

variable {o : Op} {pid : ℕ} {choice : Choice} {w w' : World} {r : o.Ret}

theorem storedSince_save (w : World) (group : GroupRow) :
    StoredSince w.clock w (w.save group) ∧ (w.save group).clock = w.clock := by
  rw [World.save]
  split_ifs
  · exact ⟨.inl rfl, rfl⟩
  · exact ⟨.inr ⟨_, rfl, le_rfl⟩, rfl⟩

theorem storedSince_write (o : Op) (w : World) :
    StoredSince w.clock w (o.write w) ∧ (o.write w).clock = w.clock := by
  cases o with
  | saveGroup group => exact storedSince_save w group
  | commit members group =>
    exact storedSince_save { w with members := w.members.saveAll members } group
  | increment =>
    rw [Op.write, World.increment]
    cases w.group with
    | none => exact ⟨.inl rfl, rfl⟩
    | some row => exact ⟨.inr ⟨_, rfl, le_rfl⟩, rfl⟩
  | _ => exact ⟨.inl rfl, rfl⟩

/-- **An operation** takes no time back, and the version that it stores is from its own instant. -/
theorem storedSince_of_exec (h : exec o pid choice w = some (r, w')) :
    StoredSince w.clock w w' ∧ w.clock ≤ w'.clock := by
  rcases world_of_exec h with rfl | rfl | ⟨-, t, hle, rfl⟩
  · exact (storedSince_write o w).imp_right fun hclock => hclock.ge
  · exact ⟨.inl rfl, le_rfl⟩
  · exact ⟨.inl rfl, hle⟩

end Stored

/-! ### Runs -/

section Runs

variable {cfg : Config} {s s' : SchedulerState}

/-- **A run** takes no time back, and every version stored in it is from its own time. -/
theorem storedSince_of_reachable (hr : (system cfg).Reachable s s') :
    StoredSince s.hist.world.clock s.hist.world s'.hist.world ∧
      s.hist.world.clock ≤ s'.hist.world.clock := by
  induction hr with
  | refl => exact ⟨.inl rfl, le_rfl⟩
  | tail _ hstep ih =>
    obtain ⟨⟨m, hm⟩, -⟩ := hstep
    obtain ⟨hstored, hclock⟩ := ih
    cases System.stepKind_of_move hm with
    | start c => exact ⟨hstored, hclock⟩
    | finish pid a htask => exact ⟨hstored, hclock⟩
    | crash pid p htask => exact ⟨hstored, hclock⟩
    | run pid o k choice r w htask hexec =>
      obtain ⟨hnow, hlater⟩ := storedSince_of_exec hexec
      refine ⟨?_, hclock.trans hlater⟩
      rcases hnow with hsame | ⟨row, hrow, hle⟩
      · have hgroup : w.group = _ := congrArg List.head? hsame
        exact hstored.imp (hsame.trans ·) fun ⟨row, hrow, hle⟩ => ⟨row, hgroup.trans hrow, hle⟩
      · exact .inr ⟨row, hrow, hclock.trans hle⟩

/-- The deadline of the group's round has passed. -/
def DeadlinePassed (cfg : Config) (w : World) : Prop :=
  ∃ group, w.group = some group ∧ isDeadlinePassed group.timing w.clock cfg.gracePeriodHours = true

/-- The deadline of a round of the group that starts at `t`: the whole duration and the grace period
later. -/
def deadlineFrom (cfg : Config) (t : ℤ) (group : GroupRow) : ℚ :=
  deadlineMs { group.timing with updatedAt := t } cfg.gracePeriodHours

/-- **A deadline that has passed** stays so while the row is as it was. Once a changed row has been
stored, the new deadline is not before that of a round that has just started. -/
theorem passed_or_restarted (hr : (system cfg).Reachable s s')
    (hpassed : DeadlinePassed cfg s.hist.world) :
    (s'.hist.world.versions = s.hist.world.versions → DeadlinePassed cfg s'.hist.world) ∧
      (s'.hist.world.versions ≠ s.hist.world.versions → ∃ group,
        s'.hist.world.group = some group ∧ s.hist.world.clock ≤ group.updatedAt ∧
          deadlineFrom cfg s.hist.world.clock group ≤
            deadlineMs group.timing cfg.gracePeriodHours) := by
  obtain ⟨hstored, hclock⟩ := storedSince_of_reachable hr
  obtain ⟨group, hrow, hgroup⟩ := hpassed
  constructor
  · intro hsame
    have hrow' : s'.hist.world.group = some group := (congrArg List.head? hsame).trans hrow
    have hlate : deadlineMs group.timing cfg.gracePeriodHours ≤ s.hist.world.clock :=
      of_decide_eq_true hgroup
    exact ⟨group, hrow', decide_eq_true (hlate.trans (Int.cast_le.mpr hclock))⟩
  · intro hchanged
    obtain ⟨group', hrow', hle⟩ := hstored.resolve_left hchanged
    have hrestarted : deadlineFrom cfg s.hist.world.clock group' ≤
        deadlineMs group'.timing cfg.gracePeriodHours := deadlineMs_mono hle rfl
    exact ⟨group', hrow', hle, hrestarted⟩

end Runs

/-! ### A stale group -/

namespace Sample

/-- An active group of one-day rounds, stored at time 0. -/
def daily : GroupRow :=
  { monthly with
    roundDuration := 86400
    status := .active
    currentRound := 1 }

/-- The instant eight days later. -/
def eightDays : ℤ := 8 * 86400000

/-- The group waits for eight days. -/
def waiting : List (Move Choice Call) :=
  [.start .wait, .run 0 (.time eightDays), .finish 0]

/-- Then it is found to be stale. -/
def flagging : List (Move Choice Call) :=
  [.start .detectAndFlagStaleGroups, .run 1 (.time eightDays), .run 1 .done,
    .run 1 (.time eightDays), .run 1 .done, .run 1 .done, .finish 1]

instance (cfg : Config) (w : World) : Decidable (DeadlinePassed cfg w) :=
  decidable_of_iff (w.group.any (fun group => isDeadlinePassed group.timing w.clock cfg.gracePeriodHours) = true)
    ⟨System.exists_of_any, fun ⟨group, hrow, hpassed⟩ => by rw [hrow]; exact hpassed⟩

end Sample

/-- The step leaves the round of the group as it is. -/
def SameRound (h h' : SchedulerHist) : Prop :=
  h'.world.group.map (·.currentRound) = h.world.group.map (·.currentRound)

instance : DecidableRel SameRound := fun _ _ => inferInstanceAs (Decidable (_ = _))

/-- A deadline that has passed stays so for as long as the group is in the same round. -/
def StaysPassed (cfg : Config) : Prop :=
  ∀ w s s', (system cfg).Reachable (.init w) s → (system cfg).ReachableWhen SameRound s s' →
    DeadlinePassed cfg s.hist.world → DeadlinePassed cfg s'.hist.world

/-- Flagging the group as stale stores a new version, and the round has a day again. -/
theorem not_staysPassed : ¬ StaysPassed {} := by
  intro h
  obtain ⟨s, s', hr, hr', hpassed, hopen⟩ := System.exists_of_replay₂ (system {}) SameRound
    (.init { versions := [Sample.daily] }) Sample.waiting Sample.flagging
    (fun s => DeadlinePassed {} s.hist.world) (fun s => ¬ DeadlinePassed {} s.hist.world)
    (by decide +kernel)
  exact of_decide_eq_true hopen
    (h _ s s' (hr.mono fun _ _ _ => trivial) hr' (of_decide_eq_true hpassed))

/-- The same run, with the deadline that the flag has moved. -/
theorem passed_or_restarted_sample : ∃ s s' : SchedulerState,
    (system {}).Reachable s s' ∧ DeadlinePassed {} s.hist.world ∧
      ((s'.hist.world.versions = s.hist.world.versions → DeadlinePassed {} s'.hist.world) ∧
        (s'.hist.world.versions ≠ s.hist.world.versions → ∃ group,
          s'.hist.world.group = some group ∧ s.hist.world.clock ≤ group.updatedAt ∧
            deadlineFrom {} s.hist.world.clock group ≤ deadlineMs group.timing 0)) := by
  obtain ⟨s, s', -, hr', hpassed, -⟩ := System.exists_of_replay₂ (system {}) SameRound
    (.init { versions := [Sample.daily] }) Sample.waiting Sample.flagging
    (fun s => DeadlinePassed {} s.hist.world) (fun s => ¬ DeadlinePassed {} s.hist.world)
    (by decide +kernel)
  have hr : (system {}).Reachable s s' := hr'.mono fun _ _ _ => trivial
  exact ⟨s, s', hr, of_decide_eq_true hpassed,
    passed_or_restarted hr (of_decide_eq_true hpassed)⟩

end Ahjoor.Scheduler
