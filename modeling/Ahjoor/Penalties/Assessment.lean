import Ahjoor.Penalties.Saving

/-!
# One penalty for each missed round

An assessment looks for a penalty of the user for the round, and stores one if there is none. No
constraint stands behind this, so the lookup has to be as good as one at the insertion: nobody
else may store a penalty for the same user, group and round in between.
-/

namespace Ahjoor.Penalties

open Async Store

/-! ### What an operation does to the penalties -/

/-- What an operation leaves of the penalties. -/
def Op.write : Op → Table Penalty → Table Penalty
  | db q, t => q.write t
  | _, t => t

theorem penalties_of_exec {o : Op} {pid : ℕ} {choice : Choice} {w w' : World} {r : o.Ret}
    (h : exec o pid choice w = some (r, w')) :
    w'.penalties = w.penalties ∨ w'.penalties = o.write w.penalties := by
  cases o with
  | now =>
    cases choice with
    | time t =>
      rw [exec] at h
      split at h
      · cases h
        exact .inl rfl
      · cases h
    | _ => cases h
  | _ => cases choice <;> cases h <;> first | exact .inl rfl | exact .inr rfl

/-- A read tells what is in the tables. -/
theorem exec_db_ok {q : Query} {pid : ℕ} {choice : Choice} {w w' : World} {a : q.Ret}
    (h : exec (.db q) pid choice w = some (.ok a, w')) :
    a = q.read w ∧ w'.penalties = q.write w.penalties := by
  cases choice <;> cases h
  exact ⟨rfl, rfl⟩

variable {t t' : Table Penalty}

/-- The penalties of `t` are still there, for what they were, and what came later has later keys. -/
structure Extends (t t' : Table Penalty) : Prop where
  kept : ∀ i p, t.row i = some p → ∃ p', t'.row i = some p' ∧ p'.missed = p.missed
  old : ∀ i p', t'.row i = some p' → i < t.next → ∃ p, t.row i = some p ∧ p.missed = p'.missed
  next : t.next ≤ t'.next

theorem Extends.refl (t : Table Penalty) : Extends t t :=
  ⟨fun _ p hp => ⟨p, hp, rfl⟩, fun _ p hp _ => ⟨p, hp, rfl⟩, le_rfl⟩

theorem Extends.trans {t₁ t₂ t₃ : Table Penalty} (h : Extends t₁ t₂) (h' : Extends t₂ t₃) :
    Extends t₁ t₃ where
  kept i p hp := by
    obtain ⟨p₂, hp₂, hmissed⟩ := h.kept i p hp
    obtain ⟨p₃, hp₃, hmissed'⟩ := h'.kept i p₂ hp₂
    exact ⟨p₃, hp₃, hmissed'.trans hmissed⟩
  old i p hp hi := by
    obtain ⟨p₂, hp₂, hmissed⟩ := h'.old i p hp (hi.trans_le h.next)
    obtain ⟨p₁, hp₁, hmissed'⟩ := h.old i p₂ hp₂ hi
    exact ⟨p₁, hp₁, hmissed'.trans hmissed⟩
  next := h.next.trans h'.next

theorem Extends.insert (t : Table Penalty) (p : Penalty) : Extends t (t.insert p).2 where
  kept _ q hq := ⟨q, t.row_insert_of_row p hq, rfl⟩
  old i q hq hi := by
    have hne : i ≠ t.next := Nat.ne_of_lt hi
    exact ⟨q, (t.row_put_of_ne (a := { p with id := t.next }) hne).symm.trans hq, rfl⟩
  next := le_max_left ..

/-- A changed copy of a penalty that was read takes its place. -/
theorem Extends.put {p q q₀ : Penalty} (hp : p.SavedFrom q) (hq : t.row q.id = some q₀)
    (hmissed : q₀.missed = q.missed) : Extends t (t.put p) where
  kept i p' hp' := by
    by_cases hi : i = p.id
    · subst hi
      refine ⟨p, t.row_put_self p, hp.missed.trans ?_⟩
      rw [hp.id, hq] at hp'
      rw [← Option.some.inj hp', hmissed]
    · exact ⟨p', (t.row_put_of_ne hi).trans hp', rfl⟩
  old i p' hp' _ := by
    by_cases hi : i = p.id
    · subst hi
      obtain rfl := Option.some.inj ((t.row_put_self p).symm.trans hp')
      exact ⟨q₀, hp.id ▸ hq, hmissed.trans hp.missed.symm⟩
    · exact ⟨p', (t.row_put_of_ne hi).symm.trans hp', rfl⟩
  next := le_max_left ..

/-- What the calls have been shown is in the table. -/
def Known (h : PenaltiesHist) : Prop :=
  ∀ pid, ∀ q ∈ (log pid h.trace).flatMap shows, ∃ p, h.world.penalties.row q.id = some p ∧
    p.missed = q.missed

/-- A reply shows penalties that are in the table. -/
theorem shows_of_exec {o : Op} {pid : ℕ} {choice : Choice} {w w' : World} {r : o.Ret}
    (h : exec o pid choice w = some (r, w')) {q : Penalty} (hq : q ∈ shows ⟨o, r⟩) :
    w.penalties.row q.id = some q := by
  cases o with
  | db query =>
    cases query with
    | findPenalty id =>
      rcases r with e | _ | p
      · cases hq
      · cases hq
      · obtain rfl := List.mem_singleton.mp hq
        have hread : some q = w.penalties.row id := (exec_db_ok h).1
        rw [← w.penalties.id_of_row hread.symm] at hread
        exact hread.symm
    | findPending userId groupId =>
      rcases r with e | ps
      · cases hq
      · obtain rfl : ps = pendingPenalties w.penalties userId groupId := (exec_db_ok h).1
        exact ((w.penalties.mem_filter).mp ((List.perm_insertionSort ..).mem_iff.mp hq)).1
    | _ => cases hq
  | _ => cases hq

/-- **A step keeps the penalties** for what they are, if its call saves what it has read. -/
theorem extends_of_saves {L : Log Op.Ret} {o : Op} {pid : ℕ} {choice : Choice} {w w' : World} {r : o.Ret}
    (hknown : ∀ q ∈ L.flatMap shows, ∃ p, w.penalties.row q.id = some p ∧ p.missed = q.missed)
    (hD : Saves L o) (h : exec o pid choice w = some (r, w')) : Extends w.penalties w'.penalties := by
  rcases penalties_of_exec h with hsame | hwrite
  · exact hsame ▸ Extends.refl _
  · rw [hwrite]
    cases o with
    | db q =>
      cases q with
      | insertPenalty p => exact Extends.insert _ p
      | savePenalty p =>
        obtain ⟨q, hq, hp⟩ := hD
        obtain ⟨q₀, hrow, hmissed⟩ := hknown q hq
        exact Extends.put hp hrow hmissed
      | _ => exact Extends.refl _
    | _ => exact Extends.refl _

variable {Q : Call → Except Exc Unit → Log Op.Ret → Prop} {h h' : PenaltiesHist}

/-- A step keeps what the calls know. -/
theorem Known.step (hk : Known h) (hs : HistStep system (fun _ => Saves) h h') :
    Extends h.world.penalties h'.world.penalties ∧ Known h' := by
  cases hs with
  | idle e he hlive =>
    exact ⟨Extends.refl _, fun pid q hq => hk pid q ((he pid h.trace) ▸ hq)⟩
  | did pid c o choice r w hstart hD hexec hlive =>
    have hextends : Extends h.world.penalties w.penalties := extends_of_saves (hk pid) hD hexec
    refine ⟨hextends, fun p q hq => ?_⟩
    have hold : ∀ {L : Log Op.Ret}, (∀ q ∈ L.flatMap shows, ∃ p, h.world.penalties.row q.id = some p ∧
        p.missed = q.missed) → ∀ q ∈ L.flatMap shows, ∃ p, w.penalties.row q.id = some p ∧
          p.missed = q.missed := by
      intro L hL q hq
      obtain ⟨p, hrow, hmissed⟩ := hL q hq
      obtain ⟨p', hrow', hmissed'⟩ := hextends.kept _ p hrow
      exact ⟨p', hrow', hmissed'.trans hmissed⟩
    by_cases hp : pid = p
    · subst hp
      rw [Hist.push_trace, log_did_self, List.flatMap_cons] at hq
      rcases List.mem_append.mp hq with hq | hq
      · obtain ⟨p', hrow', hmissed'⟩ := hextends.kept _ q (shows_of_exec hexec hq)
        exact ⟨p', hrow', hmissed'⟩
      · exact hold (hk pid) q hq
    · rw [Hist.push_trace, log_cons_of_ne (e := .did pid o r h.world) hp] at hq
      exact hold (hk p) q hq

/-! ### Lookups -/

/-- The world at the last lookup of a call. -/
def lookupWorld (pid : ℕ) : List (Event Op.Ret World Call (Except Exc Unit)) → Option World
  | [] => none
  | .did p (.db (.findPenaltyFor _)) _ w :: es => if p = pid then some w else lookupWorld pid es
  | _ :: es => lookupWorld pid es

/-- **No overlap**: a penalty is stored only while no other penalty for the same user, group and
round has been stored since the call looked for one. -/
def undisturbed : List (Event Op.Ret World Call (Except Exc Unit)) → Bool
  | .did pid (.db (.insertPenalty p)) _ w :: es =>
      (lookupWorld pid es).all fun w₀ =>
        w.penalties.rows.all fun q => q.missed = p.missed → q.id < w₀.penalties.next
  | _ => true

/-- The condition on a step. -/
def Undisturbed (_ h' : PenaltiesHist) : Prop := undisturbed h'.trace = true

instance : DecidableRel Undisturbed := fun _ h' => inferInstanceAs (Decidable (undisturbed h'.trace = true))

/-- What the last lookup of a call was about is on record, with the tables as they were. -/
theorem lookupWorld_of_log {pid : ℕ} {es : List (Event Op.Ret World Call (Except Exc Unit))}
    {missed : Missed} (h : ((log pid es).filterMap lookup).head? = some (missed, true)) :
    ∃ w₀, lookupWorld pid es = some w₀ ∧
      .did pid (.db (.findPenaltyFor missed)) (.ok none) w₀ ∈ es := by
  induction es with
  | nil => cases h
  | cons e es ih =>
    -- an event that is no lookup of the call leaves everything to the earlier ones
    have hskip : lookupWorld pid (e :: es) = lookupWorld pid es →
        ((log pid (e :: es)).filterMap lookup).head? = ((log pid es).filterMap lookup).head? →
        ∃ w₀, lookupWorld pid (e :: es) = some w₀ ∧
          .did pid (.db (.findPenaltyFor missed)) (.ok none) w₀ ∈ e :: es := by
      intro hworld hlog
      obtain ⟨w₀, hw₀, hmem⟩ := ih (hlog ▸ h)
      exact ⟨w₀, hworld.trans hw₀, List.mem_cons_of_mem e hmem⟩
    cases e with
    | did p o r w =>
      by_cases hp : p = pid
      · subst hp
        cases o with
        | db q =>
          cases q with
          | findPenaltyFor missed' =>
            refine ⟨w, if_pos rfl, ?_⟩
            rw [log_did_self] at h
            rcases r with e | _ | found
            · cases h
            · obtain ⟨rfl, -⟩ := Prod.mk.inj (Option.some.inj h)
              exact List.mem_cons_self
            · cases h
          | _ => exact hskip rfl (by rw [log_did_self]; rfl)
        | _ => exact hskip rfl (by rw [log_did_self]; rfl)
      · refine hskip ?_ (by rw [log_cons_of_ne (e := .did p o r w) hp])
        cases o with
        | db q =>
          cases q with
          | findPenaltyFor missed' => exact if_neg hp
          | _ => rfl
        | _ => rfl
    | start p c => exact hskip rfl rfl
    | returned p a => exact hskip rfl rfl
    | crashed p => exact hskip rfl rfl

/-! ### One penalty each -/

/-- No two penalties are for the same user, group and round. -/
def OneEach (t : Table Penalty) : Prop :=
  ∀ i j p q, t.row i = some p → t.row j = some q → p.missed = q.missed → i = j

/-- A change of what is in the table keeps it so. -/
theorem OneEach.put (ht : OneEach t) {p q : Penalty} (hq : t.row p.id = some q)
    (hmissed : p.missed = q.missed) : OneEach (t.put p) := by
  have hold : ∀ i p', (t.put p).row i = some p' → ∃ p₀, t.row i = some p₀ ∧ p'.missed = p₀.missed := by
    intro i p' hp'
    by_cases hi : i = p.id
    · subst hi
      obtain rfl := Option.some.inj ((t.row_put_self p).symm.trans hp')
      exact ⟨q, hq, hmissed⟩
    · exact ⟨p', (t.row_put_of_ne hi).symm.trans hp', rfl⟩
  intro i j p' q' hp' hq' hsame
  obtain ⟨p₀, hp₀, hpm⟩ := hold i p' hp'
  obtain ⟨q₀, hq₀, hqm⟩ := hold j q' hq'
  exact ht i j p₀ q₀ hp₀ hq₀ (hpm.symm.trans (hsame.trans hqm))

/-- An insertion of what is not in the table keeps it so. -/
theorem OneEach.insert (ht : OneEach t) {p : Penalty}
    (hnew : ∀ i q, t.row i = some q → q.missed ≠ p.missed) : OneEach (t.insert p).2 := by
  have hold : ∀ i p', (t.insert p).2.row i = some p' →
      (i = t.next ∧ p'.missed = p.missed) ∨ t.row i = some p' := by
    intro i p' hp'
    change (t.put { p with id := t.next }).row i = some p' at hp'
    by_cases hi : i = t.next
    · subst hi
      obtain rfl := Option.some.inj ((t.row_put_self { p with id := t.next }).symm.trans hp')
      exact .inl ⟨rfl, rfl⟩
    · exact .inr ((t.row_put_of_ne (a := { p with id := t.next }) hi).symm.trans hp')
  intro i j p' q' hp' hq' hsame
  rcases hold i p' hp' with ⟨rfl, hpm⟩ | hp'
  · rcases hold j q' hq' with ⟨rfl, -⟩ | hq'
    · rfl
    · exact absurd (hsame.symm.trans hpm) (hnew j q' hq')
  · rcases hold j q' hq' with ⟨rfl, hqm⟩ | hq'
    · exact absurd (hsame.trans hqm) (hnew i p' hp')
    · exact ht i j p' q' hp' hq' hsame

/-- What holds in runs without overlap: the tables at the lookups are the beginnings of those now. -/
structure Assessed (h : PenaltiesHist) : Prop where
  known : Known h
  oneEach : OneEach h.world.penalties
  lookups : ∀ pid missed w₀, .did pid (.db (.findPenaltyFor missed)) (.ok none) w₀ ∈ h.trace →
    Extends w₀.penalties h.world.penalties ∧
      ∀ i q, w₀.penalties.row i = some q → q.missed ≠ missed

/-- At an insertion without overlap, what is inserted is not in the table. -/
theorem Assessed.new {h h' : PenaltiesHist} (ha : Assessed h) {pid : ℕ} {p : Penalty} {r : Except Exc Unit}
    (htrace : h'.trace = .did pid (.db (.insertPenalty p)) r h.world :: h.trace)
    (hD : Saves (log pid h.trace) (.db (.insertPenalty p))) (hok : Undisturbed h h') {i : ℕ}
    {q : Penalty} (hq : h.world.penalties.row i = some q) : q.missed ≠ p.missed := by
  intro hmissed
  obtain ⟨w₀, hw₀, hmem⟩ := lookupWorld_of_log hD.2
  obtain ⟨hextends, hnone⟩ := ha.lookups pid p.missed w₀ hmem
  rw [Undisturbed, htrace] at hok
  change (lookupWorld pid h.trace).all _ = true at hok
  rw [hw₀, Option.all_some, List.all_eq_true] at hok
  obtain rfl : q.id = i := h.world.penalties.id_of_row hq
  have hbefore : q.id < w₀.penalties.next :=
    of_decide_eq_true (hok q (h.world.penalties.mem_rows.mpr hq)) hmissed
  obtain ⟨q₀, hq₀, hsame⟩ := hextends.old q.id q hq hbefore
  exact hnone q.id q₀ hq₀ (hsame.trans hmissed)

theorem Assessed.step {h h' : PenaltiesHist} (ha : Assessed h)
    (hs : HistStep system (fun _ => Saves) h h') (hok : Undisturbed h h') : Assessed h' := by
  obtain ⟨hextends, hknown⟩ := ha.known.step hs
  have hlookups : ∀ pid missed w₀, .did pid (.db (.findPenaltyFor missed)) (.ok none) w₀ ∈ h.trace →
      Extends w₀.penalties h'.world.penalties ∧
        ∀ i q, w₀.penalties.row i = some q → q.missed ≠ missed := by
    intro pid missed w₀ hmem
    obtain ⟨hold, hnone⟩ := ha.lookups pid missed w₀ hmem
    exact ⟨hold.trans hextends, hnone⟩
  cases hs with
  | idle e he hlive =>
    refine ⟨hknown, ha.oneEach, fun pid missed w₀ hmem => ?_⟩
    refine hlookups pid missed w₀ ((List.mem_cons.mp hmem).resolve_left fun heq => ?_)
    subst heq
    exact List.cons_ne_nil _ _ ((log_did_self pid _ _ w₀ []).symm.trans (he pid []))
  | did pid c o choice r w hstart hD hexec hlive =>
    refine ⟨hknown, ?_, fun p missed w₀ hmem => ?_⟩
    · rcases penalties_of_exec hexec with hsame | hwrite
      · rw [Hist.push_world, hsame]
        exact ha.oneEach
      rw [Hist.push_world, hwrite]
      cases o with
      | db q =>
        cases q with
        | insertPenalty p => exact ha.oneEach.insert fun i q hq => ha.new rfl hD hok hq
        | savePenalty p =>
          obtain ⟨q, hq, hp⟩ := hD
          obtain ⟨q₀, hrow, hmissed⟩ := ha.known pid q hq
          exact ha.oneEach.put (hp.id ▸ hrow) (hp.missed.trans hmissed.symm)
        | _ => exact ha.oneEach
      | _ => exact ha.oneEach
    · rcases List.mem_cons.mp hmem with heq | hmem
      · obtain ⟨rfl, rfl, hr, rfl⟩ := Event.did.inj heq
        obtain rfl := eq_of_heq hr
        refine ⟨hextends, fun i q hq => ?_⟩
        have hread := (exec_db_ok hexec).1
        have hnone := Table.find?_eq_none.mp hread.symm i q hq
        exact of_decide_eq_false hnone
      · exact hlookups p missed w₀ hmem

/-- **One penalty for each missed round**: in every run of assessments, waivers, deductions and
disputes, whatever other services do in between, no two penalties are for the same user, group and
round, if no penalty is stored while another for the same has been stored since the lookup. -/
theorem oneEach_of_reachable {w : World} (hw : OneEach w.penalties) {s : PenaltiesState}
    (hs : system.ReachableWhen Undisturbed (.init w) s) : OneEach s.hist.world.penalties :=
  (hist_invariant (D := fun _ => Saves) (Q := fun _ _ _ => True) follows_saves (I := Assessed)
    ⟨fun _ _ hq => absurd hq List.not_mem_nil, hw, fun _ _ _ hmem => absurd hmem List.not_mem_nil⟩
    (fun _ _ _ _ ha hstep hok => ha.step hstep hok) hs).oneEach

namespace Sample

/-- An active group with one member, who has not paid for the first round. -/
def group : GroupRow where
  id := 0
  name := "group"
  adminWallet := "G1"
  contributionAmount := "100"
  status := .active
  currentRound := 1
  roundDuration := 604800
  updatedAt := 0

/-- The world with that group. -/
def world : World where
  rest := {
    groups := Table.empty.put group
    memberships := [{ id := 0, groupId := 0, userId := 1, walletAddress := "G1" }] }

/-- A call as far as its lookup of a penalty. -/
def looked (pid : ℕ) : List (Move Choice Call) := List.replicate 4 (.run pid .done)

/-- From there as far as the insertion. -/
def stored (pid : ℕ) : List (Move Choice Call) := [.run pid (.time 0), .run pid .done]

/-- Two assessments of the round, of which each has looked before the other stores. -/
def overlapping : List (Move Choice Call) :=
  .start (.assessPenaltiesForRound 0 1) :: .start .assessPenalties :: looked 0 ++
    .run 1 .done :: looked 1 ++ stored 0 ++ stored 1

/-- The same one after the other. -/
def oneByOne : List (Move Choice Call) :=
  .start (.assessPenaltiesForRound 0 1) :: .start .assessPenalties :: looked 0 ++ stored 0 ++
    .run 1 .done :: looked 1

theorem oneEach_world : OneEach world.penalties := by
  intro i j p q hp
  cases hp

end Sample

/-- Two assessments, one after the other, leave one penalty. -/
theorem oneEach_of_reachable_sample : ∃ s : PenaltiesState,
    system.ReachableWhen Undisturbed (.init Sample.world) s ∧
      s.hist.world.penalties.rows.length = 1 ∧ OneEach s.hist.world.penalties := by
  obtain ⟨s, hs, hlength⟩ := System.exists_of_replay system Undisturbed (.init Sample.world)
    Sample.oneByOne (fun s => s.hist.world.penalties.rows.length = 1) (by decide +kernel)
  exact ⟨s, hs, of_decide_eq_true hlength, oneEach_of_reachable Sample.oneEach_world hs⟩

/-- Two that overlap leave two. -/
theorem not_oneEach : ¬ ∀ w : World, OneEach w.penalties → ∀ s : PenaltiesState,
    system.Reachable (.init w) s → OneEach s.hist.world.penalties := by
  intro hall
  obtain ⟨s, hs, hrows⟩ := System.exists_of_replay system (fun _ _ => True) (.init Sample.world)
    Sample.overlapping (fun s => (s.hist.world.penalties.row 0).any fun p =>
      (s.hist.world.penalties.row 1).any fun q => p.missed = q.missed) (by decide +kernel)
  obtain ⟨p, hp, hrow⟩ := System.exists_of_any hrows
  obtain ⟨q, hq, hsame⟩ := System.exists_of_any hrow
  have hone := hall Sample.world Sample.oneEach_world s hs
  exact absurd (hone 0 1 p q hp hq (of_decide_eq_true hsame)) (by decide)

end Ahjoor.Penalties
