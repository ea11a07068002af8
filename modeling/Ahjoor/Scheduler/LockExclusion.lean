import Ahjoor.Scheduler.DistributedLock

/-!
# When the scheduler lock excludes

Nothing in the service keeps a second call from setting a lock that is held, so exclusion is a
matter of the schedule: if no lock is set while another call is between setting and releasing it,
then there is at most one such call at any time, and a call that releases in time deletes its own
lock.
-/

namespace Ahjoor.DistributedLock

open Async

variable {τ ε : Type}

/-! ### What a call has done -/

/-- A call deletes the key that it has set, after its function. -/
def May (L : Log (Op.Ret τ ε)) : Op → Prop
  | .del key => ∃ (result : Except ε τ) (value : String) (ttlSeconds now : ℤ),
      L = [⟨.task, result⟩, ⟨.existsKey key, (true : Bool)⟩, ⟨.set key value ttlSeconds, ()⟩,
        ⟨.dateNow, now⟩]
  | _ => True

theorem follows_body (c : Call) :
    Follows (May (τ := τ) (ε := ε)) (fun _ _ => True) ((system τ ε).body c) [] := by
  cases c with
  | elapse ms => exact ⟨trivial, fun _ => trivial⟩
  | withLock lockName ttlSeconds =>
    refine ⟨trivial, fun now => ⟨trivial, fun _ => ⟨trivial, fun acquired => ?_⟩⟩⟩
    cases acquired with
    | false => exact trivial
    | true =>
      refine ⟨trivial, fun result => ⟨⟨result, _, ttlSeconds, now, rfl⟩, fun _ => ?_⟩⟩
      cases result with
      | ok a => exact trivial
      | error e => exact trivial

/-- The key of the lock that a log ends with. -/
def setKey : Entry (Op.Ret τ ε) → Option String
  | ⟨.set key _ _, _⟩ => some key
  | _ => none

theorem lockOf_key (pid : ℕ) (es : Events τ ε) :
    (lockOf pid es).map Lock.key = (log pid es).findSome? setKey := by
  induction es with
  | nil => rfl
  | cons e es ih =>
    rw [lockOf, List.findSome?_cons]
    cases e with
    | start p c | returned p a | crashed p => exact ih
    | did p o r w =>
      by_cases hp : p = pid
      · subst hp
        rw [log_did_self, List.findSome?_cons]
        cases o with
        | set key value ttlSeconds => simp [lockSet, setKey]
        | dateNow | existsKey key | del key | task | elapse ms => exact ih
      · rw [log_cons_of_ne (e := .did p o r w) hp]
        cases o with
        | set key value ttlSeconds =>
          rw [lockSet, if_neg hp]
          exact ih
        | dateNow | existsKey key | del key | task | elapse ms => exact ih

/-! ### Who is engaged -/

theorem clock_of_exec {o : Op} {pid : ℕ} {choice : Choice τ ε} {w w' : World} {r : o.Ret τ ε}
    (h : exec o pid choice w = some (r, w')) : w.clock ≤ w'.clock := by
  cases o with
  | elapse ms =>
    cases choice <;> cases h
    change w.clock ≤ w.clock + ms
    omega
  | dateNow | set key value ttlSeconds | existsKey key | del key | task =>
    cases choice <;> cases h <;> exact Int.le_refl w.clock

/-- The event sets a lock for the call. -/
def sets (key : String) (pid : ℕ) : Event (Op.Ret τ ε) World Call (Except ε (Option τ)) → Bool
  | .did p (.set key' _ _) _ _ => p = pid && key' = key
  | _ => false

theorem lockSet_key {pid : ℕ} {lock : Lock}
    {e : Event (Op.Ret τ ε) World Call (Except ε (Option τ))} (h : lockSet pid e = some lock) :
    sets lock.key pid e = true := by
  cases e with
  | start p c | returned p a | crashed p => cases h
  | did p o r w =>
    cases o with
    | set key value ttlSeconds =>
      rw [lockSet] at h
      split_ifs at h with hp
      cases h
      simp [sets, hp]
    | dateNow | existsKey key | del key | task | elapse ms => cases h

/-- What has elapsed stays so. -/
theorem Lock.elapsed_mono {lock : Lock} {now later : ℤ} (hle : now ≤ later)
    (h : lock.elapsed now = true) : lock.elapsed later = true := by
  simp only [Lock.elapsed, Bool.and_eq_true, decide_eq_true_eq] at h ⊢
  exact ⟨h.1, by omega⟩

/-- A call that is engaged after a step was so before, or **sets the lock** in the step. -/
theorem engaged_of_push {h : History τ ε} {e : Event (Op.Ret τ ε) World Call (Except ε (Option τ))}
    {w : World} {key : String} {pid : ℕ} (hle : h.world.clock ≤ w.clock)
    (hengaged : engaged (h.push e w) key pid = true) :
    engaged h key pid = true ∨ sets key pid e = true := by
  simp only [engaged, Hist.push_trace, Hist.push_world, Bool.and_eq_true, List.any_cons,
    Bool.not_or, lockOf, List.findSome?_cons] at hengaged
  obtain ⟨hlock, -, hover⟩ := hengaged
  cases hset : lockSet pid e with
  | some lock =>
    rw [hset] at hlock
    simp only [Option.any_some, Bool.and_eq_true, decide_eq_true_eq] at hlock
    exact Or.inr (hlock.1 ▸ lockSet_key hset)
  | none =>
    left
    rw [hset] at hlock
    obtain ⟨lock, hfound, hlock⟩ := System.exists_of_any hlock
    simp only [Bool.and_eq_true, Bool.not_eq_true', decide_eq_true_eq] at hlock
    have hlive : lock.elapsed h.world.clock = false := by
      by_contra helapsed
      have hlater := Lock.elapsed_mono hle (by simpa using helapsed)
      exact absurd hlock.2 (by rw [hlater]; decide)
    simp only [engaged, lockOf, hfound, Option.any_some, hlock.1, hlive, hover]
    decide

/-- A call that is engaged has done something. -/
theorem exists_of_engaged {h : History τ ε} {key : String} {pid : ℕ} (hengaged : engaged h key pid) :
    ∃ e ∈ h.trace, e.pid = pid := by
  simp only [engaged, Bool.and_eq_true] at hengaged
  obtain ⟨lock, hfound, -⟩ := System.exists_of_any hengaged.1
  obtain ⟨e, he, hset⟩ := List.exists_of_findSome?_eq_some hfound
  refine ⟨e, he, ?_⟩
  have hsets := lockSet_key hset
  cases e with
  | start p c | returned p a | crashed p => cases hsets
  | did p o r w =>
    cases o with
    | set key value ttlSeconds => exact (of_decide_eq_true (Bool.and_eq_true_iff.mp hsets).1)
    | dateNow | existsKey key | del key | task | elapse ms => cases hsets

theorem contended_of_engaged {h : History τ ε} {key : String} {pid q : ℕ} (hne : q ≠ pid)
    (hengaged : engaged h key q) : contended h key pid = true := by
  obtain ⟨e, he, rfl⟩ := exists_of_engaged hengaged
  exact List.any_eq_true.mpr ⟨e, he, by simp [hne, hengaged]⟩

/-! ### Exclusion -/

/-- **At most one call is engaged**; and what has been deleted was no other call's lock. -/
structure Sole (h : History τ ε) : Prop where
  alone : ∀ key p q, engaged h key p → engaged h key q → p = q
  released : ∀ later pid key deleted w earlier,
    h.trace = later ++ Event.did pid (.del key) deleted w :: earlier →
      ∀ q, holds ⟨w, earlier⟩ key q → q = pid

section Steps

theorem sole_init (w : World) : Sole (⟨w, []⟩ : History τ ε) where
  alone := by
    intro key p q hp
    cases hp
  released := by
    intro later pid key deleted before earlier htrace
    exact absurd htrace.symm (List.append_ne_nil_of_right_ne_nil _ (List.cons_ne_nil _ _))

variable {h : History τ ε} {e : Event (Op.Ret τ ε) World Call (Except ε (Option τ))} {w : World}

/-- Where nothing is set. -/
theorem Sole.alone_of_quiet (hsole : Sole h) (hle : h.world.clock ≤ w.clock)
    (hquiet : ∀ key pid, sets key pid e = false) (key : String) (p q : ℕ)
    (hp : engaged (h.push e w) key p) (hq : engaged (h.push e w) key q) : p = q := by
  have hbefore : ∀ pid, engaged (h.push e w) key pid → engaged h key pid = true := by
    intro pid hpid
    refine (engaged_of_push hle hpid).resolve_right ?_
    rw [hquiet]
    decide
  exact hsole.alone key p q (hbefore p hp) (hbefore q hq)

/-- Where the lock is set **while no other call is engaged**. -/
theorem Sole.alone_of_set (hsole : Sole h) {pid : ℕ} {key value : String} {ttlSeconds : ℤ}
    {r : Unit} (hle : h.world.clock ≤ w.clock) (hfree : contended h key pid = false) (key' : String)
    (p q : ℕ) (hp : engaged (h.push (.did pid (.set key value ttlSeconds) r h.world) w) key' p)
    (hq : engaged (h.push (.did pid (.set key value ttlSeconds) r h.world) w) key' q) : p = q := by
  have hcases : ∀ q, engaged (h.push (.did pid (.set key value ttlSeconds) r h.world) w) key' q →
      engaged h key' q = true ∨ pid = q ∧ key = key' := by
    intro q hq
    refine (engaged_of_push hle hq).imp_right fun hsets => ?_
    simpa [sets] using hsets
  have hnot : ∀ q, key = key' → engaged h key' q = true → pid = q := by
    rintro q rfl hengaged
    by_contra hne
    rw [contended_of_engaged (Ne.symm hne) hengaged] at hfree
    cases hfree
  rcases hcases p hp with hp | ⟨rfl, hkey⟩ <;> rcases hcases q hq with hq | ⟨rfl, hkey'⟩
  · exact hsole.alone key' p q hp hq
  · exact (hnot p hkey' hp).symm
  · exact hnot q hkey hq
  · rfl

/-- Where nothing is deleted. -/
theorem Sole.released_of_quiet (hsole : Sole h)
    (hquiet : ∀ pid key deleted w, e ≠ .did pid (.del key) deleted w) (later : Events τ ε) (pid : ℕ)
    (key : String) (deleted : ℕ) (before : World) (earlier : Events τ ε)
    (htrace : (h.push e w).trace = later ++ Event.did pid (.del key) deleted before :: earlier) (q : ℕ)
    (hq : holds ⟨before, earlier⟩ key q) : q = pid := by
  cases later with
  | nil => exact absurd (List.cons.inj htrace).1 (hquiet _ _ _ _)
  | cons e' later =>
    exact hsole.released later pid key deleted before earlier (List.cons.inj htrace).2 q hq

/-- A call that deletes the key **in time is engaged itself**. -/
theorem engaged_of_may {pid : ℕ} {key : String}
    (hlive : ∀ e ∈ h.trace, e.isEnd = true → e.pid ≠ pid) (hmay : May (log pid h.trace) (.del key))
    (helapsed : (lockOf pid h.trace).any (·.elapsed h.world.clock) = false) :
    engaged h key pid = true := by
  obtain ⟨result, value, ttlSeconds, now, hlog⟩ := hmay
  have hkey := lockOf_key pid h.trace
  rw [hlog] at hkey
  obtain ⟨lock, hlock, rfl⟩ := Option.map_eq_some_iff.mp hkey
  have hover : h.trace.any (isOver pid) = false := by
    rw [List.any_eq_false]
    intro e he hover
    simp only [isOver, Bool.and_eq_true, decide_eq_true_eq] at hover
    obtain ⟨hpid, hover⟩ := hover
    cases e with
    | start p c => cases hover
    | returned p a | crashed p => exact hlive _ he rfl hpid
    | did p o r w =>
      cases o with
      | del key' =>
        have hmem : ⟨.del key', r⟩ ∈ log pid h.trace := mem_log.mpr ⟨w, hpid ▸ he⟩
        rw [hlog] at hmem
        simp at hmem
      | set key value ttlSeconds | dateNow | existsKey key | task | elapse ms => cases hover
  rw [hlock, Option.any_some] at helapsed
  simp only [engaged, hlock, Option.any_some, helapsed, hover]
  decide

/-- **The step**: by what is set and what is deleted. -/
theorem Sole.step (hsole : Sole h) {h' : History τ ε}
    (hs : HistStep (system τ ε) (fun _ => May) h h') (hok : uncontended h h' = true) : Sole h' := by
  cases hs with
  | idle e he hlive =>
    cases e with
    | did p o r w =>
      have hlog := he p []
      rw [log_did_self] at hlog
      exact absurd hlog (List.cons_ne_nil _ _)
    | start p c | returned p a | crashed p =>
      exact ⟨hsole.alone_of_quiet (Int.le_refl _) fun _ _ => rfl,
        hsole.released_of_quiet fun _ _ _ _ hdel => by cases hdel⟩
  | did pid c o choice r w hstart hD hexec hlive =>
    have hle : h.world.clock ≤ w.clock := clock_of_exec hexec
    cases o with
    | set key value ttlSeconds =>
      have hfree : contended h key pid = false := Bool.not_eq_true' _ ▸ hok
      exact ⟨hsole.alone_of_set hle hfree,
        hsole.released_of_quiet fun _ _ _ _ hdel => by cases hdel⟩
    | del key =>
      refine ⟨hsole.alone_of_quiet hle fun _ _ => rfl, fun later p key' deleted before earlier htrace q hq => ?_⟩
      cases later with
      | cons e' later =>
        exact hsole.released later p key' deleted before earlier (List.cons.inj htrace).2 q hq
      | nil =>
        cases htrace
        have hengaged : engaged h key q := (Bool.and_eq_true_iff.mp hq).1
        by_contra hne
        have hcontended := contended_of_engaged hne hengaged
        cases helapsed : (lockOf pid h.trace).any (·.elapsed h.world.clock) with
        | false => exact hne (hsole.alone key q pid hengaged (engaged_of_may hlive hD helapsed))
        | true =>
          -- a call that is late deletes the key only if it is alone
          simp only [uncontended, Hist.push_trace, helapsed, hcontended] at hok
          cases hok
    | dateNow | existsKey key | task | elapse ms =>
      exact ⟨hsole.alone_of_quiet hle fun _ _ => rfl,
        hsole.released_of_quiet fun _ _ _ _ hdel => by cases hdel⟩

end Steps

/-- **The scheduler lock excludes** in every run in which no lock is set, and none is deleted late,
while another call is between setting it and releasing it. -/
theorem excludes_of_uncontended {w : World} {s : State (Op.Ret τ ε) World Call (Except ε (Option τ))}
    (hs : (system τ ε).ReachableWhen (fun h h' => uncontended h h' = true) (.init w) s) :
    Excludes s.hist := by
  have hsole : Sole s.hist :=
    hist_invariant (I := Sole) follows_body (sole_init w)
      (fun _ _ _ _ hsole hstep hok => hsole.step hstep hok) hs
  have hengaged : ∀ key p, runs s.hist key p = true → engaged s.hist key p = true := by
    intro key p hruns
    exact (Bool.and_eq_true_iff.mp (Bool.and_eq_true_iff.mp hruns).1).1
  exact ⟨fun lockName p q hp hq => hsole.alone _ p q (hengaged _ p hp) (hengaged _ q hq),
    fun later pid lockName => hsole.released later pid (lockKey lockName)⟩

/-! ### Two schedules -/

/-- Two calls one after the other, the first of which is late. -/
def orderly : List (Move (Choice Unit String) Call) :=
  [.start (.withLock "advance-rounds" 60), .run 0 .succeeds, .run 0 .succeeds, .run 0 .succeeds,
    .start (.elapse 70000), .run 1 .succeeds, .run 0 (.ends (.ok ())), .run 0 .succeeds, .finish 0,
    .start (.withLock "advance-rounds" 60), .run 2 .succeeds, .run 2 .succeeds, .run 2 .succeeds]

theorem excludes_of_uncontended_sample :
    ∃ s, (system Unit String).ReachableWhen (fun h h' => uncontended h h' = true)
        (.init ⟨0, fun _ => none⟩) s ∧
      runs s.hist (lockKey "advance-rounds") 2 = true ∧ Excludes s.hist := by
  obtain ⟨s, hs, hruns⟩ := System.exists_of_replay (system Unit String)
    (fun h h' => uncontended h h' = true) (.init ⟨0, fun _ => none⟩) orderly
    (fun s => runs s.hist (lockKey "advance-rounds") 2) (by decide +kernel)
  exact ⟨s, hs, hruns, excludes_of_uncontended hs⟩

/-- Two calls at once. -/
def overlapping : List (Move (Choice Unit String) Call) :=
  [.start (.withLock "advance-rounds" 300), .run 0 .succeeds, .run 0 .succeeds, .run 0 .succeeds,
    .start (.withLock "advance-rounds" 300), .run 1 .succeeds, .run 1 .succeeds, .run 1 .succeeds]

/-- **Two instances advance the rounds at once.** -/
theorem not_excludes :
    ¬ ∀ s, (system Unit String).Reachable (.init ⟨0, fun _ => none⟩) s → Excludes s.hist := by
  intro h
  obtain ⟨s, hs, hruns⟩ := System.exists_of_replay (system Unit String) (fun _ _ => True)
    (.init ⟨0, fun _ => none⟩) overlapping
    (fun s => runs s.hist (lockKey "advance-rounds") 0 && runs s.hist (lockKey "advance-rounds") 1)
    (by decide +kernel)
  obtain ⟨hfirst, hsecond⟩ := Bool.and_eq_true_iff.mp hruns
  exact absurd ((h s hs).alone "advance-rounds" 0 1 hfirst hsecond) (by decide)

end Ahjoor.DistributedLock
