import Ahjoor.Async.Contract
import Ahjoor.Members.Positions

/-!
# Fairness of the waitlist

Calls that run one after another keep the waitlist fair, as long as every admission that goes
through admits all who wait, and no cancellation is left without its renumbering. An admission
that admits only some leaves the others with the positions that they had, and the next one to join
collides with them.
-/

namespace Ahjoor.Members

open Async

/-! ### Schedules -/

/-- Everything that was started has ended. -/
def AllEnded (h : MembersHist) : Prop :=
  ∀ e ∈ h.trace, ∃ e' ∈ h.trace, e'.isEnd = true ∧ e'.pid = e.pid

/-- The last commit is a cancellation, and somebody waits behind the cancelled entry. -/
def Unclosed (d : Tables) : Prop :=
  match d.log with
  | [.saveEntry entry] :: _ => ∃ e ∈ d.waiting, entry.position < e.position
  | _ => False

/-- The places that an admission has found were enough for all who wait. -/
def AdmitsAll (L : Log Op.Ret) (w : World) : Prop :=
  ∀ e ∈ L, match e.1 with
    | .lockWaiting limit => w.tables.waiting.length ≤ limit
    | _ => True

/-- Calls run one after another. -/
def OneAfterAnother (h h' : MembersHist) : Prop :=
  match h'.trace with
  | .start _ _ :: _ => AllEnded h
  | _ => True

/-- Calls run one after another, no cancellation is left without its renumbering, and an admission
that goes through has had enough places for all who wait. -/
def FairSchedule (h h' : MembersHist) : Prop :=
  match h'.trace with
  | .start _ _ :: _ => AllEnded h ∧ ¬ Unclosed h'.world.tables
  | .returned _ _ :: _ | .crashed _ :: _ => ¬ Unclosed h'.world.tables
  | .did pid .commitTransaction _ w :: _ => AdmitsAll (log pid h.trace) w
  | _ => True

instance (h : MembersHist) : Decidable (AllEnded h) :=
  inferInstanceAs (Decidable (∀ e ∈ h.trace, _))

instance (d : Tables) : Decidable (Unclosed d) := by
  unfold Unclosed
  split <;> infer_instance

instance (L : Log Op.Ret) (w : World) : Decidable (AdmitsAll L w) := by
  unfold AdmitsAll
  refine @List.decidableBAll _ _ (fun e => ?_) L
  split <;> infer_instance

instance : DecidableRel OneAfterAnother := fun h h' => by
  unfold OneAfterAnother
  split <;> infer_instance

instance : DecidableRel FairSchedule := fun h h' => by
  unfold FairSchedule
  split <;> infer_instance

/-! ### What is claimed -/

/-- A transaction takes those in who have joined the waitlist first. -/
def TakesEarliest (missing : OnMissing) (d : Tables) (xs : List Write) : Prop :=
  ∃ taken, d.waiting = taken ++ (d.commit missing xs).waiting ∧
    xs.filterMap Write.insertedUser = taken.map (·.userId)

/-- Between calls the waitlist is fair, and every admission has taken those who joined first. -/
structure WaitlistFair (missing : OnMissing) (s : MembersState) : Prop where
  fair : s.Quiet → Fair s.hist.world.tables
  earliest : ∀ pid maxToAdmit r w, Event.start pid (.admitFromWaitlist maxToAdmit) ∈ s.hist.trace →
    Event.did pid .commitTransaction r w ∈ s.hist.trace →
      ∀ xs ∈ w.pending pid, TakesEarliest missing w.tables xs

/-! ### Contracts -/

section

variable (missing : OnMissing)

/-- What the tables satisfy at any time: the waitlist is fair, or it has a gap that is about to be
closed. -/
def Stands (d : Tables) : Prop := Keyed d ∧ (Fair d ∨ Unclosed d)

/-- The contract of a call that runs alone. -/
def fairContract (pid : ℕ) (c : Call) : Contract Op.Ret World where
  rely := Eq
  guarantee _ w' := Stands w'.tables
  expects L o w := o = .commitTransaction → AdmitsAll L w
  asserts _ o w := o = .commitTransaction → ∀ maxToAdmit, c = .admitFromWaitlist maxToAdmit →
    ∀ xs ∈ w.pending pid, TakesEarliest missing w.tables xs
  rely_refl _ := rfl
  rely_trans := Eq.trans

end

variable {missing : OnMissing} {pid : ℕ} {c : Call} {w : World} {L : Log Op.Ret}

/-- The waitlist is fair, with distinct keys. -/
structure Even (d : Tables) : Prop where
  keyed : Keyed d
  fair : Fair d

theorem Even.stands {d : Tables} (hd : Even d) : Stands d := ⟨hd.keyed, .inl hd.fair⟩

theorem Even.of_waitlist {d d' : Tables} (hd : Even d) (h : d'.waitlist = d.waitlist)
    (hnext : d'.nextEntry = d.nextEntry) : Even d' :=
  ⟨⟨h ▸ hd.keyed.nodup, fun e he => hnext ▸ hd.keyed.lt_nextEntry e (h ▸ he)⟩,
    hd.fair.of_waiting (waiting_of_waitlist h)⟩

/-- Nothing is claimed of the result of a call. -/
abbrev Whatever {α : Type} : α → Unit → Log Op.Ret → World → Prop := fun _ _ _ _ => True

/-! ### Calls that leave the waitlist alone -/

/-- The operation changes no entry of the waitlist by itself. -/
def Op.sparesWaitlist : Op → Bool
  | .db (.write x) | .tx (.write x) => x.sparesWaitlist
  | .lockWaiting _ => false
  | _ => true

theorem even_execute {q : Query} (hq : (Op.db q).sparesWaitlist = true) (hw : Even w.tables) :
    Even (w.execute missing q).tables := by
  rcases execute_cases missing w q with hsame | ⟨x, rfl, -, hwrite⟩
  · rwa [hsame]
  · obtain ⟨h, hnext⟩ := waitlist_write missing w.tables hq
    rw [hwrite]
    exact hw.of_waitlist h hnext

theorem spares_of_mem_writes {q : Query} {d : Tables} (hq : (Op.tx q).sparesWaitlist = true)
    {x : Write} (hx : x ∈ (q.writes missing d).toList) : x.sparesWaitlist = true := by
  cases q with
  | write y =>
    change x ∈ (if (d.conflict missing y).isNone then some y else none).toList at hx
    split at hx
    · rw [Option.toList_some, List.mem_singleton] at hx
      rw [hx]
      exact hq
    · cases hx
  | _ => cases hx

/-- **Operations that spare the waitlist keep it fair.** -/
theorem even_step {o : Op} {choice : Choice} {r : o.Ret} {w' : World}
    (ho : o.sparesWaitlist = true) (hw : Even w.tables)
    (hpending : o = .commitTransaction → ∀ xs ∈ w.pending pid, ∀ x ∈ xs, x.sparesWaitlist = true)
    (hexec : exec missing o pid choice w = some (r, w')) : Even w'.tables := by
  cases o with
  | db q =>
    rcases exec_db hexec with ⟨rfl, -⟩ | ⟨-, rfl, -⟩
    · exact hw
    · exact even_execute ho hw
  | startTransaction => rcases exec_startTransaction hexec with ⟨rfl, -⟩ | ⟨-, rfl⟩ <;> exact hw
  | lockGroup => rcases exec_lockGroup hexec with ⟨rfl, -⟩ | ⟨-, -, -, -, rfl⟩ <;> exact hw
  | lockWaiting limit => cases ho
  | tx q => rcases exec_tx hexec with ⟨rfl, -⟩ | ⟨-, -, -, rfl⟩ <;> exact hw
  | commitTransaction =>
    rcases exec_commitTransaction hexec with ⟨rfl, -⟩ | ⟨xs, hxs, rfl, -⟩
    · exact hw
    · obtain ⟨h, hnext⟩ := waitlist_view missing w.tables (hpending rfl xs hxs)
      exact hw.of_waitlist h hnext
  | rollbackTransaction => rcases exec_rollbackTransaction hexec with rfl | rfl <;> exact hw
  | dropSession p =>
    obtain rfl := exec_dropSession hexec
    exact hw
  | notify n =>
    obtain rfl := exec_external (o := .notify n) rfl hexec
    exact hw
  | deployRoscaContract group =>
    obtain rfl := exec_external (o := .deployRoscaContract group) rfl hexec
    exact hw
  | dispatchEvent event =>
    obtain rfl := exec_external (o := .dispatchEvent event) rfl hexec
    exact hw

/-- What a transaction holds back spares the waitlist if its writes do. -/
theorem pending_step {o : Op} {choice : Choice} {r : o.Ret} {w' : World}
    (ho : o.sparesWaitlist = true)
    (hpending : ∀ xs ∈ w.pending pid, ∀ x ∈ xs, x.sparesWaitlist = true)
    (hexec : exec missing o pid choice w = some (r, w')) :
    ∀ xs ∈ w'.pending pid, ∀ x ∈ xs, x.sparesWaitlist = true := by
  cases o with
  | db q => rcases exec_db hexec with ⟨rfl, -⟩ | ⟨-, rfl, -⟩ <;> exact hpending
  | startTransaction =>
    rcases exec_startTransaction hexec with ⟨rfl, -⟩ | ⟨-, rfl⟩
    · exact hpending
    · intro xs hxs
      rw [pending_hold, Option.mem_some_iff] at hxs
      subst hxs
      exact fun x hx => absurd hx List.not_mem_nil
  | lockGroup => rcases exec_lockGroup hexec with ⟨rfl, -⟩ | ⟨-, -, -, -, rfl⟩ <;> exact hpending
  | lockWaiting limit => cases ho
  | tx q =>
    rcases exec_tx hexec with ⟨rfl, -⟩ | ⟨xs, hxs, -, rfl⟩
    · exact hpending
    · intro ys hys
      rw [pending_hold, Option.mem_some_iff] at hys
      subst hys
      intro x hx
      rcases List.mem_append.mp hx with hx | hx
      · exact hpending xs hxs x hx
      · exact spares_of_mem_writes ho hx
  | commitTransaction =>
    have hrelease := fun ys (hys : ys ∈ (w.release pid).pending pid) =>
      hpending ys (pending_release hys)
    rcases exec_commitTransaction hexec with ⟨rfl, -⟩ | ⟨xs, hxs, rfl, -⟩ <;> exact hrelease
  | rollbackTransaction =>
    rcases exec_rollbackTransaction hexec with rfl | rfl
    · exact hpending
    · exact fun ys hys => hpending ys (pending_release hys)
  | dropSession p =>
    obtain rfl := exec_dropSession hexec
    exact fun ys hys => hpending ys (pending_release hys)
  | notify n =>
    obtain rfl := exec_external (o := .notify n) rfl hexec
    exact hpending
  | deployRoscaContract group =>
    obtain rfl := exec_external (o := .deployRoscaContract group) rfl hexec
    exact hpending
  | dispatchEvent event =>
    obtain rfl := exec_external (o := .dispatchEvent event) rfl hexec
    exact hpending

/-- A call without a transaction that spares the waitlist. -/
theorem meets_spared {α : Type} {m : Service α}
    (hm : Routine.Uses (fun o => o.sparesWaitlist = true ∧ o ≠ .commitTransaction) m)
    (hw : Even w.tables) :
    Meets (exec missing) pid (fairContract missing pid c) m Whatever Whatever () L w := by
  refine (Meets.of_uses (J := fun w => Even w.tables) hm (fun w w' hw h => h ▸ hw)
    (fun L o w ho hw => ⟨fun h => absurd h ho.2, fun _ choice r w' hexec => ?_⟩) hw).mono
      (fun _ _ _ _ _ => trivial) fun _ _ _ _ _ => trivial
  have heven := even_step ho.1 hw (fun h => absurd h ho.2) hexec
  exact ⟨heven.stands, heven⟩

/-- A transaction that spares the waitlist. -/
theorem meets_spared_transaction {α : Type} {body : Service α}
    (hbody : Routine.Uses (fun o => o.sparesWaitlist = true) body) (hw : Even w.tables)
    (hc : ∀ maxToAdmit, c ≠ .admitFromWaitlist maxToAdmit) :
    Meets (exec missing) pid (fairContract missing pid c) (transaction body) Whatever Whatever ()
      L w := by
  refine Meets.bind (Meets.call ?_)
  rintro w₁ rfl
  refine ⟨(fun h => by cases h), fun _ choice r w' hexec => ?_⟩
  have hasserts : ∀ L o w, (fairContract missing pid c).asserts L o w :=
    fun L o w _ maxToAdmit h => absurd h (hc maxToAdmit)
  rcases exec_startTransaction hexec with ⟨rfl, e, rfl⟩ | ⟨rfl, rfl⟩
  · exact ⟨hw.stands, fun w₂ _ => trivial⟩
  · refine ⟨hw.stands, ?_⟩
    rintro w₂ rfl
    have hrest : Routine.Uses (fun o => o.sparesWaitlist = true)
        (tryCatch
          (do
            let result ← body
            Routine.call .commitTransaction fun r => r
            pure result)
          fun err => do
            Routine.call .rollbackTransaction fun _ => .ok ()
            throw err : Service α) :=
      Routine.uses_tryCatch (Routine.uses_bind hbody fun a =>
          Routine.uses_bind (Routine.uses_call rfl) fun _ => Routine.uses_pure a)
        fun _ => Routine.uses_bind (Routine.uses_call rfl) fun _ => Routine.uses_throw _
    have hstarted : ∀ xs ∈ (w.hold pid []).pending pid, ∀ x ∈ xs, x.sparesWaitlist = true := by
      intro xs hxs
      rw [pending_hold, Option.mem_some_iff] at hxs
      subst hxs
      exact fun x hx => absurd hx List.not_mem_nil
    refine (Meets.of_uses (J := fun w => Even w.tables ∧
      ∀ xs ∈ w.pending pid, ∀ x ∈ xs, x.sparesWaitlist = true) hrest (fun w w' hw h => h ▸ hw)
        (fun L o w ho hw => ⟨hasserts L o w, fun _ choice r w' hexec => ?_⟩) ⟨hw, hstarted⟩).mono
          (fun _ _ _ _ _ => trivial) fun _ _ _ _ _ => trivial
    have heven := even_step ho hw.1 (fun _ => hw.2) hexec
    exact ⟨heven.stands, heven, pending_step ho hw.2 hexec⟩

/-! ### The waitlist's own calls -/

/-- Reading outside a transaction. -/
theorem meets_read {q : Query} (hq : q.isRead = true) (hw : Stands w.tables)
    {Q : q.Ret → Unit → Log Op.Ret → World → Prop}
    (hok : ∀ a, q.read missing w.tables = .ok a → Q a () (⟨.db q, .ok a⟩ :: L) w) :
    Meets (exec missing) pid (fairContract missing pid c) (db q) Q Whatever () L w := by
  refine Meets.call ?_
  rintro w₁ rfl
  refine ⟨(fun h => by cases h), fun _ choice r w' hexec => ?_⟩
  rcases exec_db hexec with ⟨rfl, e, rfl⟩ | ⟨-, rfl, hr⟩
  · exact ⟨hw, fun _ _ => trivial⟩
  · rw [execute_of_isRead hq]
    refine ⟨hw, ?_⟩
    rintro w₂ rfl
    cases r with
    | ok a => exact hok a (hr.resolve_right fun ⟨e, he⟩ => by cases he).symm
    | error e => trivial

/-- Writing outside a transaction. -/
theorem meets_write {x : Write} (hw : Stands w.tables)
    (hwritten : w.tables.conflict missing x = none → Stands (w.tables.commit missing [x]))
    {Q : Unit → Unit → Log Op.Ret → World → Prop}
    (hok : w.tables.conflict missing x = none → Q () () (⟨.db (.write x), .ok ()⟩ :: L)
      { w with tables := w.tables.commit missing [x] }) :
    Meets (exec missing) pid (fairContract missing pid c) (db (.write x)) Q Whatever () L w := by
  refine Meets.call ?_
  rintro w₁ rfl
  refine ⟨(fun h => by cases h), fun _ choice r w' hexec => ?_⟩
  rcases exec_db hexec with ⟨rfl, e, rfl⟩ | ⟨-, rfl, hr⟩
  · exact ⟨hw, fun _ _ => trivial⟩
  · cases hconflict : w.tables.conflict missing x with
    | some constraint =>
      rw [execute_refused hconflict]
      refine ⟨hw, fun w₂ _ => ?_⟩
      cases r with
      | ok a =>
        simp only [Query.read, hconflict] at hr
        rcases hr with hr | ⟨e, hr⟩ <;> cases hr
      | error e => trivial
    | none =>
      rw [execute_write hconflict]
      refine ⟨hwritten hconflict, ?_⟩
      rintro w₂ rfl
      cases r with
      | ok a => exact hok hconflict
      | error e => trivial

theorem Even.commit {d : Tables} (hd : Even d) {xs : List Write}
    (hfair : Fair (d.view missing xs)) : Even (d.commit missing xs) :=
  ⟨hd.keyed.commit xs, hfair⟩

theorem meets_joinWaitlist {maxWaitlist : ℤ} {userId : Uuid} {walletAddress : String}
    (hw : Even w.tables) :
    Meets (exec missing) pid (fairContract missing pid c)
      (joinWaitlist maxWaitlist userId walletAddress) Whatever Whatever () L w := by
  refine Meets.bind (meets_read rfl hw.stands fun found _ => ?_)
  refine Meets.bind (Meets.valueOr (fun group _ => ?_) fun _ _ _ => trivial)
  rintro w₁ rfl
  refine Meets.bind (meets_read rfl hw.stands fun isMember _ => ?_)
  refine Meets.bind (Meets.throwWhen (fun _ _ _ => trivial) fun _ => ?_)
  rintro w₂ rfl
  refine Meets.bind (meets_read rfl hw.stands fun existing _ => ?_)
  refine Meets.bind (Meets.throwWhen (fun _ _ _ => trivial) fun _ => ?_)
  rintro w₃ rfl
  refine Meets.bind (meets_read rfl hw.stands fun memberCount _ => ?_)
  refine Meets.bind (Meets.throwWhen (fun _ _ _ => trivial) fun _ => ?_)
  rintro w₄ rfl
  refine Meets.bind (meets_read rfl hw.stands fun waitlistCount hcount => ?_)
  refine Meets.bind (Meets.throwWhen (fun _ _ _ => trivial) fun _ => ?_)
  rintro w₅ rfl
  -- nobody else has joined or left since the entries were counted
  obtain rfl : w.tables.waiting.length = waitlistCount := Except.ok.inj hcount
  refine Meets.bind (meets_write hw.stands (fun _ => (hw.commit ?_).stands) fun _ => ?_)
  · exact hw.fair.join missing rfl rfl
  · exact Meets.pure fun _ _ => trivial

theorem meets_leaveWaitlist {userId : Uuid} (hw : Even w.tables) :
    Meets (exec missing) pid (fairContract missing pid c) (leaveWaitlist userId) Whatever Whatever
      () L w := by
  refine Meets.bind (meets_read rfl hw.stands fun found hfound => ?_)
  refine Meets.bind (Meets.valueOr (fun entry hentry => ?_) fun _ _ _ => trivial)
  rintro w₁ rfl
  have hwaiting : entry ∈ w.tables.waiting :=
    List.mem_of_find?_eq_some ((Except.ok.inj hfound).trans hentry)
  have hkeyed : Keyed (w.tables.commit missing [.saveEntry { entry with status := .cancelled }]) :=
    hw.keyed.commit _
  have hsaved : Stands (w.tables.commit missing [.saveEntry { entry with status := .cancelled }]) :=
    ⟨hkeyed, hw.fair.cancel missing hw.keyed hwaiting⟩
  refine Meets.bind (meets_write hw.stands (fun _ => hsaved) fun _ => ?_)
  have hclosed : Stands ((w.tables.commit missing
      [.saveEntry { entry with status := .cancelled }]).commit missing [.closeGap entry.position]) :=
    ⟨hkeyed.commit _, .inl (hw.fair.leave missing hw.keyed hwaiting)⟩
  exact meets_write hsaved (fun _ => hclosed) fun _ => trivial

/-! ### Admissions -/

/-- A query inside the transaction of `pid`, which holds `xs` back. -/
theorem meets_tx {q : Query} {xs : List Write} (hw : Even w.tables) (hxs : w.pending pid = some xs)
    {Q : q.Ret → Unit → Log Op.Ret → World → Prop}
    (hok : ∀ a w', w'.tables = w.tables → w'.pending pid =
        some (xs ++ (q.writes missing (w.tables.view missing xs)).toList) →
      q.read missing (w.tables.view missing xs) = .ok a → Q a () (⟨.tx q, .ok a⟩ :: L) w') :
    Meets (exec missing) pid (fairContract missing pid c) (tx q) Q (fun _ _ _ w' => Even w'.tables) ()
      L w := by
  refine Meets.call ?_
  rintro w₁ rfl
  refine ⟨(fun h => by cases h), fun _ choice r w' hexec => ?_⟩
  rcases exec_tx hexec with ⟨rfl, e, rfl⟩ | ⟨ys, hys, hr, rfl⟩
  · refine ⟨hw.stands, ?_⟩
    rintro w₂ rfl
    exact hw
  · obtain rfl : xs = ys := Option.some.inj (hxs.symm.trans hys)
    refine ⟨hw.stands, ?_⟩
    rintro w₂ rfl
    cases r with
    | ok a => exact hok a _ rfl (pending_hold ..) hr.symm
    | error e => exact hw

/-- Reading inside the transaction. -/
theorem meets_tx_read {q : Query} (hq : q.isRead = true) {xs : List Write} (hw : Even w.tables)
    (hxs : w.pending pid = some xs) {Q : q.Ret → Unit → Log Op.Ret → World → Prop}
    (hok : ∀ a w', w'.tables = w.tables → w'.pending pid = some xs →
      Q a () (⟨.tx q, .ok a⟩ :: L) w') :
    Meets (exec missing) pid (fairContract missing pid c) (tx q) Q (fun _ _ _ w' => Even w'.tables) ()
      L w := by
  refine meets_tx hw hxs fun a w' hw' hpending _ => hok a w' hw' ?_
  rwa [writes_of_isRead hq, Option.toList_none, List.append_nil] at hpending

/-- A write inside the transaction. -/
theorem meets_tx_write {x : Write} {xs : List Write} (hw : Even w.tables)
    (hxs : w.pending pid = some xs) {Q : Unit → Unit → Log Op.Ret → World → Prop}
    (hok : ∀ w', w'.tables = w.tables → w'.pending pid = some (xs ++ [x]) →
      Q () () (⟨.tx (.write x), .ok ()⟩ :: L) w') :
    Meets (exec missing) pid (fairContract missing pid c) (tx (.write x)) Q
      (fun _ _ _ w' => Even w'.tables) () L w := by
  refine meets_tx hw hxs fun a w' hw' hpending ha => hok w' hw' ?_
  rwa [writes_of_read_ok ha] at hpending

/-- The lock of the group. -/
theorem meets_lockGroup {xs : List Write} (hw : Even w.tables) (hxs : w.pending pid = some xs)
    {Q : Option GroupRow → Unit → Log Op.Ret → World → Prop}
    (hok : ∀ found w', w'.tables = w.tables → w'.pending pid = some xs →
      Q found () (⟨.lockGroup, .ok found⟩ :: L) w') :
    Meets (exec missing) pid (fairContract missing pid c) lockGroup Q
      (fun _ _ _ w' => Even w'.tables) () L w := by
  refine Meets.call ?_
  rintro w₁ rfl
  refine ⟨(fun h => by cases h), fun _ choice r w' hexec => ⟨?_, ?_⟩⟩
  · rcases exec_lockGroup hexec with ⟨rfl, -⟩ | ⟨-, -, -, -, rfl⟩ <;> exact hw.stands
  · rintro w₂ rfl
    rcases exec_lockGroup hexec with ⟨rfl, e, rfl⟩ | ⟨-, -, -, rfl, rfl⟩
    · exact hw
    · exact hok _ _ rfl hxs

/-- The lock of the first entries that wait. -/
theorem meets_lockWaiting {limit : ℕ} (hw : Even w.tables) (hpending : w.pending pid = some [])
    {Q : List WaitlistEntry → Unit → Log Op.Ret → World → Prop}
    (hok : ∀ w', w'.tables = w.tables → w'.pending pid = some [] →
      Q (w.tables.waiting.take limit) ()
        (⟨.lockWaiting limit, .ok (w.tables.waiting.take limit)⟩ :: L) w') :
    Meets (exec missing) pid (fairContract missing pid c)
      (Routine.call (.lockWaiting limit) fun r => r : Service (List WaitlistEntry)) Q
      (fun _ _ _ w' => Even w'.tables) () L w := by
  refine Meets.call ?_
  rintro w₁ rfl
  refine ⟨(fun h => by cases h), fun _ choice r w' hexec => ⟨?_, ?_⟩⟩
  · rcases exec_lockWaiting hexec with ⟨rfl, -⟩ | ⟨-, -, -, -, rfl⟩ <;> exact hw.stands
  · rintro w₂ rfl
    rcases exec_lockWaiting hexec with ⟨rfl, e, rfl⟩ | ⟨xs, hxs, -, rfl, rfl⟩
    · exact hw
    · obtain rfl : [] = xs := Option.some.inj (hpending.symm.trans hxs)
      rw [show w.tables.view missing [] = w.tables from rfl, hw.fair.nextWaiting]
      exact hok _ rfl hpending

/-- The transaction of an admission is prepared: nothing, or the admission of those who joined
first, up to the limit that it has found. -/
def AdmissionReady (pid : ℕ) (L : Log Op.Ret) (w : World) : Prop :=
  Even w.tables ∧ ∃ xs, w.pending pid = some xs ∧ (xs = [] ∨
    ∃ limit r n, ⟨.lockWaiting limit, r⟩ ∈ L ∧
      xs = admissionWrites (w.tables.waiting.take limit) n)

theorem meets_admitEntries {entries : List WaitlistEntry} {xs : List Write} {n : ℤ}
    (hw : Even w.tables) (hxs : w.pending pid = some xs) :
    Meets (exec missing) pid (fairContract missing pid c) (admitEntries entries n)
      (fun _ _ L' w' => w'.tables = w.tables ∧
        w'.pending pid = some (xs ++ admissionWrites entries n) ∧ ∀ e ∈ L, e ∈ L')
      (fun _ _ _ w' => Even w'.tables) () L w := by
  induction entries generalizing n xs L w with
  | nil =>
    refine Meets.pure ?_
    rintro w' rfl
    exact ⟨rfl, hxs.trans (congrArg some (List.append_nil xs).symm), fun _ h => h⟩
  | cons entry entries ih =>
    refine Meets.bind (meets_tx_write hw hxs fun w₁ hw₁ hxs₁ => ?_)
    refine Meets.bind (meets_tx_write (hw₁ ▸ hw) hxs₁ fun w₂ hw₂ hxs₂ => ?_)
    have hsame := hw₂.trans hw₁
    refine Meets.bind ((ih (hsame ▸ hw) hxs₂).mono (fun _ _ L' w' h => ?_) fun _ _ _ _ h => h)
    refine Meets.pure ?_
    rintro w'' rfl
    refine ⟨h.1.trans hsame, h.2.1.trans (congrArg some ?_), fun e he => h.2.2 e ?_⟩
    · rw [admissionWrites, List.append_assoc, List.append_assoc]
      rfl
    · exact List.mem_cons_of_mem _ (List.mem_cons_of_mem _ he)

theorem meets_admitFromWaitlistInTransaction {maxToAdmit : Option ℤ} (hw : Even w.tables)
    (hpending : w.pending pid = some []) :
    Meets (exec missing) pid (fairContract missing pid c) (admitFromWaitlistInTransaction maxToAdmit)
      (fun _ _ L' w' => AdmissionReady pid L' w') (fun _ _ _ w' => Even w'.tables) () L w := by
  have hearly : ∀ {L : Log Op.Ret} {w : World}, Even w.tables → w.pending pid = some [] →
      Meets (exec missing) pid (fairContract missing pid c) (pure [] : Service (List Uuid))
        (fun _ _ L' w' => AdmissionReady pid L' w') (fun _ _ _ w' => Even w'.tables) () L w := by
    intro L w hw hpending
    refine Meets.pure ?_
    rintro w' rfl
    exact ⟨hw, [], hpending, .inl rfl⟩
  refine Meets.bind (meets_lockGroup hw hpending fun found w₁ hw₁ hpending₁ => ?_)
  replace hw₁ : Even w₁.tables := hw₁ ▸ hw
  cases found with
  | none => exact hearly hw₁ hpending₁
  | some group =>
    refine Meets.bind (meets_tx_read rfl hw₁ hpending₁ fun memberCount w₂ hw₂ hpending₂ => ?_)
    replace hw₂ : Even w₂.tables := hw₂ ▸ hw₁
    dsimp only
    split
    · exact hearly hw₂ hpending₂
    split
    · exact hearly hw₂ hpending₂
    refine Meets.bind (meets_lockWaiting hw₂ hpending₂ fun w₃ hw₃ hpending₃ => ?_)
    have heven : Even w₃.tables := hw₃ ▸ hw₂
    split
    · exact hearly heven hpending₃
    refine Meets.bind (meets_tx_read rfl heven hpending₃ fun maxOrder w₄ hw₄ hpending₄ => ?_)
    refine (meets_admitEntries (hw₄ ▸ heven) hpending₄).mono (fun _ _ L' w' h => ?_)
      fun _ _ _ _ h => h
    have hsame := h.1.trans (hw₄.trans hw₃)
    have hlocked := h.2.2 _ (List.mem_cons_of_mem _ List.mem_cons_self)
    refine ⟨hsame ▸ hw₂, _, h.2.1, .inr ⟨_, _, nextPayoutOrder maxOrder, hlocked, ?_⟩⟩
    rw [hsame]
    rfl

/-- Those who wait after the admission of the first `limit` of them. -/
theorem waiting_commit_admission {d : Tables} (hk : Keyed d) (limit : ℕ) (n : ℤ) :
    (d.commit missing (admissionWrites (d.waiting.take limit) n)).waiting = d.waiting.drop limit := by
  change (d.view missing _).waiting = _
  rw [waiting_admission]
  have hnodup : (d.waiting.map (·.id)).Nodup := hk.nodup.sublist (List.filter_sublist.map _)
  generalize d.waiting = entries at hnodup
  rw [← List.take_append_drop limit entries, List.map_append, List.nodup_append] at hnodup
  obtain ⟨-, -, hdisjoint⟩ := hnodup
  have htake : (entries.take limit).filter (·.id ∉ (entries.take limit).map (·.id)) = [] :=
    List.filter_eq_nil_iff.mpr fun e he => by
      rw [decide_eq_true_eq, not_not]
      exact List.mem_map_of_mem he
  have hdrop : (entries.drop limit).filter (·.id ∉ (entries.take limit).map (·.id)) =
      entries.drop limit := by
    refine List.filter_eq_self.mpr fun e he => decide_eq_true fun hmem => ?_
    exact hdisjoint e.id hmem e.id (List.mem_map_of_mem he) rfl
  calc entries.filter (·.id ∉ (entries.take limit).map (·.id))
      = (entries.take limit ++ entries.drop limit).filter
          (·.id ∉ (entries.take limit).map (·.id)) := by rw [List.take_append_drop]
    _ = entries.drop limit := by rw [List.filter_append, htake, hdrop, List.nil_append]

/-- An admission takes those who joined first. -/
theorem AdmissionReady.takesEarliest (h : AdmissionReady pid L w) {xs : List Write}
    (hxs : xs ∈ w.pending pid) : TakesEarliest missing w.tables xs := by
  obtain ⟨heven, ys, hys, hcases⟩ := h
  obtain rfl : ys = xs := Option.some.inj (hys.symm.trans hxs)
  rcases hcases with rfl | ⟨limit, r, n, -, rfl⟩
  · exact ⟨[], rfl, rfl⟩
  · refine ⟨w.tables.waiting.take limit, ?_, insertedUser_admissionWrites _ n⟩
    rw [waiting_commit_admission heven.keyed, List.take_append_drop]

/-- An admission with enough places leaves nobody waiting. -/
theorem AdmissionReady.even_commit (h : AdmissionReady pid L w) (hall : AdmitsAll L w)
    {xs : List Write} (hxs : xs ∈ w.pending pid) : Even (w.tables.commit missing xs) := by
  obtain ⟨heven, ys, hys, hcases⟩ := h
  obtain rfl : ys = xs := Option.some.inj (hys.symm.trans hxs)
  refine ⟨heven.keyed.commit _, ?_⟩
  rcases hcases with rfl | ⟨limit, r, n, hlimit, rfl⟩
  · exact heven.fair
  · have hle : w.tables.waiting.length ≤ limit := hall _ hlimit
    rw [Fair, waiting_commit_admission heven.keyed, List.drop_eq_nil_of_le hle]
    rfl

theorem meets_admitFromWaitlist {maxToAdmit : Option ℤ} (hw : Even w.tables) :
    Meets (exec missing) pid (fairContract missing pid c) (admitFromWaitlist maxToAdmit)
      Whatever Whatever () L w := by
  have hrollback : ∀ {e : Exc} {L : Log Op.Ret} {w : World}, Even w.tables →
      Meets (exec missing) pid (fairContract missing pid c) (do
        Routine.call .rollbackTransaction fun _ => .ok ()
        throw e : Service (List Uuid)) Whatever Whatever () L w := by
    intro e L w hw
    refine Meets.bind (Meets.call ?_)
    rintro w₁ rfl
    refine ⟨(fun h => by cases h), fun _ choice r w' hexec => ⟨?_, fun w₂ _ => ?_⟩⟩
    · rcases exec_rollbackTransaction hexec with rfl | rfl <;> exact hw.stands
    · exact Meets.throw fun _ _ => trivial
  refine Meets.bind (Meets.call ?_)
  rintro w₁ rfl
  refine ⟨(fun h => by cases h), fun _ choice r w' hexec => ?_⟩
  rcases exec_startTransaction hexec with ⟨rfl, e, rfl⟩ | ⟨rfl, rfl⟩
  · exact ⟨hw.stands, fun w₂ _ => trivial⟩
  refine ⟨hw.stands, ?_⟩
  rintro w₂ rfl
  have hstarted : Even (w.hold pid []).tables := hw
  refine Meets.tryCatch (Meets.bind ((meets_admitFromWaitlistInTransaction hstarted
    (pending_hold ..)).mono (fun result _ L w hready => ?_) fun _ _ _ _ h => hrollback h))
  refine Meets.bind (Meets.call ?_)
  rintro w₁ rfl
  refine ⟨fun _ _ _ xs hxs => hready.takesEarliest hxs, fun hall choice r w' hexec => ?_⟩
  rcases exec_commitTransaction hexec with ⟨rfl, e, rfl⟩ | ⟨xs, hxs, rfl, hr⟩
  · refine ⟨hready.1.stands, ?_⟩
    rintro w₂ rfl
    exact hrollback hready.1
  · have hcommit : Even (w.commit missing pid xs).tables := hready.even_commit (hall rfl) hxs
    refine ⟨hcommit.stands, ?_⟩
    rintro w₂ rfl
    rcases hr with rfl | ⟨e, rfl⟩
    · exact Meets.pure fun _ _ => trivial
    · exact hrollback hcommit

/-! ### Runs -/

variable {maxWaitlist : ℤ}

/-- **Every call keeps its contract** when it starts with a fair waitlist. -/
theorem meets_body (hw : Even w.tables) :
    Meets (exec missing) pid (fairContract missing pid c) (c.body maxWaitlist) Whatever Whatever ()
      [] w := by
  have hread : ∀ q : Query, q.isRead = true →
      (Op.db q).sparesWaitlist = true ∧ Op.db q ≠ .commitTransaction := by
    intro q hq
    cases q with
    | write x => cases hq
    | _ => exact ⟨rfl, nofun⟩
  have htxRead : ∀ q : Query, q.isRead = true → (Op.tx q).sparesWaitlist = true := by
    intro q hq
    cases q with
    | write x => cases hq
    | _ => rfl
  have hexternal : ∀ o : Op, o.isExternal = true →
      o.sparesWaitlist = true ∧ o ≠ .commitTransaction := by
    intro o ho
    cases o with
    | notify n => exact ⟨rfl, nofun⟩
    | deployRoscaContract group => exact ⟨rfl, nofun⟩
    | dispatchEvent event => exact ⟨rfl, nofun⟩
    | _ => cases ho
  have hdone : ∀ {r : Reply} {L : Log Op.Ret} {w : World},
      Meets (exec missing) pid (fairContract missing pid c) (pure r : Service Reply) Whatever
        Whatever () L w := Meets.pure fun _ _ => trivial
  have hspared : ∀ {m : Service Unit},
      Routine.Uses (fun o => o.sparesWaitlist = true ∧ o ≠ .commitTransaction) m →
      Meets (exec missing) pid (fairContract missing pid c) (do
        m
        pure .done : Service Reply) Whatever Whatever () [] w := fun hm =>
    Meets.bind ((meets_spared hm hw).mono (fun _ _ _ _ _ => hdone) fun _ _ _ _ h => h)
  cases c with
  | addMember userId walletAddress =>
    have hbody : Routine.Uses (fun o => o.sparesWaitlist = true) (insertMember userId walletAddress) :=
      uses_insertMember (P := fun o => o.sparesWaitlist = true) htxRead rfl (fun _ => rfl) userId
        walletAddress
    have hc : ∀ maxToAdmit, Call.addMember userId walletAddress ≠ .admitFromWaitlist maxToAdmit :=
      fun _ h => by cases h
    refine Meets.bind (Meets.tryCatch ((meets_spared_transaction hbody hw hc).mono
      (fun _ _ _ _ _ => hdone) fun e _ L w _ => ?_))
    cases e <;> exact Meets.throw fun _ _ => trivial
  | removeMember userId => exact hspared (uses_removeMember hread (fun _ => ⟨rfl, nofun⟩) userId)
  | leaveGroup userId =>
    exact hspared (uses_leaveGroup hread (fun _ => ⟨rfl, nofun⟩) (fun _ => ⟨rfl, nofun⟩) hexternal
      userId)
  | suspendMember targetUserId requestingUserId reason =>
    exact hspared (uses_suspendMember hread (fun _ => ⟨rfl, nofun⟩) hexternal _ _ reason)
  | reinstateMember targetUserId requestingUserId =>
    exact hspared (uses_reinstateMember hread (fun _ => ⟨rfl, nofun⟩) hexternal _ _)
  | joinWaitlist userId walletAddress =>
    exact Meets.bind ((meets_joinWaitlist hw).mono (fun _ _ _ _ _ => hdone) fun _ _ _ _ h => h)
  | leaveWaitlist userId =>
    exact Meets.bind ((meets_leaveWaitlist hw).mono (fun _ _ _ _ _ => hdone) fun _ _ _ _ h => h)
  | admitFromWaitlist maxToAdmit =>
    exact Meets.bind ((meets_admitFromWaitlist hw).mono (fun _ _ _ _ _ => hdone) fun _ _ _ _ h => h)
  | activateGroup adminWallet random =>
    exact hspared (uses_activateGroup hread (fun _ => ⟨rfl, nofun⟩) (fun _ => ⟨rfl, nofun⟩)
      hexternal adminWallet random)
  | dropSession p =>
    refine Meets.call ?_
    rintro w₁ rfl
    refine ⟨(fun h => by cases h), fun _ choice r w' hexec => ?_⟩
    obtain rfl := exec_dropSession hexec
    exact ⟨hw.stands, fun _ _ => trivial⟩

/-- **Fair schedules are verified.** -/
theorem verified_fairSchedule :
    Verified (system missing maxWaitlist) FairSchedule (fairContract missing)
      (fun _ _ _ _ _ => True) (fun w => Stands w.tables) fun _ _ => False where
  body h pid c hinv hok := by
    have hfair : Even h.world.tables := ⟨hinv.1, hinv.2.resolve_right hok.2⟩
    refine (meets_body hfair).safe.bind fun x L w _ => ?_
    exact fun _ _ => trivial
  keeps pid c w w' _ hguarantee := hguarantee
  respects pid c pid' c' w w' _ hfalse := hfalse.elim
  expected h pid c o r w' hstart hok := by
    rintro rfl
    exact hok
  admitted h pid c hok pid' c' hstart hlive := by
    obtain ⟨e, he, hend, heq⟩ := hok.1 _ hstart
    exact absurd heq (hlive e he hend)

/-- When no call is in flight, the last event is not an open one. -/
theorem not_unclosed_of_quiet {d : Tables} (hd : ¬ Unclosed d) {s : MembersState}
    (hs : (system missing maxWaitlist).ReachableWhen FairSchedule (.init (started d)) s)
    (hquiet : s.Quiet) : ¬ Unclosed s.hist.world.tables := by
  cases hs with
  | refl => exact hd
  | @tail s₁ s₂ _ hstep =>
    obtain ⟨⟨m, hm⟩, hok⟩ := hstep
    have hkind := System.stepKind_of_move hm
    cases hkind with
    | start c =>
      have htask : Function.update s₁.task s₁.started (some _) s₁.started = none := hquiet s₁.started
      rw [Function.update_self] at htask
      cases htask
    | run pid o k choice r w htask hexec =>
      have htask' : Function.update s₁.task pid (some _) pid = none := hquiet pid
      rw [Function.update_self] at htask'
      cases htask'
    | finish pid a htask => exact hok
    | crash pid p htask => exact hok

/-- **The waitlist is fair** in the runs of calls one after another in which every admission that
goes through has had enough places for all who wait, and no cancellation is left without its
renumbering. -/
theorem waitlistFair_of_fairSchedule (missing : OnMissing) (maxWaitlist : ℤ) {d : Tables}
    (hkeyed : Keyed d) (hfair : Fair d) (hlog : d.log = []) {s : MembersState}
    (hs : (system missing maxWaitlist).ReachableWhen FairSchedule (.init (started d)) s) :
    WaitlistFair missing s := by
  have hstart : Stands (started d).tables := ⟨hkeyed, .inl hfair⟩
  have hclosed : ¬ Unclosed d := by
    rw [Unclosed, hlog]
    exact id
  obtain ⟨-, hkept⟩ := kept_of_reachable verified_fairSchedule hstart hs
  refine ⟨fun hquiet => ?_, fun pid maxToAdmit r w hcall hdid xs hxs => ?_⟩
  · exact hkept.inv.2.resolve_right (not_unclosed_of_quiet hclosed hs hquiet)
  · obtain ⟨after, before, hsplit⟩ := List.append_of_mem hdid
    have hsuffix : .did pid .commitTransaction r w :: before <:+ s.hist.trace :=
      hsplit ▸ List.suffix_append _ _
    exact hkept.asserted pid _ _ r w before hcall hsuffix rfl maxToAdmit rfl xs hxs

/-! ### An admission of some of those who wait -/

namespace Sample

/-- A full group with one member. -/
def full : Tables where
  group := some { id := 0, name := "group", adminWallet := "G0", minMembers := 1, maxMembers := 1 }
  members := [{ id := 0, userId := 0, walletAddress := "G0", payoutOrder := some 0 }]
  issued := [0]

end Sample

/-- One user joins the waitlist and is admitted when the member leaves. -/
theorem waitlistFair_sample : ∃ s : MembersState,
    s.hist.world.tables.users = [1] ∧ WaitlistFair .inserts s := by
  obtain ⟨s, hs, husers⟩ := System.exists_of_replay (system .inserts 50) FairSchedule
    (.init (started Sample.full))
    (Sample.whole 0 6 (.joinWaitlist 1 "G1") ++ Sample.whole 1 3 (.removeMember 0) ++
      Sample.whole 2 8 (.admitFromWaitlist none))
    (fun s => s.hist.world.tables.users == [1]) (by decide +kernel)
  refine ⟨s, by simpa using husers, waitlistFair_of_fairSchedule .inserts 50 (d := Sample.full) ?_ ?_ rfl hs⟩
  · exact ⟨by decide, by decide⟩
  · exact (by decide : Sample.full.waiting.map (·.position) = upTo Sample.full.waiting.length)

/-- Two users join the waitlist and one place becomes free: the second user is left at position
2. -/
theorem not_waitlistFair : ¬ ∀ s : MembersState,
    (system .inserts 50).ReachableWhen OneAfterAnother (.init (started Sample.full)) s →
      WaitlistFair .inserts s := by
  intro hfair
  obtain ⟨s, hs, hp⟩ := System.exists_of_replay (system .inserts 50) OneAfterAnother
    (.init (started Sample.full))
    (Sample.whole 0 6 (.joinWaitlist 1 "G1") ++ Sample.whole 1 6 (.joinWaitlist 2 "G2") ++
      Sample.whole 2 3 (.removeMember 0) ++ Sample.whole 3 8 (.admitFromWaitlist none))
    (fun s => decide (AllEnded s.hist ∧ s.hist.world.tables.waiting.map (·.position) ≠
      upTo s.hist.world.tables.waiting.length)) (by decide +kernel)
  obtain ⟨hended, hne⟩ := of_decide_eq_true hp
  obtain ⟨hl, -⟩ := System.ReachableWhen.rule (J := fun _ => True) trivial
    (fun _ _ _ _ _ _ _ => trivial) hs
  exact hne ((hfair s hs).fair (hl.quiet hended))

end Ahjoor.Members
