import Ahjoor.Payouts.Submission

/-!
# What a recorded failure means

`FAILED` is recorded by a job that the chain has told so, or by `distributePayout`. The latter
records it only where it has no hash: before anything is sent, or in a path payment whose
sending it has *taken for a failure*. The network may have accepted such a payment all the same,
when the reply to the attempt is lost or when the answer, though positive, reports amounts
outside the tolerance. As long as that does not happen, a recorded failure is a failure.
-/

namespace Ahjoor

open Async Bullmq Store StellarService PayoutService

variable {sdk : Sdk} {cfg : Config}

/-! ### Sent and accepted -/

/-- The network has accepted no transaction of the call. -/
def NoneAccepted (pid : ℕ) (w : World) : Prop := ∀ e ∈ w.chain.accepted, e.1 ≠ pid

instance (pid : ℕ) (w : World) : Decidable (NoneAccepted pid w) :=
  inferInstanceAs (Decidable (∀ e ∈ w.chain.accepted, e.1 ≠ pid))

/-- What a call takes for a failure is one: when it takes an attempt to send a path payment for
a failure, nothing of it has been accepted. -/
def FailuresAreReal (h h' : PayoutHist) : Prop :=
  match h'.trace with
  | .did pid o r _ :: _ => TakenForFailure ⟨o, r⟩ (log pid h.trace) → NoneAccepted pid h'.world
  | _ => True

instance (e : Entry Op.Ret) (L : Log Op.Ret) : Decidable (TakenForFailure e L) := by
  unfold TakenForFailure
  split
  · split <;> infer_instance
  · infer_instance

instance : DecidableRel FailuresAreReal := fun h h' => by
  unfold FailuresAreReal
  split <;> infer_instance

/-- What the accepted transactions say about the sending calls. -/
structure Accounted (h : PayoutHist) : Prop where
  /-- an accepted transaction was sent -/
  sent : ∀ pid, lastSend (log pid h.trace) = none → NoneAccepted pid h.world
  /-- of a call that takes its newest attempt for a failure, nothing was accepted -/
  failed : ∀ pid e L₀, lastSend (log pid h.trace) = some (e, L₀) → TakenForFailure e L₀ →
    NoneAccepted pid h.world
  /-- nor of a call that has recorded a failure -/
  recorded : ∀ pid groupId round, Event.start pid (.distribute groupId round) ∈ h.trace →
    ∀ p ∈ saves (log pid h.trace), p.status = .failed → NoneAccepted pid h.world

/-- Only a call's own sending adds to what is accepted of it. -/
theorem NoneAccepted.of_exec {q pid : ℕ} {o : Op} {r : o.Ret} {choice : Choice} {w w' : World}
    (h : NoneAccepted q w) (hexec : exec o pid choice w = some (r, w'))
    (hother : q ≠ pid ∨ o.isSend = false) : NoneAccepted q w' := by
  intro e he
  rcases mem_accepted_of_exec hexec he with he | ⟨hpid, n, i, initial, rfl⟩
  · exact h e he
  · rcases hother with hne | hsend
    · exact fun heq => hne (heq.symm.trans hpid)
    · cases hsend

theorem isSend_of_savedPayout {o : Op} {p : PayoutTransaction} (h : o.savedPayout = some p) :
    o = .db (.savePayout p) := by
  cases o with
  | db q =>
    cases q with
    | savePayout q => rw [← Option.some.inj h]
    | _ => cases h
  | _ => cases h

theorem Accounted.step {h h' : PayoutHist} (ha : Accounted h) (hsound : Sound h) (hsound' : Sound h')
    (hs : HistStep (payoutSystem sdk cfg) May h h') (hok : FailuresAreReal h h') :
    Accounted h' := by
  -- a call that has saved a record was started before
  have started : ∀ pid groupId round, Event.start pid (.distribute groupId round) ∈ h'.trace →
      ∀ p ∈ saves (log pid h.trace), Event.start pid (.distribute groupId round) ∈ h.trace := by
    intro pid groupId round hstart p hp
    obtain ⟨r, hmem⟩ := mem_saves.mp hp
    obtain ⟨w, hw⟩ := mem_log.mp hmem
    obtain ⟨c, hc⟩ := hsound.start_mem _ hw
    have hc' : Event.start pid c ∈ h'.trace := by
      cases hs <;> exact List.mem_cons_of_mem _ hc
    rw [hsound'.start_unique pid _ _ hstart hc']
    exact hc
  cases hs with
  | idle e he hlive =>
    refine ⟨fun pid hlast => ?_, fun pid e' L₀ hlast => ?_, fun pid g r hstart p hp => ?_⟩
    · rw [Hist.push_trace, he] at hlast
      exact ha.sent pid hlast
    · rw [Hist.push_trace, he] at hlast
      exact ha.failed pid e' L₀ hlast
    · rw [Hist.push_trace, he] at hp
      exact ha.recorded pid g r (started pid g r hstart p hp) p hp
  | did pid c o choice r w hstart hD hexec hlive =>
    have other : ∀ q, pid ≠ q → log q (h.push (.did pid o r h.world) w).trace = log q h.trace :=
      fun q hq => log_cons_of_ne (e := .did pid o r h.world) hq _
    have own : log pid (h.push (.did pid o r h.world) w).trace = ⟨o, r⟩ :: log pid h.trace :=
      log_did_self ..
    refine ⟨fun q hlast => ?_, fun q e' L₀ hlast htaken => ?_, fun q g rnd hq p hp hfailed => ?_⟩
    · by_cases hq : pid = q
      · subst hq
        rw [own] at hlast
        have hsend := (lastSend_eq_none.mp hlast) _ List.mem_cons_self
        rw [lastSend_cons hsend] at hlast
        exact (ha.sent pid hlast).of_exec hexec (.inr hsend)
      · rw [other q hq] at hlast
        exact (ha.sent q hlast).of_exec hexec (.inl fun heq => hq heq.symm)
    · by_cases hq : pid = q
      · subst hq
        rw [own] at hlast
        cases hsend : o.isSend with
        | true =>
          rw [lastSend_cons_of_isSend (e := ⟨o, r⟩) hsend] at hlast
          cases hlast
          exact hok htaken
        | false =>
          rw [lastSend_cons (e := ⟨o, r⟩) hsend] at hlast
          exact (ha.failed pid e' L₀ hlast htaken).of_exec hexec (.inr hsend)
      · rw [other q hq] at hlast
        exact (ha.failed q e' L₀ hlast htaken).of_exec hexec (.inl fun heq => hq heq.symm)
    · by_cases hpid : pid = q
      · subst hpid
        rw [own] at hp
        have hcall : c = .distribute g rnd :=
          hsound'.start_unique pid c _ (List.mem_cons_of_mem _ hstart) hq
        subst hcall
        by_cases hold : p ∈ saves (log pid h.trace)
        · refine (ha.recorded pid g rnd hstart p hold hfailed).of_exec hexec (.inr ?_)
          -- after a recorded failure nothing is sent
          by_contra hsend
          obtain ⟨n, i, initial, tx, rfl⟩ := exists_of_isSend (by simpa using hsend)
          cases hD with
          | minor hm => cases hm
          | send _ hsaves =>
            have := hsaves p hold
            rw [hfailed] at this
            cases this
        · -- the step records the failure
          obtain rfl : o = .db (.savePayout p) := by
            cases hsaved : o.savedPayout with
            | none => exact absurd (by rwa [saves_cons (e := ⟨o, r⟩) hsaved] at hp) hold
            | some p' =>
              have ho := isSend_of_savedPayout hsaved
              subst ho
              rcases List.mem_cons.mp hp with rfl | hp
              · rfl
              · exact absurd hp hold
          refine NoneAccepted.of_exec ?_ hexec (.inr rfl)
          cases hD with
          | minor hm => cases hm
          | save hsave =>
            cases hsave with
            | hash _ _ hstatus _ => rw [hfailed] at hstatus; cases hstatus
            | submitted _ _ hstatus _ => rw [hfailed] at hstatus; cases hstatus
            | failed _ _ _ _ _ hwhy =>
              cases hlast : lastSend (log pid h.trace) with
              | none => exact ha.sent pid hlast
              | some e => exact ha.failed pid e.1 e.2 hlast (hwhy e.1 e.2 hlast)
      · rw [other q hpid] at hp
        exact (ha.recorded q g rnd (started q g rnd hq p hp) p hp hfailed).of_exec hexec
          (.inl fun heq => hpid heq.symm)

/-! ### Recorded failures -/

/-- The call's transactions are for the payout `payoutOrderId`. -/
def PaysFor (h : PayoutHist) (pid : ℕ) (payoutOrderId : String) : Prop :=
  ∃ groupId round, buildPayoutOrderId groupId round = payoutOrderId ∧
    Submitting (log pid h.trace) groupId round

/-- Whenever a call records a payout as `FAILED`, the network has accepted no transaction for it,
or the chain has reported the failure of its hash to the call. -/
def FailuresJustified (h : PayoutHist) : Prop :=
  ∀ pid p, p ∈ saves (log pid h.trace) → p.status = .failed →
    (∀ e ∈ h.world.chain.accepted, ¬ PaysFor h e.1 p.payoutOrderId) ∨
      ∃ hash, p.txHash = some hash ∧ Reported (log pid h.trace) hash .failed

theorem Accounted.justified {h : PayoutHist} (ha : Accounted h) (hsound : Sound h)
    (ho : OneInsert h) : FailuresJustified h := by
  intro pid p hp hfailed
  obtain ⟨r, hmem⟩ := mem_saves.mp hp
  obtain ⟨w, hw⟩ := mem_log.mp hmem
  obtain ⟨call, hstart⟩ := hsound.start_mem _ hw
  obtain ⟨L', hL', hD⟩ := (hsound.lawful pid call hstart).allowed hmem
  have hsub : L' ⊆ log pid h.trace := fun _ he => hL'.subset (List.mem_cons_of_mem _ he)
  cases call with
  | distribute groupId round =>
    left
    cases hD with
    | minor hm => cases hm
    | save hsave =>
      cases hsave with
      | hash _ _ hstatus _ => rw [hfailed] at hstatus; cases hstatus
      | submitted _ _ hstatus _ => rw [hfailed] at hstatus; cases hstatus
      | failed hown _ _ _ hmark _ =>
        obtain ⟨c, q, hins, -, hkey⟩ := hown
        have hins' : Inserted (log pid h.trace) c q := hsub hins
        have hpkey : p.payoutOrderId = buildPayoutOrderId groupId round := by
          rw [hkey, hsound.honest pid c q hins']
          exact (created_of_inserted (hsound.lawful pid _ hstart) hins').1
        rintro e he ⟨g, rnd, hg, hpays⟩
        have hsame : e.1 = pid := eq_of_submitting hsound ho (hg.trans hpkey) hpays (hsub hmark)
        exact ha.recorded pid groupId round hstart p hp hfailed e he hsame
  | sweep => cases hD
  | reconcile jobId =>
    right
    cases hD with
    | remote hm => cases hm
    | @settle _ job t _ htake hread hopen hhash hsaves hsettles =>
      obtain ⟨hash, hthash⟩ := exists_of_truthy hhash
      cases hsettles with
      | confirmed _ => cases hfailed
      | failed hreport =>
        rw [hthash] at hreport
        exact ⟨hash, hthash, hreport.mono hsub⟩
  | stalled jobId => cases hD
  | expired jobId => cases hD

/-- **When no failure is mistaken, every recorded failure is justified**, in every run from a
world without accepted transactions. -/
theorem failuresJustified_of_real (sdk : Sdk) (cfg : Config) {w : World}
    (hw : w.chain.accepted = []) {s : PayoutState}
    (hr : (payoutSystem sdk cfg).ReachableWhen FailuresAreReal (.init w) s) :
    FailuresJustified s.hist := by
  have hnone : ∀ pid, NoneAccepted pid w := fun pid e he => by simp [hw] at he
  have h₀ : (KeepsKeys ⟨w, []⟩ ∧ OneInsert ⟨w, []⟩) ∧ Accounted ⟨w, []⟩ :=
    ⟨keys_init w, fun pid _ => hnone pid, fun pid _ _ _ _ => hnone pid, fun pid _ _ _ _ _ _ => hnone pid⟩
  obtain ⟨hsound, ⟨-, ho⟩, ha⟩ := payout_rule
    (I := fun h => (KeepsKeys h ∧ OneInsert h) ∧ Accounted h) h₀
    (fun h h' hsound hsound' hI hs hok => ⟨⟨hI.1.1.step hs, hI.1.2.step hsound hI.1.1 hs⟩,
      hI.2.step hsound hsound' hs hok⟩) hr
  exact ha.justified hsound ho

/-! ### Both cases occur -/

/-- A world whose group collects in one asset and pays out in another. -/
def Sample.crossAssetWorld : World :=
  Sample.world { Sample.group with assetCode := some "USDC", assetIssuer := some "I" }
    [Sample.member]

/-- The schedule of a payout by a path payment whose only attempt to send ends as `sending`
says, up to the save of `FAILED`. -/
def failedSchedule (sending : Choice) : List PayoutMove :=
  (.start (.distribute 0 1) :: dones 0 8 : List PayoutMove) ++
    ([.run 0 (.prepared 0), .run 0 sending, .run 0 .done] : List PayoutMove)

/-- The call 0 has recorded a failure of the payout `0:1`. -/
def recordsFailure (s : PayoutState) : Bool :=
  (saves (log 0 s.hist.trace)).any fun p =>
    p.status == .failed && p.payoutOrderId == "0:1" && p.txHash == none

theorem exists_of_recordsFailure {s : PayoutState} (h : recordsFailure s = true) :
    ∃ p ∈ saves (log 0 s.hist.trace), p.status = .failed ∧ p.payoutOrderId = "0:1" ∧
      p.txHash = none := by
  obtain ⟨p, hp, hcond⟩ := List.any_eq_true.mp h
  simp only [Bool.and_eq_true, beq_iff_eq] at hcond
  exact ⟨p, hp, hcond.1.1, hcond.1.2, hcond.2⟩

/-- A failure that is one: the attempt times out before it reaches the network. -/
theorem failuresJustified_sample : ∃ s : PayoutState,
    (payoutSystem Sample.sdk Sample.cfg).ReachableWhen FailuresAreReal
      (.init Sample.crossAssetWorld) s ∧
    (∃ p ∈ saves (log 0 s.hist.trace), p.status = .failed) ∧ FailuresJustified s.hist := by
  obtain ⟨s, hr, hs⟩ := System.exists_of_replay (payoutSystem Sample.sdk Sample.cfg) FailuresAreReal
    (.init Sample.crossAssetWorld) (failedSchedule (.fails "timeout")) recordsFailure
    (by decide +kernel)
  obtain ⟨p, hp, hfailed, -⟩ := exists_of_recordsFailure hs
  exact ⟨s, hr, ⟨p, hp, hfailed⟩, failuresJustified_of_real _ _ rfl hr⟩

/-- A failure that is none: the network takes the payment and the reply is lost. -/
theorem not_failuresJustified : ¬ ∀ s, (payoutSystem Sample.sdk Sample.cfg).Reachable
    (.init Sample.crossAssetWorld) s → FailuresJustified s.hist := by
  intro hjust
  let paid (s : PayoutState) : Bool :=
    (s.hist.trace.any fun e => e.pid == 0 && startsSubmission 0 1 e) &&
      s.hist.world.chain.accepted.any (·.1 == 0)
  obtain ⟨s, hr, hs⟩ := System.exists_of_replay (payoutSystem Sample.sdk Sample.cfg)
    (fun _ _ => True) (.init Sample.crossAssetWorld) (failedSchedule (.lost "timeout"))
    (fun s => recordsFailure s && paid s) (by decide +kernel)
  obtain ⟨hrecords, hpaid⟩ := Bool.and_eq_true_iff.mp hs
  obtain ⟨hmark, haccepted⟩ := Bool.and_eq_true_iff.mp hpaid
  obtain ⟨p, hp, hfailed, hkey, hhash⟩ := exists_of_recordsFailure hrecords
  obtain ⟨e, he, hcond⟩ := List.any_eq_true.mp hmark
  obtain ⟨hpid, hstarts⟩ := Bool.and_eq_true_iff.mp hcond
  obtain ⟨a, ha, ha0⟩ := List.any_eq_true.mp haccepted
  rcases hjust s hr 0 p hp hfailed with hnone | ⟨hash, hsome, -⟩
  · refine hnone a ha ⟨0, 1, hkey ▸ rfl, ?_⟩
    rw [show a.1 = e.pid by simp_all]
    exact submitting_of_startsSubmission he hstarts
  · rw [hhash] at hsome
    cases hsome

end Ahjoor
