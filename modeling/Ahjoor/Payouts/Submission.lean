import Ahjoor.Payouts.Records

/-!
# At most one submission for each round

The submission of a payout starts after the call's own acknowledged insert of its record, and a
call starts it once. The unique index lets one insert of a key through, so two submissions for
one group and round would be two inserts of one key.
-/

namespace Ahjoor

open Async Bullmq Store StellarService PayoutService

variable {sdk : Sdk} {cfg : Config} {groupId : Uuid} {round : ℤ}

/-! ### What a started submission implies -/

/-- `distributePayout` inserts its own record, without a hash. -/
theorem created_of_inserted {L : Log Op.Ret} (hL : Lawful (MayPay groupId round) L)
    {c p : PayoutTransaction} (hins : Inserted L c p) :
    c.payoutOrderId = buildPayoutOrderId groupId round ∧ c.status = .pendingSubmission ∧
      c.txHash = none := by
  obtain ⟨L', -, hD⟩ := hL.allowed hins
  cases hD with
  | minor h => cases h
  | insert hkey hstatus hhash _ => exact ⟨hkey, hstatus, hhash⟩

/-- A submission belongs to a `distributePayout` call for its group and round, which has
inserted the record. -/
theorem inserted_of_submitting {h : PayoutHist} (hs : Sound h) {pid : ℕ}
    (hmark : Submitting (log pid h.trace) groupId round) :
    Event.start pid (.distribute groupId round) ∈ h.trace ∧
      ∃ c p, Inserted (log pid h.trace) c p ∧
        c.payoutOrderId = buildPayoutOrderId groupId round := by
  obtain ⟨w, hw⟩ := mem_log.mp hmark
  obtain ⟨call, hstart⟩ := hs.start_mem _ hw
  obtain ⟨L', hL', hD⟩ := (hs.lawful pid call hstart).allowed hmark
  cases call with
  | distribute g r =>
    cases hD with
    | minor h => cases h
    | submit hown _ =>
      have hins := hL'.subset (List.mem_cons_of_mem _ hown)
      exact ⟨hstart, _, _, hins, (created_of_inserted (hs.lawful pid _ hstart) hins).1⟩
  | sweep => cases hD
  | reconcile jobId =>
    cases hD with
    | remote h => cases h
  | stalled jobId => cases hD
  | expired jobId => cases hD

/-- Submissions of one payout belong to one call. -/
theorem eq_of_submitting {h : PayoutHist} (hs : Sound h) (ho : OneInsert h) {pid pid' : ℕ}
    {groupId' : Uuid} {round' : ℤ}
    (hkey : buildPayoutOrderId groupId round = buildPayoutOrderId groupId' round')
    (hmark : Submitting (log pid h.trace) groupId round)
    (hmark' : Submitting (log pid' h.trace) groupId' round') : pid = pid' := by
  obtain ⟨-, c, p, hins, hc⟩ := inserted_of_submitting hs hmark
  obtain ⟨-, c', p', hins', hc'⟩ := inserted_of_submitting hs hmark'
  exact (ho pid pid' c c' p p' hins hins' (by rw [hc, hc', hkey])).1

/-! ### Counting submissions -/

/-- The event starts the submission for the group's round. -/
def startsSubmission (groupId : Uuid) (round : ℤ) :
    Event Op.Ret World PayoutCall (Except Exc Unit) → Bool
  | .did _ (.note n) _ _ => n == .submissionStarted groupId round
  | _ => false

theorem submitting_of_startsSubmission {e : Event Op.Ret World PayoutCall (Except Exc Unit)}
    {es : List (Event Op.Ret World PayoutCall (Except Exc Unit))} (he : e ∈ es)
    (h : startsSubmission groupId round e = true) : Submitting (log e.pid es) groupId round := by
  cases e with
  | did pid o r w =>
    cases o with
    | note n =>
      obtain rfl : n = .submissionStarted groupId round := by simpa [startsSubmission] using h
      exact mem_log.mpr ⟨w, he⟩
    | _ => cases h
  | _ => cases h

/-- How often the submission for the group's round was started. -/
def submissionsStarted (groupId : Uuid) (round : ℤ) (h : PayoutHist) : ℕ :=
  h.trace.countP (startsSubmission groupId round)

/-- A call starts a submission once. -/
theorem not_submitting_of_may {c : PayoutCall} {L : Log Op.Ret}
    (h : May c L (.note (.submissionStarted groupId round))) : ¬ Submitting L groupId round := by
  cases c with
  | distribute g r =>
    cases h with
    | minor h => cases h
    | submit _ hfirst => exact hfirst
  | sweep => cases h
  | reconcile jobId =>
    cases h with
    | remote h => cases h
  | stalled jobId => cases h
  | expired jobId => cases h

theorem submissionsStarted_step {h h' : PayoutHist} (hsound' : Sound h') (ho' : OneInsert h')
    (hs : HistStep (payoutSystem sdk cfg) May h h')
    (hcount : submissionsStarted groupId round h ≤ 1) :
    submissionsStarted groupId round h' ≤ 1 := by
  cases hs with
  | idle e he hlive =>
    have hmark : startsSubmission groupId round e = false := by
      cases e with
      | did pid o r w => simpa using he pid []
      | _ => rfl
    rw [submissionsStarted, Hist.push_trace, List.countP_cons_of_neg (by simp [hmark])]
    exact hcount
  | did pid c o choice r w hstart hD hexec hlive =>
    by_cases hmark : startsSubmission groupId round
        (.did pid o r h.world : Event Op.Ret World PayoutCall (Except Exc Unit)) = true
    · -- an earlier start of this submission would be by the same call, which starts it once
      have hnone : submissionsStarted groupId round h = 0 := by
        refine List.countP_eq_zero.mpr fun e he hmark' => ?_
        have hnew := submitting_of_startsSubmission (List.mem_cons_self (l := h.trace)) hmark
        have hold : Submitting (log e.pid (.did pid o r h.world :: h.trace)) groupId round :=
          submitting_of_startsSubmission (List.mem_cons_of_mem _ he) hmark'
        have hpid : pid = e.pid := eq_of_submitting hsound' ho' rfl hnew hold
        obtain rfl : o = .note (.submissionStarted groupId round) := by
          cases o with
          | note n => simpa [startsSubmission] using hmark
          | _ => cases hmark
        exact not_submitting_of_may hD (hpid ▸ submitting_of_startsSubmission he hmark')
      rw [submissionsStarted, Hist.push_trace, List.countP_cons_of_pos hmark]
      exact Nat.succ_le_succ hnone.le
    · rw [submissionsStarted, Hist.push_trace, List.countP_cons_of_neg hmark]
      exact hcount

/-- **At most one submission for each group and round**, in every run from any world. -/
theorem submissionsStarted_le_one (sdk : Sdk) (cfg : Config) (w : World) {s : PayoutState}
    (hr : (payoutSystem sdk cfg).Reachable (.init w) s) (groupId : Uuid) (round : ℤ) :
    submissionsStarted groupId round s.hist ≤ 1 :=
  (payout_rule
    (I := fun h => (KeepsKeys h ∧ OneInsert h) ∧ submissionsStarted groupId round h ≤ 1)
    ⟨keys_init w, Nat.zero_le 1⟩
    (fun _ _ hsound hsound' hI hs _ =>
      have ho' := hI.1.2.step hsound hI.1.1 hs
      ⟨⟨hI.1.1.step hs, ho'⟩, submissionsStarted_step hsound' ho' hs hI.2⟩) hr).2.2

/-- A run in which the submission has started: the bound is attained. -/
theorem submissionsStarted_sample : ∃ s : PayoutState,
    (payoutSystem Sample.sdk Sample.cfg).Reachable
      (.init (Sample.world Sample.group [Sample.member])) s ∧
    submissionsStarted 0 1 s.hist = 1 ∧ submissionsStarted 0 1 s.hist ≤ 1 := by
  obtain ⟨s, hr, hs⟩ := System.exists_of_replay
    (payoutSystem Sample.sdk Sample.cfg) (fun _ _ => True)
    (.init (Sample.world Sample.group [Sample.member])) (.start (.distribute 0 1) :: dones 0 8)
    (fun s => submissionsStarted 0 1 s.hist == 1) (by decide +kernel)
  exact ⟨s, hr, by simpa using hs, submissionsStarted_le_one _ _ _ hr 0 1⟩

/-! ### What is sent -/

/-- The call has sent a transaction to a server, with whatever reply. -/
def Sends (L : Log Op.Ret) : Prop :=
  ∃ n i initial tx reply, ⟨.rpc n i initial (.sendTransaction tx), reply⟩ ∈ L

/-- **A transaction is sent under its mark**: by a call of `distributePayout` that has marked the
submission for its group and round as started. -/
theorem submitting_of_sends {h : PayoutHist} (hs : Sound h) {pid : ℕ}
    (hsends : Sends (log pid h.trace)) :
    ∃ groupId round, Event.start pid (.distribute groupId round) ∈ h.trace ∧
      Submitting (log pid h.trace) groupId round := by
  obtain ⟨n, i, initial, tx, reply, hsent⟩ := hsends
  obtain ⟨w, hw⟩ := mem_log.mp hsent
  obtain ⟨call, hstart⟩ := hs.start_mem _ hw
  obtain ⟨L', hL', hD⟩ := (hs.lawful pid call hstart).allowed hsent
  cases call with
  | distribute groupId round =>
    cases hD with
    | minor h => cases h
    | send hmark _ =>
      exact ⟨groupId, round, hstart, hL'.subset (List.mem_cons_of_mem _ hmark)⟩
  | sweep => cases hD
  | reconcile jobId =>
    cases hD with
    | remote h => cases h
  | stalled jobId => cases hD
  | expired jobId => cases hD

/-- **One call sends for a group and round**, in every run from any world. -/
theorem eq_of_sends (sdk : Sdk) (cfg : Config) (w : World) {s : PayoutState}
    (hr : (payoutSystem sdk cfg).Reachable (.init w) s) {pid pid' : ℕ}
    (hstart : Event.start pid (.distribute groupId round) ∈ s.hist.trace)
    (hstart' : Event.start pid' (.distribute groupId round) ∈ s.hist.trace)
    (hsends : Sends (log pid s.hist.trace)) (hsends' : Sends (log pid' s.hist.trace)) :
    pid = pid' := by
  obtain ⟨hsound, hkeys⟩ := payout_rule (I := fun h => KeepsKeys h ∧ OneInsert h) (keys_init w)
    (fun _ _ hsound _ hI hs _ => ⟨hI.1.step hs, hI.2.step hsound hI.1 hs⟩) hr
  -- the mark is for the group and round of the call
  have hmark : ∀ {p : ℕ}, Event.start p (.distribute groupId round) ∈ s.hist.trace →
      Sends (log p s.hist.trace) → Submitting (log p s.hist.trace) groupId round := by
    intro p hp hsent
    obtain ⟨g, r, hp', hmark⟩ := submitting_of_sends hsound hsent
    cases hsound.start_unique p _ _ hp hp'
    exact hmark
  exact eq_of_submitting hsound hkeys.2 rfl (hmark hstart hsends) (hmark hstart' hsends')

end Ahjoor
