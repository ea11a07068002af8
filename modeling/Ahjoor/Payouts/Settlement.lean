import Ahjoor.Payouts.Submission

/-!
# Settled records

A record is *settled* when its status is `CONFIRMED` or `FAILED`. The code saves whole rows from
copies read earlier, so a settled record can be overwritten by a call that has not seen it
settle: such a save is *stale*. As long as no stale save takes effect, a settled status is
final, because a call never overwrites a settled status that it knows of: `distributePayout`
saves nothing but `FAILED` over a failure of its own, and a job saves only over a copy whose
outcome is open.
-/

namespace Ahjoor

open Async Bullmq Store StellarService PayoutService

variable {sdk : Sdk} {cfg : Config}

/-! ### What a call knows of a status -/

/-- The status that an entry shows or attempts to save for the record `id`. -/
def statusAt (id : Uuid) (e : Entry Op.Ret) : Option PayoutTransactionStatus :=
  ((e.1.savedPayout.toList ++ shown e).find? fun p => p.id == id).map (·.status)

/-- The status of the record `id` that the call last read or wrote. -/
def lastStatus (id : Uuid) (L : Log Op.Ret) : Option PayoutTransactionStatus :=
  L.findSome? (statusAt id)

theorem lastStatus_cons_of_some {id : Uuid} {e : Entry Op.Ret} {st : PayoutTransactionStatus}
    (h : statusAt id e = some st) (L : Log Op.Ret) : lastStatus id (e :: L) = some st := by
  rw [lastStatus, List.findSome?_cons, h]

theorem lastStatus_cons_of_none {id : Uuid} {e : Entry Op.Ret} (h : statusAt id e = none)
    (L : Log Op.Ret) : lastStatus id (e :: L) = lastStatus id L := by
  rw [lastStatus, List.findSome?_cons, h]
  rfl

theorem statusAt_eq_none {id : Uuid} {e : Entry Op.Ret} (hsaved : e.1.savedPayout = none)
    (hshown : shown e = []) : statusAt id e = none := by
  rw [statusAt, hsaved, hshown]
  rfl

theorem statusAt_of_shown {id : Uuid} {e : Entry Op.Ret} {t : PayoutTransaction}
    (hsaved : e.1.savedPayout = none) (hshown : shown e = [t]) (hid : t.id = id) :
    statusAt id e = some t.status := by
  simp [statusAt, hsaved, hshown, hid]

theorem statusAt_save {id : Uuid} {p : PayoutTransaction} {r : (Op.db (.savePayout p)).Ret} :
    statusAt id ⟨.db (.savePayout p), r⟩ = if p.id = id then some p.status else none := by
  have hshown : shown ⟨.db (.savePayout p), r⟩ = [] := by cases r <;> rfl
  rw [statusAt, hshown, List.append_nil]
  by_cases hid : p.id = id <;> simp [Op.savedPayout, hid]

theorem shown_of_isMinor {e : Entry Op.Ret} (h : e.1.isMinor = true) : shown e = [] := by
  obtain ⟨o, r⟩ := e
  cases o with
  | db q => cases q <;> first | (cases r <;> rfl) | cases h
  | _ => rfl

/-- What `distributePayout` knows of its record is what it inserted or a status it saved. -/
theorem lastStatus_of_inserted {groupId : Uuid} {round : ℤ} {L : Log Op.Ret}
    (hL : Lawful (MayPay groupId round) L) {c q : PayoutTransaction} (hins : Inserted L c q) :
    ∃ st, lastStatus q.id L = some st ∧ (st = q.status ∨ ∃ p ∈ saves L, st = p.status) := by
  induction L with
  | nil => cases hins
  | cons e L ih =>
    rcases List.mem_cons.mp hins with rfl | hins'
    · exact ⟨q.status, lastStatus_cons_of_some (statusAt_of_shown rfl rfl rfl) L, .inl rfl⟩
    obtain ⟨st, hst, hfrom⟩ := ih hL.2 hins'
    obtain ⟨o, r⟩ := e
    have other (hsaved : o.savedPayout = none) (hshown : shown ⟨o, r⟩ = []) :
        ∃ st, lastStatus q.id (⟨o, r⟩ :: L) = some st ∧
          (st = q.status ∨ ∃ p ∈ saves (⟨o, r⟩ :: L), st = p.status) := by
      refine ⟨st, (lastStatus_cons_of_none (statusAt_eq_none hsaved hshown) L).trans hst, ?_⟩
      rwa [saves_cons hsaved]
    cases hL.1 with
    | minor h => exact other (savedPayout_of_isMinor h) (shown_of_isMinor h)
    | lookup h => exact absurd hins' (h c q)
    | insert _ _ _ h => exact absurd hins' (h c q)
    | submit _ _ => exact other rfl rfl
    | send _ _ => exact other rfl rfl
    | enqueue _ _ _ => exact other rfl rfl
    | resume _ _ => exact other rfl rfl
    | flag _ _ _ _ _ => exact other rfl (by cases r <;> rfl)
    | @save p h =>
      by_cases hid : p.id = q.id
      · exact ⟨p.status, lastStatus_cons_of_some (by rw [statusAt_save, if_pos hid]) L,
          .inr ⟨p, List.mem_cons_self, rfl⟩⟩
      · refine ⟨st, (lastStatus_cons_of_none (by rw [statusAt_save, if_neg hid]) L).trans hst, ?_⟩
        exact hfrom.imp_right fun ⟨p', hp', heq⟩ => ⟨p', List.mem_cons_of_mem _ hp', heq⟩

/-- What a job knows of its record before it saves anything is what it has read. -/
theorem lastStatus_of_found {jobId id : ℕ} {L : Log Op.Ret} (hL : Lawful (MayReconcile jobId) L)
    {t : PayoutTransaction} (hread : ⟨.db (.findPayout id), .ok (some t)⟩ ∈ L)
    (hsaves : saves L = []) : lastStatus t.id L = some t.status := by
  induction L with
  | nil => cases hread
  | cons e L ih =>
    rcases List.mem_cons.mp hread with rfl | hread'
    · exact lastStatus_cons_of_some (statusAt_of_shown rfl rfl rfl) L
    obtain ⟨o, r⟩ := e
    have other (hsaved : o.savedPayout = none) (hshown : shown ⟨o, r⟩ = []) :
        lastStatus t.id (⟨o, r⟩ :: L) = some t.status := by
      rw [lastStatus_cons_of_none (statusAt_eq_none hsaved hshown)]
      exact ih hL.2 hread' (by rwa [saves_cons hsaved] at hsaves)
    cases hL.1 with
    | take => exact absurd hread' List.not_mem_nil
    | remote h => exact other (savedPayout_of_isRemote h) (shown_of_isMinor (isMinor_of_isRemote h))
    | read _ hfirst _ => cases hfirst _ hread'
    | settle _ _ _ _ _ _ => cases hsaves
    | finish _ _ => exact other rfl rfl

/-- **A call never overwrites a settled status that it knows of**, except with itself. -/
theorem lastStatus_of_save {call : PayoutCall} {L : Log Op.Ret} (hL : Lawful (May call) L)
    (hh : Honest L) {p : PayoutTransaction} (hD : May call L (.db (.savePayout p))) :
    ∃ st, lastStatus p.id L = some st ∧ (st.Settled → st = p.status) := by
  cases call with
  | distribute groupId round =>
    cases hD with
    | minor h => cases h
    | save hsave =>
      obtain ⟨c, q, hins, hid, -⟩ : Own L p := by cases hsave <;> assumption
      obtain ⟨st, hst, hfrom⟩ := lastStatus_of_inserted hL hins
      have hq : q.status = .pendingSubmission := by
        rw [hh c q hins]
        exact (created_of_inserted hL hins).2.1
      refine ⟨st, hid ▸ hst, fun hsettled => ?_⟩
      have hst' : st ≠ .pendingSubmission := by
        rintro rfl
        exact hsettled.elim nofun nofun
      rcases hfrom with rfl | ⟨p', hp', rfl⟩
      · exact absurd hq hst'
      · cases hsave with
        | hash _ hsaves _ _ => simp [hsaves] at hp'
        | submitted _ hsaves _ _ => exact absurd (hsaves p' hp') hst'
        | failed _ hsaves hstatus _ _ _ => rw [hsaves p' hp', hstatus]
  | sweep => cases hD
  | reconcile jobId =>
    cases hD with
    | remote h => cases h
    | @settle _ job t _ htake hread hopen hhash hsaves hp =>
      have hid : p.id = t.id := by cases hp <;> rfl
      refine ⟨t.status, hid ▸ lastStatus_of_found hL hread hsaves, fun hsettled => ?_⟩
      rcases hopen with h | ⟨h, -⟩ <;> rcases hsettled with h' | h' <;> rw [h] at h' <;> cases h'
  | stalled jobId => cases hD
  | expired jobId => cases hD

/-! ### Settled statuses are final -/

/-- No stale save takes effect: when a call's save reaches a settled record, the record's
status is the one that the call last read or wrote, or the one that it saves. -/
def NoStaleSave (h h' : PayoutHist) : Prop :=
  match h'.trace with
  | .did pid (.db (.savePayout p)) _ _ :: _ =>
      (records h').row p.id = some p → ∀ c ∈ (records h).row p.id, c.status.Settled →
        lastStatus p.id (log pid h.trace) = some c.status ∨ p.status = c.status
  | _ => True

instance : DecidableRel NoStaleSave := fun h h' => by
  unfold NoStaleSave
  rcases h'.trace with _ | ⟨_ | ⟨_, o, _, _⟩ | _ | _, _⟩
  case cons.did =>
    cases o with
    | db q => cases q <;> infer_instance
    | _ => infer_instance
  all_goals infer_instance

/-- A step without a stale save keeps a settled status. -/
theorem settled_step {h h' : PayoutHist} (hs : Sound h)
    (hstep : HistStep (payoutSystem sdk cfg) May h h') (hok : NoStaleSave h h') {i : ℕ}
    {c : PayoutTransaction} (hrow : (records h).row i = some c) (hsettled : c.status.Settled) :
    ∃ c', (records h').row i = some c' ∧ c'.status = c.status := by
  rcases row_kept_or_saved hstep hrow with hrow' | ⟨pid, call, p, r, hcons, hstart, hD, rfl, hrow'⟩
  · exact ⟨c, hrow', rfl⟩
  refine ⟨p, hrow', ?_⟩
  rw [NoStaleSave, hcons] at hok
  rcases hok hrow' c hrow hsettled with hlast | heq
  · obtain ⟨st, hst, hfinal⟩ := lastStatus_of_save (hs.lawful pid call hstart) (hs.honest pid) hD
    obtain rfl : st = c.status := Option.some.inj (hst.symm.trans hlast)
    exact (hfinal hsettled).symm
  · exact heq

/-- A settled status never changes: in every run from `w`, a record that is settled keeps its
status from then on. -/
def SettledFinal (sdk : Sdk) (cfg : Config) (ok : PayoutHist → PayoutHist → Prop) (w : World) :
    Prop :=
  ∀ s s', (payoutSystem sdk cfg).ReachableWhen ok (.init w) s →
    (payoutSystem sdk cfg).ReachableWhen ok s s' →
    ∀ i c, (records s.hist).row i = some c → c.status.Settled →
      ∃ c', (records s'.hist).row i = some c' ∧ c'.status = c.status

/-- **Without stale saves, `CONFIRMED` and `FAILED` are final**, in every run from any world. -/
theorem settledFinal_of_noStaleSave (sdk : Sdk) (cfg : Config) (w : World) :
    SettledFinal sdk cfg NoStaleSave w := by
  intro s s' hr hr' i c hrow hsettled
  induction hr' with
  | refl => exact ⟨c, hrow, rfl⟩
  | tail hrun hstep ih =>
    obtain ⟨c₁, hrow₁, hst₁⟩ := ih
    obtain ⟨hsound, hhist⟩ := histStep_of_step (hr.trans hrun) hstep
    obtain ⟨c₂, hrow₂, hst₂⟩ := settled_step hsound hhist hstep.2 hrow₁ (by rwa [hst₁])
    exact ⟨c₂, hrow₂, hst₂.trans hst₁⟩

/-- The schedule of a payout through the contract, up to the sending of its transaction. -/
def sentSchedule : List PayoutMove :=
  (.start (.distribute 0 1) :: dones 0 8 : List PayoutMove) ++
    ([.run 0 (.answer (.bool true)), .run 0 .done, .run 0 (.prepared 0), .run 0 (.simulated {}),
      .run 0 .done, .run 0 (.sent true (some {}))] : List PayoutMove)

/-- The moves of a job of call `pid` up to its save of `CONFIRMED`. -/
def confirmSchedule (pid : ℕ) : List PayoutMove :=
  .start (.reconcile 0) :: dones pid 2 ++
    [.run pid (.found (some { status := some "SUCCESS" })), .run pid .done]

/-- The status of the first record. -/
def statusIs (st : PayoutTransactionStatus) (s : PayoutState) : Bool :=
  ((records s.hist).row 0).any fun c => c.status == st

theorem status_of_statusIs {st : PayoutTransactionStatus} {s : PayoutState}
    (h : statusIs st s = true) : ∃ c, (records s.hist).row 0 = some c ∧ c.status = st := by
  obtain ⟨c, hrow, hc⟩ := System.exists_of_any h
  exact ⟨c, hrow, by simpa using hc⟩

/-- A run without stale saves: the payout is confirmed after `distributePayout` has returned. -/
theorem settledFinal_sample : ∃ (s s' : PayoutState) (c c' : PayoutTransaction),
    (payoutSystem Sample.sdk Sample.cfg).ReachableWhen NoStaleSave
      (.init (Sample.world Sample.group [Sample.member])) s ∧
    (records s.hist).row 0 = some c ∧ c.status = .confirmed ∧
    (records s'.hist).row 0 = some c' ∧ c'.status = c.status := by
  obtain ⟨s, s', hr, hr', hs, -⟩ := System.exists_of_replay₂
    (payoutSystem Sample.sdk Sample.cfg) NoStaleSave
    (.init (Sample.world Sample.group [Sample.member]))
    (sentSchedule ++ dones 0 4 ++ .finish 0 :: confirmSchedule 1) [.run 1 .done, .finish 1]
    (statusIs .confirmed) (fun _ => true) (by decide +kernel)
  obtain ⟨c, hrow, hc⟩ := status_of_statusIs hs
  obtain ⟨c', hrow', hc'⟩ :=
    settledFinal_of_noStaleSave _ _ _ s s' hr hr' 0 c hrow (.inl hc)
  exact ⟨s, s', c, c', hr, hrow, hc, hrow', hc'⟩

/-- Stale saves happen: the payment is sent with its hash stored, a sweep enqueues the record and
the job confirms it while `distributePayout` waits for the reply, which then saves `SUBMITTED`
over `CONFIRMED`. -/
theorem not_settledFinal : ¬ SettledFinal Sample.sdk Sample.cfg (fun _ _ => True)
    (Sample.world Sample.group [Sample.member]) := by
  intro hfinal
  obtain ⟨s, s', hr, hr', hs, hs'⟩ := System.exists_of_replay₂
    (payoutSystem Sample.sdk Sample.cfg) (fun _ _ => True)
    (.init (Sample.world Sample.group [Sample.member]))
    (sentSchedule ++ .start .sweep :: dones 1 2 ++ .finish 1 :: confirmSchedule 2) [.run 0 .done]
    (statusIs .confirmed) (statusIs .submitted) (by decide +kernel)
  obtain ⟨c, hrow, hc⟩ := status_of_statusIs hs
  obtain ⟨c', hrow', hc'⟩ := status_of_statusIs hs'
  obtain ⟨c'', hrow'', heq⟩ := hfinal s s' hr hr' 0 c hrow (.inl hc)
  obtain rfl : c' = c'' := Option.some.inj (hrow'.symm.trans hrow'')
  rw [hc, hc'] at heq
  cases heq

end Ahjoor
