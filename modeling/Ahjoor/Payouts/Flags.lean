import Ahjoor.Async.Executions
import Ahjoor.Payouts.Settlement

/-!
# What a settled record and a flag say

Two things are read off the tables by the rest of the program: the status of a payout record, and
the flag `hasReceivedPayout` of a membership. Calls crash between the chain, the record and the
flag, so neither says that the others have followed. What holds at every moment is the other way
round: a settled record repeats what the chain has decided about the hash in it, and a flagged
membership has a record of its payout that has left `PENDING_SUBMISSION` for good.
-/

namespace Ahjoor.Payouts

open Async Bullmq Store StellarService PayoutService

variable {sdk : Sdk} {cfg : Config}

/-! ### What is read off the tables -/

/-- A settled record says what the chain has decided about its hash. A record without a hash may be
`FAILED`: nothing of it is known to have been sent. -/
def Truthful (chain : Chain) (p : PayoutTransaction) : Prop :=
  match p.status with
  | .confirmed => ∃ hash, p.txHash = some hash ∧ chain.verdict hash = some .confirmed
  | .failed => ∀ hash, p.txHash = some hash → chain.verdict hash = some .failed
  | _ => True

/-- The record has a hash and has left `PENDING_SUBMISSION`. -/
def Sent (p : PayoutTransaction) : Prop :=
  truthy p.txHash = true ∧ p.status ≠ .pendingSubmission

/-- The payout of a membership has a record, which is `SUBMITTED` or settled. -/
def HasRecord (d : Database) (m : Membership) : Prop :=
  ∃ round c, m.payoutOrder = some (round - 1) ∧ d.payoutTransactions.row c.id = some c ∧
    c.payoutOrderId = buildPayoutOrderId m.groupId round ∧ Sent c

/-! ### The chain's decisions -/

/-- What the chain has reported to a call as final is decided. -/
def Decided (h : PayoutHist) : Prop :=
  ∀ pid hash v, Reported (log pid h.trace) hash v → v ≠ .pending →
    h.world.chain.verdict hash = some v

section Steps

variable {h h' : PayoutHist}

/-- The chain takes no decision back. -/
theorem decided_mono (hs : HistStep (payoutSystem sdk cfg) May h h') {hash : String} {v : TxStatus}
    (hv : h.world.chain.verdict hash = some v) : h'.world.chain.verdict hash = some v := by
  cases hs with
  | idle e he hlive => exact hv
  | did pid c o choice r w hstart hD hexec hlive => exact verdict_exec hexec hv

theorem Decided.step (hd : Decided h) (hs : HistStep (payoutSystem sdk cfg) May h h') :
    Decided h' := by
  rintro pid hash v ⟨n, i, initial, start, record, hmem, rfl⟩ hfinal
  rcases hs.mem_log hmem with hmem | ⟨choice, hexec⟩
  · exact decided_mono hs (hd pid hash _ ⟨n, i, initial, start, record, hmem, rfl⟩ hfinal)
  · exact verdict_of_report hexec hfinal

theorem Truthful.mono {p : PayoutTransaction} (hp : Truthful h.world.chain p)
    (hs : HistStep (payoutSystem sdk cfg) May h h') : Truthful h'.world.chain p := by
  unfold Truthful at hp ⊢
  split at hp
  · obtain ⟨hash, hhash, hv⟩ := hp
    exact ⟨hash, hhash, decided_mono hs hv⟩
  · exact fun hash hhash => decided_mono hs (hp hash hhash)
  · trivial

/-- What a call saves is truthful. -/
theorem truthful_of_save {chain : Chain} {L : Log Op.Ret}
    (hL : ∀ hash v, Reported L hash v → v ≠ .pending → chain.verdict hash = some v)
    {call : PayoutCall} {p : PayoutTransaction} (hD : May call L (.db (.savePayout p))) :
    Truthful chain p := by
  cases call with
  | distribute groupId round =>
    cases hD with
    | minor hm => cases hm
    | save hsave =>
      cases hsave with
      | hash _ _ hstatus _ => simp [Truthful, hstatus]
      | submitted _ _ hstatus _ => simp [Truthful, hstatus]
      | failed _ _ hstatus hhash _ _ => simp [Truthful, hstatus, hhash]
  | sweep => cases hD
  | reconcile jobId =>
    cases hD with
    | remote hm => cases hm
    | @settle _ job t _ htake hread hopen hhash hsaves hsettles =>
      obtain ⟨hash, hthash⟩ := exists_of_truthy hhash
      cases hsettles with
      | confirmed hreport =>
        rw [hthash] at hreport
        exact ⟨hash, hthash, hL hash _ hreport nofun⟩
      | failed hreport =>
        rw [hthash] at hreport
        intro hash' hhash'
        obtain rfl : hash = hash' := Option.some.inj (hthash.symm.trans hhash')
        exact hL hash _ hreport nofun
  | stalled jobId => cases hD
  | expired jobId => cases hD

/-- A new record is inserted by `distributePayout`, as `PENDING_SUBMISSION`. -/
theorem pending_of_insert {L : Log Op.Ret} {call : PayoutCall} {created : PayoutTransaction}
    (hD : May call L (.db (.insertPayout created))) : created.status = .pendingSubmission := by
  cases call with
  | distribute groupId round =>
    cases hD with
    | minor hm => cases hm
    | insert hkey hstatus hhash hfirst => exact hstatus
  | sweep => cases hD
  | reconcile jobId =>
    cases hD with
    | remote hm => cases hm
  | stalled jobId => cases hD
  | expired jobId => cases hD

/-- Every record is truthful. -/
def AllTruthful (w : World) : Prop :=
  ∀ i p, w.db.payoutTransactions.row i = some p → Truthful w.chain p

theorem allTruthful_step (hd : Decided h) (ha : AllTruthful h.world)
    (hs : HistStep (payoutSystem sdk cfg) May h h') : AllTruthful h'.world := by
  intro i p hrow
  rcases row_was_or_written hs hrow with hold | ⟨pid, call, o, r, -, -, hD, hwritten⟩
  · exact (ha i p hold).mono hs
  rcases hwritten with ⟨created, rfl, -, rfl⟩ | ⟨rfl, -⟩
  · simp [Truthful, pending_of_insert hD]
  · exact (truthful_of_save (hd pid) hD).mono hs

end Steps

/-- **A settled record says what the chain has decided**, in every run: `CONFIRMED` that the
transaction with the record's hash has succeeded, `FAILED` that it has failed or that there is no
hash. -/
theorem truthful_of_reachable (sdk : Sdk) (cfg : Config) {w : World} (h₀ : AllTruthful w)
    {s : PayoutState} (hr : (payoutSystem sdk cfg).Reachable (.init w) s) :
    AllTruthful s.hist.world :=
  (payout_rule (I := fun h => Decided h ∧ AllTruthful h.world)
    ⟨fun _ _ _ ⟨_, _, _, _, _, hmem, _⟩ => absurd hmem List.not_mem_nil, h₀⟩
    (fun _ _ _ _ hI hs _ => ⟨hI.1.step hs, allTruthful_step hI.1 hI.2 hs⟩) hr).2.2

/-- A whole payout: it is submitted and flagged, and a job confirms it. -/
def paidSchedule : List PayoutMove := sentSchedule ++ dones 0 4 ++ .finish 0 :: confirmSchedule 1

/-- A confirmed record, and the decision of the chain that it repeats. -/
theorem truthful_of_reachable_confirmed : ∃ (s : PayoutState) (c : PayoutTransaction) (hash : String),
    (payoutSystem Sample.sdk Sample.cfg).Reachable
      (.init (Sample.world Sample.group [Sample.member])) s ∧
    (records s.hist).row 0 = some c ∧ c.status = .confirmed ∧ c.txHash = some hash ∧
    s.hist.world.chain.verdict hash = some .confirmed := by
  obtain ⟨s, hr, hs⟩ := System.exists_of_replay (payoutSystem Sample.sdk Sample.cfg)
    (fun _ _ => True) (.init (Sample.world Sample.group [Sample.member])) paidSchedule
    (statusIs .confirmed) (by decide +kernel)
  obtain ⟨c, hrow, hc⟩ := status_of_statusIs hs
  have hempty : AllTruthful (Sample.world Sample.group [Sample.member]) := fun _ _ hrow => by cases hrow
  have htrue := truthful_of_reachable Sample.sdk Sample.cfg hempty hr 0 c hrow
  rw [Truthful, hc] at htrue
  obtain ⟨hash, hhash, hverdict⟩ := htrue
  exact ⟨s, c, hash, hr, hrow, hc, hhash, hverdict⟩

/-! ### Records that have been sent -/

/-- The record is sent and stays so: the call that has inserted it, if it is one of this run, has
saved it as `SUBMITTED`, and it saves nothing else from then on. -/
def Secure (h : PayoutHist) (i : ℕ) : Prop :=
  ∃ c, (records h).row i = some c ∧ Sent c ∧
    ∀ pid created stored, Inserted (log pid h.trace) created stored → stored.id = i →
      ∃ p ∈ saves (log pid h.trace), p.status = .submitted

section Steps

variable {h h' : PayoutHist}

/-- What a call saves over a secure record is sent. -/
theorem sent_of_save {L : Log Op.Ret} {call : PayoutCall} {p : PayoutTransaction}
    (howner : ∀ created stored, Inserted L created stored → stored.id = p.id →
      ∃ q ∈ saves L, q.status = .submitted)
    (hD : May call L (.db (.savePayout p))) : Sent p := by
  cases call with
  | distribute groupId round =>
    cases hD with
    | minor hm => cases hm
    | save hsave =>
      have hsubmitted : ∃ q ∈ saves L, q.status = .submitted := by
        obtain ⟨created, stored, hins, hid, -⟩ : Own L p := by cases hsave <;> assumption
        exact howner created stored hins hid.symm
      obtain ⟨q, hq, hstatus⟩ := hsubmitted
      cases hsave with
      | hash _ hsaves _ _ => simp [hsaves] at hq
      | submitted _ _ hp hhash => exact ⟨hhash, by simp [hp]⟩
      | failed _ hsaves _ _ _ _ => simp [hsaves q hq] at hstatus
  | sweep => cases hD
  | reconcile jobId =>
    cases hD with
    | remote hm => cases hm
    | settle htake hread hopen hhash hsaves hsettles =>
      cases hsettles with
      | confirmed _ => exact ⟨hhash, nofun⟩
      | failed _ => exact ⟨hhash, nofun⟩
  | stalled jobId => cases hD
  | expired jobId => cases hD

/-- What a step adds to the saves of a call stays there. -/
theorem saves_mono (hs : HistStep (payoutSystem sdk cfg) May h h') {pid : ℕ}
    {p : PayoutTransaction} (hp : p ∈ saves (log pid h.trace)) : p ∈ saves (log pid h'.trace) := by
  obtain ⟨r, hmem⟩ := mem_saves.mp hp
  exact mem_saves.mpr ⟨r, (hs.log_suffix pid).subset hmem⟩

/-- A record that is in the table is inserted by no later step. -/
theorem inserted_of_row (hs : HistStep (payoutSystem sdk cfg) May h h') {i : ℕ}
    {c : PayoutTransaction} (hrow : (records h).row i = some c) {pid : ℕ}
    {created stored : PayoutTransaction} (hins : Inserted (log pid h'.trace) created stored)
    (hid : stored.id = i) : Inserted (log pid h.trace) created stored := by
  rcases hs.mem_log hins with hold | ⟨choice, hexec⟩
  · exact hold
  · obtain ⟨-, rfl, -⟩ := exec_insertPayout hexec
    subst hid
    exact absurd ((Table.row_next (records h)).symm.trans hrow) nofun

/-- **A secure record stays secure.** -/
theorem Secure.step {i : ℕ} (hi : Secure h i) (hs : HistStep (payoutSystem sdk cfg) May h h') :
    Secure h' i := by
  obtain ⟨c, hrow, hsent, howner⟩ := hi
  have howner' : ∀ pid created stored, Inserted (log pid h'.trace) created stored →
      stored.id = i → ∃ p ∈ saves (log pid h'.trace), p.status = .submitted := by
    intro pid created stored hins hid
    obtain ⟨p, hp, hstatus⟩ := howner pid created stored (inserted_of_row hs hrow hins hid) hid
    exact ⟨p, saves_mono hs hp, hstatus⟩
  rcases row_kept_or_saved hs hrow with hkept | ⟨pid, call, p, r, -, -, hD, rfl, hrow'⟩
  · exact ⟨c, hkept, hsent, howner'⟩
  · exact ⟨p, hrow', sent_of_save (howner pid) hD, howner'⟩

/-- Two calls of a run do not insert one record. -/
theorem eq_of_inserted (hsound : Sound h) (hk : KeepsKeys h) (ho : OneInsert h) {pid q : ℕ}
    {c c' p p' : PayoutTransaction} (hins : Inserted (log pid h.trace) c p)
    (hins' : Inserted (log q h.trace) c' p') (hid : p.id = p'.id) : pid = q := by
  obtain ⟨row, hrow, hkey⟩ := hk p (shown_of_inserted hins)
  obtain ⟨row', hrow', hkey'⟩ := hk p' (shown_of_inserted hins')
  obtain rfl : row = row' := Option.some.inj (hrow.symm.trans (hid ▸ hrow'))
  have hp : p.payoutOrderId = c.payoutOrderId := by rw [hsound.honest pid c p hins]
  have hp' : p'.payoutOrderId = c'.payoutOrderId := by rw [hsound.honest q c' p' hins']
  have hkeys : c.payoutOrderId = c'.payoutOrderId := by rw [← hp, ← hp', ← hkey, ← hkey']
  exact (ho pid q c c' p p' hins hins' hkeys).1

/-- `SUBMITTED` is saved by the call that has inserted the record, with a hash. -/
theorem own_of_save {L : Log Op.Ret} {call : PayoutCall} {p : PayoutTransaction}
    (hD : May call L (.db (.savePayout p))) (hstatus : p.status = .submitted) :
    Own L p ∧ truthy p.txHash = true := by
  cases call with
  | distribute groupId round =>
    cases hD with
    | minor hm => cases hm
    | save hsave =>
      cases hsave with
      | hash hown _ hp _ => rw [hstatus] at hp; cases hp
      | submitted hown _ _ hhash => exact ⟨hown, hhash⟩
      | failed hown _ hp _ _ _ => rw [hstatus] at hp; cases hp
  | sweep => cases hD
  | reconcile jobId =>
    cases hD with
    | remote hm => cases hm
    | settle htake hread hopen hhash hsaves hsettles =>
      cases hsettles <;> cases hstatus
  | stalled jobId => cases hD
  | expired jobId => cases hD

/-- Once a call's save of `SUBMITTED` is acknowledged, its record is secure. -/
def Submitted (h : PayoutHist) : Prop :=
  ∀ pid p, SavedOk (log pid h.trace) p → p.status = .submitted → Secure h p.id

theorem Submitted.step (hsub : Submitted h) (hsound' : Sound h') (hk' : KeepsKeys h')
    (ho' : OneInsert h') (hs : HistStep (payoutSystem sdk cfg) May h h') : Submitted h' := by
  have stays : ∀ {i}, Secure h i → Secure h' i := fun hi => hi.step hs
  intro pid p hsaved hstatus
  cases hs with
  | idle e he hlive =>
    rw [Hist.push_trace, he] at hsaved
    exact stays (hsub pid p hsaved hstatus)
  | did q c o choice r w hstart hD hexec hlive =>
    by_cases hq : q = pid
    · subst hq
      have hlog : log q (h.push (.did q o r h.world) w).trace = ⟨o, r⟩ :: log q h.trace :=
        log_did_self ..
      rcases List.mem_cons.mp (hlog ▸ hsaved) with heq | hold
      · -- the save of this step
        cases heq
        obtain ⟨⟨created, stored, hins, hid, -⟩, hhash⟩ := own_of_save hD hstatus
        obtain ⟨-, rfl⟩ := exec_db_ok hexec
        refine ⟨p, Table.row_put_self _ _, ⟨hhash, by simp [hstatus]⟩, ?_⟩
        intro pid' created' stored' hins' hid'
        have hins₁ : Inserted (log q (h.push _ _).trace) created stored :=
          hlog ▸ List.mem_cons_of_mem _ hins
        obtain rfl : q = pid' := eq_of_inserted hsound' hk' ho' hins₁ hins' (hid.symm.trans hid'.symm)
        exact ⟨p, mem_saves.mpr ⟨_, hsaved⟩, hstatus⟩
      · exact stays (hsub q p hold hstatus)
    · have hlog : log pid (h.push (.did q o r h.world) w).trace = log pid h.trace :=
        log_cons_of_ne (e := .did q o r h.world) hq _
      exact stays (hsub pid p (hlog ▸ hsaved) hstatus)

end Steps

/-! ### Flagged memberships -/

/-- The table of memberships. -/
abbrev members (h : PayoutHist) : Table Membership := h.world.db.memberships

/-- What a call has read as a membership satisfies the condition it was selected by. -/
def Selected (h : PayoutHist) : Prop :=
  ∀ pid sel m, ⟨.db (.findMembership sel), .ok (some m)⟩ ∈ log pid h.trace → sel.selects m = true

/-- The payout of a membership has a secure record. -/
def Recorded (h : PayoutHist) (m : Membership) : Prop :=
  ∃ round c, m.payoutOrder = some (round - 1) ∧ (records h).row c.id = some c ∧
    c.payoutOrderId = buildPayoutOrderId m.groupId round ∧ Secure h c.id

/-- Every flagged membership has a secure record of its payout. -/
def FlagsRecorded (h : PayoutHist) : Prop :=
  ∀ i m, (members h).row i = some m → m.hasReceivedPayout = true → Recorded h m

section Steps

variable {h h' : PayoutHist}

theorem Selected.step (hsel : Selected h) (hs : HistStep (payoutSystem sdk cfg) May h h') :
    Selected h' := by
  intro pid sel m hmem
  rcases hs.mem_log hmem with hold | ⟨choice, hexec⟩
  · exact hsel pid sel m hold
  · obtain ⟨heval, -⟩ := exec_db_ok hexec
    exact (Table.of_find?_eq_some (Except.ok.inj heval)).2

/-- The memberships are written by `distributePayout` alone, when it flags its recipient. -/
theorem flag_of_writes {L : Log Op.Ret} {call : PayoutCall} {q : Query} (hD : May call L (.db q))
    (hq : q.writesMemberships = true) :
    ∃ groupId round m p txHash, call = .distribute groupId round ∧
      q = .saveMembership { m with hasReceivedPayout := true, transactionHash := some txHash } ∧
      ⟨.db (.findMembership { groupId := some groupId, payoutOrder := some (round - 1) }),
        .ok (some m)⟩ ∈ L ∧
      Own L p ∧ p.status = .submitted ∧ SavedOk L p := by
  cases call with
  | distribute groupId round =>
    cases hD with
    | minor hm => cases q <;> first | (cases hq; done) | cases hm
    | flag hread hown hstatus hsaved hqueued =>
      exact ⟨groupId, round, _, _, _, rfl, rfl, hread, hown, hstatus, hsaved⟩
    | _ => cases hq
  | sweep =>
    cases hD with
    | read => cases hq
  | reconcile jobId =>
    cases hD with
    | remote hm => cases hm
    | _ => cases hq
  | stalled jobId => cases hD
  | expired jobId => cases hD

theorem Recorded.step {m : Membership} (hm : Recorded h m) (hk : KeepsKeys h)
    (hs : HistStep (payoutSystem sdk cfg) May h h') : Recorded h' m := by
  obtain ⟨round, c, horder, hrow, hkey, hsecure⟩ := hm
  obtain ⟨c', hrow', hkey'⟩ := hk.row hs hrow
  have hid : c'.id = c.id := (records h').id_of_row hrow'
  exact ⟨round, c', horder, by rwa [hid], hkey'.trans hkey, by
    rw [hid]
    exact hsecure.step hs⟩

/-- What the call that flags a membership knows: the membership is the one scheduled for the
round, and the payout of that round is recorded. -/
theorem recorded_of_flag (hsel : Selected h) (hsub : Submitted h) (hk : KeepsKeys h)
    (hsound : Sound h) {pid : ℕ} {groupId : Uuid} {round : ℤ} {m m' : Membership}
    {p : PayoutTransaction} (hstart : Event.start pid (.distribute groupId round) ∈ h.trace)
    (hread : ⟨.db (.findMembership { groupId := some groupId, payoutOrder := some (round - 1) }),
      .ok (some m)⟩ ∈ log pid h.trace)
    (hown : Own (log pid h.trace) p) (hstatus : p.status = .submitted)
    (hsaved : SavedOk (log pid h.trace) p) (hgroup : m'.groupId = m.groupId)
    (horder : m'.payoutOrder = m.payoutOrder) : Recorded h m' := by
  have hselects := hsel pid _ m hread
  simp only [MembershipWhere.selects, given, Option.all_some, Option.all_none, Option.isNone_some,
    Bool.false_or, Bool.and_true, Bool.and_eq_true, beq_iff_eq] at hselects
  obtain ⟨hm, ho⟩ := hselects
  obtain ⟨created, stored, hins, hid, hkey⟩ := hown
  obtain ⟨c, hrow, hckey⟩ := hk stored (shown_of_inserted hins)
  have hcid : c.id = stored.id := (records h).id_of_row hrow
  have hcreated := (created_of_inserted (hsound.lawful pid _ hstart) hins).1
  refine ⟨round, c, ?_, by rwa [hcid], ?_, ?_⟩
  · rw [horder, ← ho]
  · rw [hckey, hsound.honest pid created stored hins, hgroup, ← hm]
    exact hcreated
  · rw [hcid, ← hid]
    exact hsub pid p hsaved hstatus

theorem FlagsRecorded.step (hf : FlagsRecorded h) (hsel : Selected h) (hsub : Submitted h)
    (hk : KeepsKeys h) (hsound : Sound h) (hs : HistStep (payoutSystem sdk cfg) May h h') :
    FlagsRecorded h' := by
  have stays : ∀ {m}, Recorded h m → Recorded h' m := fun hm => hm.step hk hs
  intro i m hrow hflag
  cases hs with
  | idle e he hlive => exact stays (hf i m hrow hflag)
  | did pid c o choice r w hstart hD hexec hlive =>
    have hexec : exec o pid choice h.world = some (r, w) := hexec
    have same : w.db.memberships = members h → (members h).row i = some m := fun heq => by
      rw [← heq]
      exact hrow
    cases o with
    | db q =>
      cases hq : q.writesMemberships with
      | false =>
        refine stays (hf i m (same ?_) hflag)
        rcases db_of_exec_db hexec with heq | heq
        · rw [heq]
        · rw [heq, Query.memberships_eval hq]
      | true =>
        obtain ⟨groupId, round, m₀, p, txHash, rfl, rfl, hread, hown, hstatus, hsaved⟩ :=
          flag_of_writes hD hq
        rcases db_of_exec_db hexec with heq | heq
        · exact stays (hf i m (same (congrArg Database.memberships heq)) hflag)
        have hput : w.db.memberships = (members h).put
            { m₀ with hasReceivedPayout := true, transactionHash := some txHash } := by
          rw [heq]
          rfl
        by_cases hi : i = m₀.id
        · have hself : w.db.memberships.row i =
              some { m₀ with hasReceivedPayout := true, transactionHash := some txHash } := by
            rw [hput, hi]
            exact Table.row_put_self _ _
          obtain rfl := Option.some.inj (hrow.symm.trans hself)
          exact stays (recorded_of_flag hsel hsub hk hsound hstart hread hown hstatus hsaved rfl rfl)
        · have hother : w.db.memberships.row i = (members h).row i := by
            rw [hput]
            exact Table.row_put_of_ne _ hi
          exact stays (hf i m (hother.symm.trans hrow) hflag)
    | commit => exact absurd rfl (not_commit_of_may hD)
    | _ =>
      refine stays (hf i m (same ?_) hflag)
      rw [(changes_of_exec hexec).db rfl]

end Steps

/-- **A flagged membership has a record of its payout**, in every run: one with the key of its
group and round, with a hash, and `SUBMITTED` or settled, wherever calls crash and however they
overlap. -/
theorem hasRecord_of_flagged (sdk : Sdk) (cfg : Config) {w : World}
    (h₀ : ∀ i m, w.db.memberships.row i = some m → m.hasReceivedPayout = true → HasRecord w.db m)
    {s : PayoutState} (hr : (payoutSystem sdk cfg).Reachable (.init w) s) :
    ∀ i m, s.hist.world.db.memberships.row i = some m → m.hasReceivedPayout = true →
      HasRecord s.hist.world.db m := by
  have hinit : FlagsRecorded ⟨w, []⟩ := by
    intro i m hrow hflag
    obtain ⟨round, c, horder, hc, hkey, hsent⟩ := h₀ i m hrow hflag
    exact ⟨round, c, horder, hc, hkey, c, hc, hsent, fun _ _ _ hins => absurd hins List.not_mem_nil⟩
  obtain ⟨-, -, -, -, hf⟩ := payout_rule
    (I := fun h => (KeepsKeys h ∧ OneInsert h) ∧ Selected h ∧ Submitted h ∧ FlagsRecorded h)
    ⟨keys_init w, fun _ _ _ hmem => absurd hmem List.not_mem_nil,
      fun _ _ hmem => absurd hmem List.not_mem_nil, hinit⟩
    (fun h h' hsound hsound' hI hs _ => by
      obtain ⟨⟨hk, ho⟩, hsel, hsub, hf⟩ := hI
      have hk' := hk.step hs
      have ho' := ho.step hsound hk hs
      exact ⟨⟨hk', ho'⟩, hsel.step hs, hsub.step hsound' hk' ho' hs,
        hf.step hsel hsub hk hsound hs⟩) hr
  intro i m hrow hflag
  obtain ⟨round, c, horder, hc, hkey, c', hc', hsent, -⟩ := hf i m hrow hflag
  obtain rfl : c = c' := Option.some.inj (hc.symm.trans hc')
  exact ⟨round, c, horder, hc, hkey, hsent⟩

/-- A member who has been paid out, and the record of the payout. -/
theorem hasRecord_of_flagged_paid : ∃ (s : PayoutState) (m : Membership),
    (payoutSystem Sample.sdk Sample.cfg).Reachable
      (.init (Sample.world Sample.group [Sample.member])) s ∧
    s.hist.world.db.memberships.row 0 = some m ∧ m.hasReceivedPayout = true ∧
    HasRecord s.hist.world.db m := by
  obtain ⟨s, hr, hs⟩ := System.exists_of_replay (payoutSystem Sample.sdk Sample.cfg)
    (fun _ _ => True) (.init (Sample.world Sample.group [Sample.member])) paidSchedule
    (fun s => (members s.hist).row 0 |>.any (·.hasReceivedPayout)) (by decide +kernel)
  obtain ⟨m, hrow, hflag⟩ := System.exists_of_any hs
  have hinit : ∀ i m, (Sample.world Sample.group [Sample.member]).db.memberships.row i = some m →
      m.hasReceivedPayout = true → HasRecord (Sample.world Sample.group [Sample.member]).db m := by
    intro i m hm hflag
    by_cases hi : i = Sample.member.id
    · subst hi
      cases (Table.row_put_self Table.empty Sample.member).symm.trans hm
      cases hflag
    · exact absurd ((Table.row_put_of_ne Table.empty hi).symm.trans hm) nofun
  exact ⟨s, m, hr, hrow, hflag, hasRecord_of_flagged Sample.sdk Sample.cfg hinit hr 0 m hrow hflag⟩

end Ahjoor.Payouts
