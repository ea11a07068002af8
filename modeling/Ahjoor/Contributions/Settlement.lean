import Ahjoor.Contributions.Confirmation

/-!
# Settled contributions

A job whose deadline has expired writes `FAILED` whatever becomes of the transaction. Every other
write repeats the final answer of the chain, which does not change. So a contribution leaves a
final status, or is `FAILED` although its transaction has succeeded, only in a run in which some
job has given up.
-/

namespace Ahjoor

open Async StellarService

/-! ### What a run keeps -/

section Runs

variable {cfg : Config} {contributionId : Uuid} {transactionHash : String}

/-- The contribution. -/
def contributionOf (contributionId : Uuid) (h : SettlementHist) : Option Contribution :=
  h.world.db.contributions.row contributionId

/-- **A job has given up**: its deadline has expired, and it has written `FAILED`. -/
def GaveUp (contributionId : Uuid) (es : List (Event Op.Ret World SettlementCall (Except Exc Unit))) :
    Prop :=
  ∃ pid polls userId deadline r w es', .did pid (settleOp contributionId .failed) r w :: es' <:+ es ∧
    .start pid (.process polls userId deadline) ∈ es' ∧ Expired deadline (log pid es')

theorem GaveUp.mono {es es' : List (Event Op.Ret World SettlementCall (Except Exc Unit))}
    (h : GaveUp contributionId es) (hes : es <:+ es') : GaveUp contributionId es' := by
  obtain ⟨pid, polls, userId, deadline, r, w, es₀, hsuffix, hstart, hexpired⟩ := h
  exact ⟨pid, polls, userId, deadline, r, w, es₀, hsuffix.trans hes, hstart, hexpired⟩

/-- What every run keeps of the contribution, of what the calls have read of it, and of what they
have been told by the chain. -/
structure Tracked (contributionId : Uuid) (transactionHash : String) (h : SettlementHist) :
    Prop where
  row : ∃ c, contributionOf contributionId h = some c ∧ c.transactionHash = transactionHash
  read : ∀ pid sel cs, ⟨.db (.findContributions sel), .ok cs⟩ ∈ log pid h.trace →
    ∀ c ∈ (cs : List Contribution), c.id = contributionId → c.transactionHash = transactionHash
  report : ∀ pid n i initial hash start record,
    ⟨.rpc n i initial (.getTransaction hash), (start, .ok record)⟩ ∈ log pid h.trace →
    txStatus record ≠ .pending → h.world.chain.verdict hash = some (txStatus record)

/-- The write of a status changes the status of its row, or nothing. -/
theorem row_updateContribution {d : Database} {i j : Uuid} {s : ContributionStatus}
    {c : Contribution} (hrow : d.contributions.row j = some c) :
    ((Query.updateContribution i { status := some s }).eval d).2.contributions.row j = some c ∨
      i = j ∧ ((Query.updateContribution i { status := some s }).eval d).2.contributions.row j =
        some { c with status := s } := by
  simp only [Query.eval]
  split
  · exact .inl hrow
  · next c' hrow' =>
    split
    · exact .inl hrow
    · have hid : Store.Entity.id (({ status := some s } : ContributionPatch).apply c') = i :=
        show Store.Entity.id c' = i from d.contributions.id_of_row hrow'
      by_cases hij : j = i
      · subst hij
        obtain rfl : c' = c := Option.some.inj (hrow'.symm.trans hrow)
        refine .inr ⟨rfl, ?_⟩
        rw [Store.Table.row_put, if_pos hid.symm]
        rfl
      · left
        rwa [Store.Table.row_put, if_neg fun hj => hij (hj.trans hid)]

theorem contributions_exec {o : Op} {r : o.Ret} {pid : ℕ} {choice : Choice} {w w' : World}
    (ho : o.sparesContributions = true) (h : exec o pid choice w = some (r, w')) :
    w'.db.contributions = w.db.contributions := by
  cases o with
  | db q =>
    rcases db_of_exec_db h with hdb | hdb
    · rw [hdb]
    · rw [hdb, Query.eval_of_isRead ho]
  | commit => cases ho
  | _ => rw [(changes_of_exec h).db rfl]

/-- A step leaves the contribution as it is, or writes its status. -/
theorem contribution_step {h h' : SettlementHist}
    (hstep : HistStep (settlementSystem cfg contributionId transactionHash)
      (MaySettle contributionId transactionHash) h h') {c : Contribution}
    (hrow : contributionOf contributionId h = some c) :
    contributionOf contributionId h' = some c ∨
      ∃ pid call s r, h'.trace = .did pid (settleOp contributionId s) r h.world :: h.trace ∧
        .start pid call ∈ h.trace ∧
        MaySettle contributionId transactionHash call (log pid h.trace)
          (settleOp contributionId s) ∧
        contributionOf contributionId h' = some { c with status := s } := by
  cases hstep with
  | idle e he hlive => exact .inl hrow
  | did pid call o choice r w hstart hD hexec hlive =>
    by_cases ho : o.sparesContributions = true
    · left
      rw [contributionOf, Hist.push_world, contributions_exec ho hexec]
      exact hrow
    · obtain ⟨s, rfl⟩ : ∃ s, o = settleOp contributionId s := by
        cases hD with
        | spare h => exact absurd h ho
        | report hknows hreport hs => exact ⟨_, rfl⟩
        | expire hc hexpired => exact ⟨_, rfl⟩
      have hrow' : contributionOf contributionId (h.push (.did pid _ r h.world) w) = some c ∨
          contributionOf contributionId (h.push (.did pid _ r h.world) w) =
            some { c with status := s } := by
        rw [contributionOf, Hist.push_world]
        rcases db_of_exec_db hexec with hdb | hdb
        · exact .inl (hdb ▸ hrow)
        · rw [hdb]
          exact (row_updateContribution hrow).imp_right And.right
      exact hrow'.imp_right fun hwritten =>
        ⟨pid, call, s, r, rfl, hstart, hD, hwritten⟩

/-- A step takes no final answer of the chain back. -/
theorem verdict_step {h h' : SettlementHist} {hash : String} {v : TxStatus}
    (hstep : HistStep (settlementSystem cfg contributionId transactionHash)
      (MaySettle contributionId transactionHash) h h')
    (hv : h.world.chain.verdict hash = some v) : h'.world.chain.verdict hash = some v := by
  cases hstep with
  | idle e he hlive => exact hv
  | did pid call o choice r w hstart hD hexec hlive => exact verdict_exec hexec hv

theorem Tracked.step {h h' : SettlementHist} (ht : Tracked contributionId transactionHash h)
    (hstep : HistStep (settlementSystem cfg contributionId transactionHash)
      (MaySettle contributionId transactionHash) h h') :
    Tracked contributionId transactionHash h' := by
  obtain ⟨c, hrow, hhash⟩ := ht.row
  refine ⟨?_, ?_, ?_⟩
  · rcases contribution_step hstep hrow with hsame | ⟨_, _, s, _, -, -, -, hwritten⟩
    · exact ⟨c, hsame, hhash⟩
    · exact ⟨{ c with status := s }, hwritten, hhash⟩
  · intro pid sel cs hmem x hx hid
    rcases hstep.mem_log hmem with hmem | ⟨choice, hexec⟩
    · exact ht.read pid sel cs hmem x hx hid
    · obtain ⟨heval, -⟩ := exec_db_ok hexec
      cases heval
      obtain ⟨hxrow, -⟩ := (Store.Table.mem_filter _).mp hx
      have hxrow' : h.world.db.contributions.row x.id = some x := hxrow
      rw [hid] at hxrow'
      obtain rfl : x = c := Option.some.inj (hxrow'.symm.trans hrow)
      exact hhash
  · intro pid n i initial hash start record hmem hfinal
    rcases hstep.mem_log hmem with hmem | ⟨choice, hexec⟩
    · exact verdict_step hstep (ht.report pid n i initial hash start record hmem hfinal)
    · exact verdict_of_report hexec hfinal

/-- What every run keeps. -/
theorem tracked_of_reachable {w : World} {c : Contribution}
    (hrow : w.db.contributions.row contributionId = some c)
    (hhash : c.transactionHash = transactionHash) {s : SettlementState}
    (hr : (settlementSystem cfg contributionId transactionHash).Reachable (.init w) s) :
    Tracked contributionId transactionHash s.hist :=
  hist_invariant (follows_settlementBody cfg)
    ⟨⟨c, hrow, hhash⟩, fun _ _ _ hmem => absurd hmem List.not_mem_nil,
      fun _ _ _ _ _ _ _ hmem => absurd hmem List.not_mem_nil⟩
    (fun _ _ _ _ ht hstep _ => ht.step hstep) hr

theorem MaySettle.write {c : SettlementCall} {L : Log Op.Ret} {o : Op} {s : ContributionStatus}
    (h : MaySettle contributionId transactionHash c L o) (ho : o = settleOp contributionId s) :
    (∃ hash v, KnowsHash contributionId transactionHash hash L ∧ Reported L hash v ∧
      v.settlement = some s) ∨
    s = .failed ∧ ∃ polls userId deadline, c = .process polls userId deadline ∧
      Expired deadline L := by
  cases h with
  | spare h =>
    subst ho
    cases h
  | report hknows hreport hs =>
    cases ho
    exact .inl ⟨_, _, hknows, hreport, hs⟩
  | expire hc hexpired =>
    cases ho
    exact .inr ⟨rfl, _, _, _, hc, hexpired⟩

/-- The chain's final answer on the contribution stands for its status. -/
def RecordsVerdict (contributionId : Uuid) (transactionHash : String) (h : SettlementHist) : Prop :=
  ∀ c, contributionOf contributionId h = some c → c.status.Settled →
    ∃ v, h.world.chain.verdict transactionHash = some v ∧ v.settlement = some c.status

/-- What the chain has reported to a call about the contribution is its final answer. -/
theorem Tracked.verdict {h : SettlementHist} (ht : Tracked contributionId transactionHash h)
    {pid : ℕ} {hash : String} {v : TxStatus} {s : ContributionStatus}
    (hknows : KnowsHash contributionId transactionHash hash (log pid h.trace))
    (hreport : Reported (log pid h.trace) hash v) (hs : v.settlement = some s) :
    h.world.chain.verdict transactionHash = some v := by
  obtain ⟨n, i, initial, start, record, hmem, rfl⟩ := hreport
  have hfinal : txStatus record ≠ .pending := fun hpending => by
    rw [hpending] at hs
    cases hs
  have hverdict := ht.report pid n i initial hash start record hmem hfinal
  rcases hknows with rfl | ⟨sel, cs, c, hc, hread, hid, rfl⟩
  · exact hverdict
  · rwa [ht.read pid sel cs hread c hc hid] at hverdict

/-- **A write of the status** repeats the final answer of the chain, unless a job gives up. -/
theorem Tracked.write {h h' : SettlementHist} (ht : Tracked contributionId transactionHash h)
    {pid : ℕ} {call : SettlementCall} {s : ContributionStatus}
    {r : (settleOp contributionId s).Ret}
    (hcons : h'.trace = .did pid (settleOp contributionId s) r h.world :: h.trace)
    (hstart : .start pid call ∈ h.trace)
    (hD : MaySettle contributionId transactionHash call (log pid h.trace)
      (settleOp contributionId s)) :
    GaveUp contributionId h'.trace ∨
      ∃ v, h.world.chain.verdict transactionHash = some v ∧ v.settlement = some s := by
  rcases hD.write rfl with ⟨hash, v, hknows, hreport, hs⟩ | ⟨rfl, polls, userId, deadline, rfl, hexpired⟩
  · exact .inr ⟨v, ht.verdict hknows hreport hs, hs⟩
  · exact .inl ⟨pid, polls, userId, deadline, r, h.world, h.trace, hcons ▸ List.suffix_refl _,
      hstart, hexpired⟩

theorem trace_suffix {h h' : SettlementHist}
    (hstep : HistStep (settlementSystem cfg contributionId transactionHash)
      (MaySettle contributionId transactionHash) h h') : h.trace <:+ h'.trace := by
  cases hstep with
  | idle e he hlive => exact List.suffix_cons e h.trace
  | did pid call o choice r w hstart hD hexec hlive => exact List.suffix_cons _ h.trace

/-- While no job gives up, every step leaves the chain's answer in the row. -/
theorem Tracked.recordsVerdict_step {h h' : SettlementHist}
    (ht : Tracked contributionId transactionHash h)
    (hstep : HistStep (settlementSystem cfg contributionId transactionHash)
      (MaySettle contributionId transactionHash) h h')
    (hopen : ¬ GaveUp contributionId h'.trace) (ha : RecordsVerdict contributionId transactionHash h) :
    RecordsVerdict contributionId transactionHash h' := by
  obtain ⟨c, hrow, -⟩ := ht.row
  intro c' hrow' hsettled
  rcases contribution_step hstep hrow with hsame | ⟨pid, call, s, r, hcons, hstart, hD, hwritten⟩
  · obtain rfl : c' = c := Option.some.inj (hrow'.symm.trans hsame)
    obtain ⟨v, hv, hs⟩ := ha c' hrow hsettled
    exact ⟨v, verdict_step hstep hv, hs⟩
  · obtain ⟨v, hv, hs⟩ := (ht.write hcons hstart hD).resolve_left hopen
    obtain rfl := Option.some.inj (hrow'.symm.trans hwritten)
    exact ⟨v, verdict_step hstep hv, hs⟩

/-- While no job gives up, a final status stays. -/
theorem Tracked.settled_step {h h' : SettlementHist}
    (ht : Tracked contributionId transactionHash h)
    (hstep : HistStep (settlementSystem cfg contributionId transactionHash)
      (MaySettle contributionId transactionHash) h h')
    (hopen : ¬ GaveUp contributionId h'.trace) (ha : RecordsVerdict contributionId transactionHash h)
    {c : Contribution} (hrow : contributionOf contributionId h = some c)
    (hsettled : c.status.Settled) :
    ∃ c', contributionOf contributionId h' = some c' ∧ c'.status = c.status := by
  rcases contribution_step hstep hrow with hsame | ⟨pid, call, s, r, hcons, hstart, hD, hwritten⟩
  · exact ⟨c, hsame, rfl⟩
  · obtain ⟨v, hv, hs⟩ := (ht.write hcons hstart hD).resolve_left hopen
    obtain ⟨v', hv', hs'⟩ := ha c hrow hsettled
    obtain rfl := Option.some.inj (hv.symm.trans hv')
    exact ⟨_, hwritten, Option.some.inj (hs.symm.trans hs')⟩

/-- A `CONFIRMED` contribution is one that the chain has confirmed, whether or not a job has given
up. -/
theorem Tracked.confirmed_step {h h' : SettlementHist}
    (ht : Tracked contributionId transactionHash h)
    (hstep : HistStep (settlementSystem cfg contributionId transactionHash)
      (MaySettle contributionId transactionHash) h h')
    (hc : ∀ c, contributionOf contributionId h = some c → c.status = .confirmed →
      h.world.chain.verdict transactionHash = some .confirmed)
    {c' : Contribution} (hrow' : contributionOf contributionId h' = some c')
    (hconfirmed : c'.status = .confirmed) :
    h'.world.chain.verdict transactionHash = some .confirmed := by
  obtain ⟨c, hrow, -⟩ := ht.row
  rcases contribution_step hstep hrow with hsame | ⟨pid, call, s, r, hcons, hstart, hD, hwritten⟩
  · obtain rfl : c' = c := Option.some.inj (hrow'.symm.trans hsame)
    exact verdict_step hstep (hc c' hrow hconfirmed)
  · obtain rfl := Option.some.inj (hrow'.symm.trans hwritten)
    rcases hD.write rfl with ⟨hash, v, hknows, hreport, hs⟩ | ⟨rfl, -⟩
    · have hv := ht.verdict hknows hreport hs
      obtain rfl : s = .confirmed := hconfirmed
      cases v with
      | confirmed => exact verdict_step hstep hv
      | _ => cases hs
    · cases hconfirmed

/-- The next step of a run, with what its history so far keeps. -/
theorem settlement_step {w : World} {c : Contribution}
    (hrow : w.db.contributions.row contributionId = some c)
    (hhash : c.transactionHash = transactionHash) {s s' : SettlementState}
    (hr : (settlementSystem cfg contributionId transactionHash).Reachable (.init w) s)
    (hstep : (settlementSystem cfg contributionId transactionHash).Step (fun _ _ => True) s s') :
    Tracked contributionId transactionHash s.hist ∧
      HistStep (settlementSystem cfg contributionId transactionHash)
        (MaySettle contributionId transactionHash) s.hist s'.hist := by
  obtain ⟨⟨m, hm⟩, -⟩ := hstep
  have hl := (hr.rule (J := fun _ => True) trivial fun _ _ _ _ _ _ _ => trivial).1
  exact ⟨tracked_of_reachable hrow hhash hr,
    (orderly_of_reachable (follows_settlementBody cfg) hr).histStep hl (System.stepKind_of_move hm)⟩

/-- While no job gives up, the row has the answer of the chain. -/
theorem recordsVerdict_of_reachable {w : World} {c : Contribution}
    (hrow : w.db.contributions.row contributionId = some c)
    (hhash : c.transactionHash = transactionHash) (hfresh : ¬ c.status.Settled)
    {s : SettlementState}
    (hr : (settlementSystem cfg contributionId transactionHash).Reachable (.init w) s)
    (hopen : ¬ GaveUp contributionId s.hist.trace) :
    RecordsVerdict contributionId transactionHash s.hist := by
  induction hr with
  | refl =>
    intro c' hrow' hsettled
    obtain rfl : c' = c := Option.some.inj (hrow'.symm.trans hrow)
    exact absurd hsettled hfresh
  | tail hrun hstep ih =>
    obtain ⟨ht, hhist⟩ := settlement_step hrow hhash hrun hstep
    exact ht.recordsVerdict_step hhist hopen
      (ih fun hgave => hopen (hgave.mono (trace_suffix hhist)))

theorem confirmed_of_reachable {w : World} {c : Contribution}
    (hrow : w.db.contributions.row contributionId = some c)
    (hhash : c.transactionHash = transactionHash) (hfresh : ¬ c.status.Settled)
    {s : SettlementState}
    (hr : (settlementSystem cfg contributionId transactionHash).Reachable (.init w) s)
    {c' : Contribution} (hrow' : contributionOf contributionId s.hist = some c')
    (hconfirmed : c'.status = .confirmed) :
    s.hist.world.chain.verdict transactionHash = some .confirmed := by
  induction hr generalizing c' with
  | refl =>
    obtain rfl : c' = c := Option.some.inj (hrow'.symm.trans hrow)
    exact absurd (.inl hconfirmed) hfresh
  | tail hrun hstep ih =>
    obtain ⟨ht, hhist⟩ := settlement_step hrow hhash hrun hstep
    exact ht.confirmed_step hhist (fun c₁ h₁ hc₁ => ih h₁ hc₁) hrow' hconfirmed

/-- While no job gives up, a final status stays for the rest of the run. -/
theorem settled_of_run {w : World} {c : Contribution}
    (hrow : w.db.contributions.row contributionId = some c)
    (hhash : c.transactionHash = transactionHash) (hfresh : ¬ c.status.Settled)
    {s s' : SettlementState}
    (hr : (settlementSystem cfg contributionId transactionHash).Reachable (.init w) s)
    (hr' : (settlementSystem cfg contributionId transactionHash).Reachable s s')
    (hopen : ¬ GaveUp contributionId s'.hist.trace) {c₁ : Contribution}
    (hrow₁ : contributionOf contributionId s.hist = some c₁) (hsettled : c₁.status.Settled) :
    ∃ c₂, contributionOf contributionId s'.hist = some c₂ ∧ c₂.status = c₁.status := by
  induction hr' with
  | refl => exact ⟨c₁, hrow₁, rfl⟩
  | tail hrun hstep ih =>
    obtain ⟨ht, hhist⟩ := settlement_step hrow hhash (hr.trans hrun) hstep
    have hbefore := fun hgave => hopen (GaveUp.mono hgave (trace_suffix hhist))
    obtain ⟨c₂, hrow₂, hsame₂⟩ := ih hbefore
    have ha := recordsVerdict_of_reachable hrow hhash hfresh (hr.trans hrun) hbefore
    obtain ⟨c₃, hrow₃, hsame₃⟩ := ht.settled_step hhist hopen ha hrow₂ (by rwa [hsame₂])
    exact ⟨c₃, hrow₃, hsame₃.trans hsame₂⟩

/-- **A final status follows the chain.** `CONFIRMED` is always the chain's answer; until a job
gives up, a final status stays, and a transaction that has succeeded does not leave its
contribution `FAILED`. -/
theorem settled_of_reachable {w : World} {c : Contribution}
    (hrow : w.db.contributions.row contributionId = some c)
    (hhash : c.transactionHash = transactionHash) (hfresh : ¬ c.status.Settled)
    {s s' : SettlementState}
    (hr : (settlementSystem cfg contributionId transactionHash).Reachable (.init w) s)
    (hr' : (settlementSystem cfg contributionId transactionHash).Reachable s s') :
    (∀ c', contributionOf contributionId s'.hist = some c' → c'.status = .confirmed →
      s'.hist.world.chain.verdict transactionHash = some .confirmed) ∧
    (¬ GaveUp contributionId s'.hist.trace →
      (∀ c₁, contributionOf contributionId s.hist = some c₁ → c₁.status.Settled →
        ∃ c₂, contributionOf contributionId s'.hist = some c₂ ∧ c₂.status = c₁.status) ∧
      (s'.hist.world.chain.verdict transactionHash = some .confirmed →
        ∀ c', contributionOf contributionId s'.hist = some c' → c'.status ≠ .failed)) := by
  refine ⟨fun c' hrow' => confirmed_of_reachable hrow hhash hfresh (hr.trans hr') hrow',
    fun hopen => ⟨fun c₁ => settled_of_run hrow hhash hfresh hr hr' hopen, ?_⟩⟩
  intro hverdict c' hrow' hfailed
  obtain ⟨v, hv, hs⟩ :=
    recordsVerdict_of_reachable hrow hhash hfresh (hr.trans hr') hopen c' hrow' (.inr hfailed)
  obtain rfl := Option.some.inj (hv.symm.trans hverdict)
  rw [hfailed] at hs
  cases hs

end Runs

/-! ### A job that gives up -/

section Claim

variable (cfg : Config) (contributionId : Uuid) (transactionHash : String) (w : World)

/-- A final status stays. -/
def StaysSettled : Prop :=
  ∀ s s', (settlementSystem cfg contributionId transactionHash).Reachable (.init w) s →
    (settlementSystem cfg contributionId transactionHash).Reachable s s' →
    ∀ c, contributionOf contributionId s.hist = some c → c.status.Settled →
      ∃ c', contributionOf contributionId s'.hist = some c' ∧ c'.status = c.status

/-- A contribution whose transaction has succeeded does not end as `FAILED`. -/
def EndsAsReported : Prop :=
  ∀ s, (settlementSystem cfg contributionId transactionHash).Reachable (.init w) s → s.Quiet →
    s.hist.world.chain.verdict transactionHash = some .confirmed →
    ∀ c, contributionOf contributionId s.hist = some c → c.status ≠ .failed

end Claim

namespace Sample

/-- A contribution that waits for its confirmation. -/
def submittedContribution : Contribution where
  id := 0
  groupId := 0
  userId := 0
  walletAddress := "G0"
  roundNumber := 1
  amount := "100"
  transactionHash := "hash"
  timestamp := 0
  status := .onChainSubmitted

/-- The world of the contribution, whose transaction has succeeded. -/
def succeeded : World where
  db := { Database.empty with
    contributions := Store.Table.empty.put submittedContribution }
  chain := { verdict := fun _ => some .confirmed }

/-- A job whose deadline expires before it polls. -/
def givingUp (pid : ℕ) : List (Move Choice SettlementCall) :=
  [.start (.process 1 0 120000), .run pid .done, .run pid (.time 120000), .run pid .done]

/-- A reconciliation that has read the contribution. -/
def reconciling : List (Move Choice SettlementCall) :=
  [.start (.reconcile 60000 fun _ => 0), .run 0 (.time 120000), .run 0 .done]

/-- The status of the contribution. -/
def hasStatus (st : ContributionStatus) (s : SettlementState) : Bool :=
  (contributionOf 0 s.hist).any fun c => c.status == st

theorem contribution_of_hasStatus {st : ContributionStatus} {s : SettlementState}
    (h : hasStatus st s = true) : ∃ c, contributionOf 0 s.hist = some c ∧ c.status = st := by
  obtain ⟨c, hrow, hc⟩ := System.exists_of_any h
  exact ⟨c, hrow, by simpa using hc⟩

end Sample

/-- The reconciliation confirms the contribution, and has ended. -/
theorem settled_of_reachable_sample : ∃ s s' : SettlementState,
    (∃ c, contributionOf 0 s.hist = some c ∧ c.status = .confirmed) ∧
    ((∀ c', contributionOf 0 s'.hist = some c' → c'.status = .confirmed →
        s'.hist.world.chain.verdict "hash" = some .confirmed) ∧
      (¬ GaveUp 0 s'.hist.trace →
        (∀ c₁, contributionOf 0 s.hist = some c₁ → c₁.status.Settled →
          ∃ c₂, contributionOf 0 s'.hist = some c₂ ∧ c₂.status = c₁.status) ∧
        (s'.hist.world.chain.verdict "hash" = some .confirmed →
          ∀ c', contributionOf 0 s'.hist = some c' → c'.status ≠ .failed))) := by
  obtain ⟨s, s', hr, hr', hs, -⟩ := System.exists_of_replay₂
    (settlementSystem Sample.cfg 0 "hash") (fun _ _ => True) (.init Sample.succeeded)
    (Sample.reconciling ++ [.run 0 (.found (some { status := some "SUCCESS" })), .run 0 .done])
    [.finish 0] (Sample.hasStatus .confirmed) (fun _ => true) (by decide +kernel)
  exact ⟨s, s', Sample.contribution_of_hasStatus hs,
    settled_of_reachable (c := Sample.submittedContribution) rfl rfl (by decide) hr hr'⟩

/-- A reconciliation overwrites the `FAILED` of a job that has given up, and one that comes later
does not look at the contribution any more. -/
theorem not_settled_of_gaveUp : ¬ StaysSettled Sample.cfg 0 "hash" Sample.succeeded ∧
    ¬ EndsAsReported Sample.cfg 0 "hash" Sample.succeeded := by
  constructor
  · intro hstays
    obtain ⟨s, s', hr, hr', hs, hs'⟩ := System.exists_of_replay₂
      (settlementSystem Sample.cfg 0 "hash") (fun _ _ => True) (.init Sample.succeeded)
      (Sample.reconciling ++ Sample.givingUp 1)
      [.run 0 (.found (some { status := some "SUCCESS" })), .run 0 .done]
      (Sample.hasStatus .failed) (Sample.hasStatus .confirmed) (by decide +kernel)
    obtain ⟨c, hrow, hc⟩ := Sample.contribution_of_hasStatus hs
    obtain ⟨c', hrow', hc'⟩ := Sample.contribution_of_hasStatus hs'
    obtain ⟨c'', hrow'', hsame⟩ := hstays s s' hr hr' c hrow (.inr hc)
    obtain rfl : c' = c'' := Option.some.inj (hrow'.symm.trans hrow'')
    rw [hc, hc'] at hsame
    cases hsame
  · intro hends
    obtain ⟨s, hr, hs⟩ := System.exists_of_replay
      (settlementSystem Sample.cfg 0 "hash") (fun _ _ => True) (.init Sample.succeeded)
      (Sample.givingUp 0 ++ [.run 0 .done, .run 0 .done, .finish 0])
      (fun s => System.ended s && Sample.hasStatus .failed s &&
        s.hist.world.chain.verdict "hash" == some .confirmed) (by decide +kernel)
    obtain ⟨hs, hverdict⟩ := Bool.and_eq_true_iff.mp hs
    obtain ⟨hended, hfailed⟩ := Bool.and_eq_true_iff.mp hs
    obtain ⟨c, hrow, hc⟩ := Sample.contribution_of_hasStatus hfailed
    exact hends s hr (System.quiet_of_ended hr hended) (beq_iff_eq.mp hverdict) c hrow hc

end Ahjoor
