import Ahjoor.EventListener.Polls

/-!
# No transaction is lost

A transaction that is marked as processed has been applied, or its failure has been logged: that holds in
**every** run (`handled_of_processed`). The checkpoint knows ledgers only, and a response may end in the
middle of one, or a poll may die there: then the rest of the ledger is never fetched again. Where this
does not happen, the checkpoint passes no transaction that is not marked, except one that a poll in
flight still has in hand, **however polls overlap** (`handled_of_le_checkpoint`).
-/

namespace Ahjoor.EventListener

open Async

/-! ### Pages -/

/-- **A page has all of the ledgers before each of its transactions.** -/
theorem Horizon.mem_before {ledgers : Ledgers} (horizon : Horizon ledgers) {cursor : Option ℕ}
    {i n : ℕ} {before after : List HorizonTransactionRecord} {tx t : HorizonTransactionRecord}
    (hpage : horizon.page cursor i = before ++ tx :: after) (ht : t ∈ ledgers.transactions n)
    (hcursor : cursor.getD 0 < n) (hlt : n < tx.ledger) : t ∈ before := by
  have htx : tx ∈ horizon.page cursor i := hpage ▸ List.mem_append_right before List.mem_cons_self
  have hmem := horizon.nothingSkipped htx ht hcursor hlt
  have hsorted := horizon.inOrder cursor i
  obtain rfl := ledgers.ledger_eq ht
  rw [hpage] at hmem hsorted
  refine (List.mem_append.mp hmem).resolve_right fun hlater => ?_
  rcases List.mem_cons.mp hlater with rfl | hlater
  · exact hlt.false
  · exact hlt.not_ge (List.rel_of_pairwise_cons (List.pairwise_append.mp hsorted).2.1 hlater)

/-! ### What an operation does -/

section Exec

variable {cfg : Config} {o : Op} {pid : ℕ} {choice : Choice} {w w' : World}

/-- A write that is answered has taken effect. -/
theorem exec_write {x : Write} {a : Ack} (hexec : exec cfg (.write x) pid choice w = some (a, w')) :
    a.effective = true ∧ w' = w.apply x ∨ a.effective = false ∧ a.answer ≠ .ok () ∧ w' = w := by
  cases choice with
  | done | lost =>
    obtain ⟨rfl, rfl⟩ := Prod.mk.inj (Option.some.inj hexec)
    exact .inl ⟨rfl, rfl⟩
  | fails =>
    obtain ⟨rfl, rfl⟩ := Prod.mk.inj (Option.some.inj hexec)
    exact .inr ⟨rfl, fun h => (by cases h), rfl⟩
  | _ => cases hexec

/-- Only writes change what is marked, and the checkpoint; and the database only its own operations. -/
theorem exec_keeps {r : o.Ret} (hexec : exec cfg o pid choice w = some (r, w'))
    (ho : ∀ x, o ≠ .write x) : w'.processed = w.processed ∧ w'.checkpoint = w.checkpoint ∧
      ((∀ b, o ≠ .base b) → w'.base = w.base) := by
  cases o with
  | write x => exact absurd rfl (ho x)
  | base b =>
    cases choice with
    | base choice =>
      obtain ⟨y, -, heq⟩ := Option.map_eq_some_iff.mp hexec
      obtain ⟨-, rfl⟩ := Prod.mk.inj heq
      exact ⟨rfl, rfl, fun hb => absurd rfl (hb b)⟩
    | _ => cases hexec
  | tick i =>
    cases choice with
    | time t =>
      simp only [exec] at hexec
      split_ifs at hexec <;>
      · obtain ⟨-, rfl⟩ := Prod.mk.inj (Option.some.inj hexec)
        exact ⟨rfl, rfl, fun _ => rfl⟩
    | _ => cases hexec
  | getLedger | getProcessed hash | fetch endpoint cursor | setPolling i enabled | logFailure hash =>
    cases choice <;> cases hexec <;> exact ⟨rfl, rfl, fun _ => rfl⟩

/-- A mark stays. -/
theorem processed_mono {r : o.Ret} (hexec : exec cfg o pid choice w = some (r, w')) {hash : String}
    (h : w.processed hash = true) : w'.processed hash = true := by
  by_cases ho : ∃ x, o = .write x
  · obtain ⟨x, rfl⟩ := ho
    rcases exec_write hexec with ⟨-, rfl⟩ | ⟨-, -, rfl⟩
    · cases x with
      | setProcessed hash' =>
        by_cases heq : hash = hash'
        · subst heq
          exact Function.update_self ..
        · exact (Function.update_of_ne heq ..).trans h
      | _ => exact h
    · exact h
  · rw [(exec_keeps hexec fun x hx => ho ⟨x, hx⟩).1]
    exact h

/-- Only a mark marks. -/
theorem setProcessed_of_processed {r : o.Ret} (hexec : exec cfg o pid choice w = some (r, w'))
    {hash : String} (h : w'.processed hash = true) :
    w.processed hash = true ∨ o = .write (.setProcessed hash) := by
  by_cases ho : ∃ x, o = .write x
  · obtain ⟨x, rfl⟩ := ho
    rcases exec_write hexec with ⟨-, rfl⟩ | ⟨-, -, rfl⟩
    · cases x with
      | setProcessed hash' =>
        by_cases heq : hash = hash'
        · exact .inr (heq ▸ rfl)
        · exact .inl ((Function.update_of_ne heq ..).symm.trans h)
      | _ => exact .inl h
    · exact .inl h
  · exact .inl ((exec_keeps hexec fun x hx => ho ⟨x, hx⟩).1 ▸ h)

/-- What is answered about a mark. -/
theorem exec_getProcessed {hash : String} {b : Bool}
    (hexec : exec cfg (.getProcessed hash) pid choice w = some (.ok b, w')) : w.processed hash = b := by
  cases choice with
  | done =>
    obtain ⟨h, -⟩ := Prod.mk.inj (Option.some.inj hexec)
    exact Except.ok.inj h
  | fails =>
    obtain ⟨h, -⟩ := Prod.mk.inj (Option.some.inj hexec)
    cases h
  | _ => cases hexec

theorem exec_getLedger {raw : Option ℕ}
    (hexec : exec cfg .getLedger pid choice w = some (.ok raw, w')) : raw = w.checkpoint := by
  cases choice with
  | done =>
    obtain ⟨h, -⟩ := Prod.mk.inj (Option.some.inj hexec)
    exact (Except.ok.inj h).symm
  | fails =>
    obtain ⟨h, -⟩ := Prod.mk.inj (Option.some.inj hexec)
    cases h
  | _ => cases hexec

theorem exec_fetch {endpoint : Endpoint} {cursor : Option ℕ} {txs : List HorizonTransactionRecord}
    (hexec : exec cfg (.fetch endpoint cursor) pid choice w = some (.ok (.records txs), w')) :
    ∃ i, txs = cfg.horizon.page cursor i := by
  cases choice with
  | page i =>
    obtain ⟨h, -⟩ := Prod.mk.inj (Option.some.inj hexec)
    exact ⟨i, (Response.records.inj (Except.ok.inj h)).symm⟩
  | fails | status =>
    obtain ⟨h, -⟩ := Prod.mk.inj (Option.some.inj hexec)
    cases h
  | _ => cases hexec

/-- The checkpoint moves only where a write moves it. -/
theorem checkpoint_of_exec {r : o.Ret} (hexec : exec cfg o pid choice w = some (r, w')) :
    w'.checkpoint = w.checkpoint ∨ ∃ ledger, ∃ a : Ack, a.effective = true ∧
      (⟨o, r⟩ : Entry Op.Ret) = ⟨.write (.setLedger ledger), a⟩ ∧ w'.checkpoint = some ledger := by
  by_cases ho : ∃ x, o = .write x
  · obtain ⟨x, rfl⟩ := ho
    rcases exec_write hexec with ⟨heffective, rfl⟩ | ⟨-, -, rfl⟩
    · cases x with
      | setLedger ledger => exact .inr ⟨ledger, r, heffective, rfl, rfl⟩
      | _ => exact .inl rfl
    · exact .inl rfl
  · exact .inl (exec_keeps hexec fun x hx => ho ⟨x, hx⟩).2.1

end Exec


/-! ### What is marked has been handled -/

section

variable (cfg : Config)

/-- What is known of a run, whatever its polls do: a poll has an answer of Horizon, knows of marks that
are there, and what is marked has been handled, or has failed. -/
structure Sound (h : History) : Prop where
  page : ∀ pid, fetched (log pid h.trace) = [] ∨ ∃ i,
    fetched (log pid h.trace) = cfg.horizon.page (cursorOf (lastRead (log pid h.trace))) i
  marked : ∀ pid tx, Marked tx (log pid h.trace) → tx.hash = "" ∨ h.world.processed tx.hash = true
  processed : ∀ n, ∀ tx ∈ cfg.ledgers.transactions n, tx.successful = true →
    h.world.processed tx.hash = true →
      ∃ pid, Handled cfg tx (log pid h.trace) ∨ Failed cfg tx (log pid h.trace)

variable {cfg} {h h' : History}

theorem cursorOf_getD (last : ℕ) : (cursorOf last).getD 0 = last := by
  unfold cursorOf
  split_ifs with hlast
  · rfl
  · exact (Nat.eq_zero_of_not_pos hlast).symm

/-- What a poll has fetched is on the chain. -/
theorem Sound.mem_transactions (hs : Sound cfg h) {pid : ℕ} {tx : HorizonTransactionRecord}
    (htx : tx ∈ fetched (log pid h.trace)) : tx ∈ cfg.ledgers.transactions tx.ledger := by
  rcases hs.page pid with hnil | ⟨i, hpage⟩
  · rw [hnil] at htx
    cases htx
  · exact cfg.horizon.onChain (hpage ▸ htx)

/-- The view of a poll after an operation of its own. -/
theorem page_did {o : Op} {r : o.Ret} {pid : ℕ} {choice : Choice} {w w' : World} {L : Log Op.Ret}
    (hpage : fetched L = [] ∨ ∃ i, fetched L = cfg.horizon.page (cursorOf (lastRead L)) i)
    (hD : Polling cfg L o) (hexec : exec cfg o pid choice w = some (r, w')) :
    fetched (⟨o, r⟩ :: L) = [] ∨ ∃ i,
      fetched (⟨o, r⟩ :: L) = cfg.horizon.page (cursorOf (lastRead (⟨o, r⟩ :: L))) i := by
  by_cases ho : o.keepsView = true
  · rw [fetched_cons ho, lastRead_cons ho]
    exact hpage
  · cases o with
    | getLedger => exact .inl (show fetched L = [] from hD)
    | fetch endpoint cursor =>
      obtain ⟨hnone, rfl⟩ := hD
      rcases r with e | response
      · exact .inl hnone
      · cases response with
        | status code => exact .inl hnone
        | records txs =>
          obtain ⟨i, rfl⟩ := exec_fetch hexec
          exact .inr ⟨i, rfl⟩
    | _ => exact absurd rfl ho

theorem Sound.step (hs : Sound cfg h) (hstep : HistStep (system cfg) (fun _ => Polling cfg) h h') :
    Sound cfg h' := by
  have hgrows := hstep.log_suffix
  cases hstep with
  | idle e he _ =>
    refine ⟨fun pid => ?_, fun pid tx hm => ?_, fun n tx htx hsucc hp => ?_⟩
    · rw [Hist.push_trace, he]
      exact hs.page pid
    · rw [Hist.push_trace, he] at hm
      exact hs.marked pid tx hm
    · obtain ⟨pid, hdone⟩ := hs.processed n tx htx hsucc hp
      exact ⟨pid, hdone.imp (·.mono (hgrows pid)) (·.mono (hgrows pid))⟩
  | did pid c o choice r w hstart hD hexec hlive =>
    replace hexec : exec cfg o pid choice h.world = some (r, w) := hexec
    refine ⟨fun p => ?_, fun p tx hm => ?_, fun n tx htx hsucc hp => ?_⟩
    · by_cases hp : p = pid
      · subst hp
        rw [Hist.push_trace, log_did_self]
        exact page_did (hs.page p) hD hexec
      · rw [Hist.push_trace, log_cons_of_ne fun h => hp h.symm]
        exact hs.page p
    · rcases hm with hempty | htold | ⟨a, hok, hmarked⟩
      · exact .inl hempty
      · rcases mem_log_did htold with hold | ⟨rfl, heq⟩
        · exact (hs.marked p tx (.inr (.inl hold))).imp_right (processed_mono hexec)
        · cases heq
          exact .inr (processed_mono hexec (exec_getProcessed hexec))
      · rcases mem_log_did hmarked with hold | ⟨rfl, heq⟩
        · exact (hs.marked p tx (.inr (.inr ⟨a, hok, hold⟩))).imp_right (processed_mono hexec)
        · cases heq
          rcases exec_write hexec with ⟨-, rfl⟩ | ⟨-, herror, -⟩
          · exact .inr (Function.update_self ..)
          · exact absurd hok herror
    · rcases setProcessed_of_processed hexec hp with hold | rfl
      · obtain ⟨p, hdone⟩ := hs.processed n tx htx hsucc hold
        exact ⟨p, hdone.imp (·.mono (hgrows p)) (·.mono (hgrows p))⟩
      · obtain ⟨t, ht, hhash, hdone⟩ := hD
        obtain rfl := cfg.ledgers.eq_of_hash_eq (hs.mem_transactions ht) htx hhash
        exact ⟨pid, (hdone hsucc).imp (·.mono (hgrows pid)) (·.mono (hgrows pid))⟩

theorem sound_init {w : World} (hw : ∀ hash, w.processed hash = false) : Sound cfg ⟨w, []⟩ where
  page _ := .inl rfl
  marked pid tx hm := by
    rcases hm with hempty | htold | ⟨a, -, hmarked⟩
    · exact .inl hempty
    · cases htold
    · cases hmarked
  processed n tx _ _ hp := by simp [hw] at hp

/-- **What is marked has been handled**, in every run of polls of any number of instances, with crashes
and failures anywhere: some poll has applied all events of a successful transaction that is marked as
processed, or has logged that this failed. -/
theorem handled_of_processed (cfg : Config) {w : World} (hw : ∀ hash, w.processed hash = false)
    {s : PollState} (hr : (system cfg).Reachable (.init w) s) {n : ℕ} {tx : HorizonTransactionRecord}
    (htx : tx ∈ cfg.ledgers.transactions n) (hsucc : tx.successful = true)
    (hp : s.hist.world.processed tx.hash = true) :
    ∃ pid, Handled cfg tx (log pid s.hist.trace) ∨ Failed cfg tx (log pid s.hist.trace) :=
  (hist_invariant (I := Sound cfg) (fun c => follows_body cfg c) (sound_init hw)
    (fun _ _ _ _ hI hstep _ => hI.step hstep) hr).processed n tx htx hsucc hp

/-! ### What lies at or before the checkpoint -/

variable (cfg) in
/-- A poll that moves the checkpoint to a ledger has fetched all of it. -/
def FetchesWhole (h h' : History) : Prop :=
  match h'.trace with
  | .did pid (.write (.setLedger ledger)) a _ :: _ =>
      Ack.effective a = true →
        ∀ tx ∈ cfg.ledgers.transactions ledger, tx ∈ fetched (log pid h.trace)
  | _ => True

/-- The entry moves the checkpoint to this ledger. -/
def moves (ledger : ℕ) : Entry Op.Ret → Bool
  | ⟨.write (.setLedger l), a⟩ => Ack.effective a && l == ledger
  | _ => false

/-- The poll has moved the checkpoint to this ledger. -/
def Moved (ledger : ℕ) (L : Log Op.Ret) : Prop := ∃ e ∈ L, moves ledger e = true

/-- A poll that ends has gone through the ledgers to which it has moved the checkpoint. -/
def EndsWhole (h h' : History) : Prop :=
  match h'.trace with
  | .returned pid _ :: _ | .crashed pid :: _ =>
      ∀ tx ∈ fetched (log pid h.trace), Moved tx.ledger (log pid h.trace) →
        tx.hash = "" ∨ h.world.processed tx.hash = true
  | _ => True

variable (cfg) in
/-- No ledger is broken off, by a page or by a poll. -/
def WholeLedgers (h h' : History) : Prop := FetchesWhole cfg h h' ∧ EndsWhole h h'

/-- A poll in flight has the transaction before it, in a ledger to which it has moved the checkpoint. -/
def InHand (h : History) (tx : HorizonTransactionRecord) (pid : ℕ) : Prop :=
  InFlight pid h.trace ∧ tx ∈ fetched (log pid h.trace) ∧ Moved tx.ledger (log pid h.trace)

/-- The transaction is not lost. -/
def Kept (h : History) (tx : HorizonTransactionRecord) : Prop :=
  h.world.processed tx.hash = true ∨ ∃ pid, InHand h tx pid

/-- What a poll has fetched stays fetched. -/
theorem mem_fetched_of_step (hstep : HistStep (system cfg) (fun _ => Polling cfg) h h') {pid : ℕ}
    {tx : HorizonTransactionRecord} (htx : tx ∈ fetched (log pid h.trace)) :
    tx ∈ fetched (log pid h'.trace) := by
  cases hstep with
  | idle e he _ =>
    rw [Hist.push_trace, he]
    exact htx
  | did p c o choice r w _ hD hexec _ =>
    by_cases hp : p = pid
    · subst hp
      rw [Hist.push_trace, log_did_self]
      by_cases ho : o.keepsView = true
      · rwa [fetched_cons ho]
      · cases o with
        | getLedger => exact htx
        | fetch endpoint cursor =>
          rw [hD.1] at htx
          cases htx
        | _ => exact absurd rfl ho
    · rwa [Hist.push_trace, log_cons_of_ne (e := .did p o r h.world) hp]

/-- **What is not lost is not lost in a step.** -/
theorem Kept.step (hstep : HistStep (system cfg) (fun _ => Polling cfg) h h')
    (hok : EndsWhole h h') {n : ℕ} {tx : HorizonTransactionRecord}
    (htx : tx ∈ cfg.ledgers.transactions n) (hk : Kept h tx) : Kept h' tx := by
  have hgrows := hstep.log_suffix
  have hfetched := fun pid => @mem_fetched_of_step cfg h h' hstep pid tx
  rcases hk with hp | ⟨pid, hlive, hmem, e₁, hlogged, hmoves⟩
  · left
    cases hstep with
    | idle e he _ => exact hp
    | did p c o choice r w _ hD hexec _ => exact processed_mono hexec hp
  · have hstays : ∀ {e : Event Op.Ret World Call (Except Exc Unit)} {w : World}, h' = h.push e w →
        (e.isEnd = true → e.pid ≠ pid) → Kept h' tx := by
      rintro e w rfl he
      exact .inr ⟨pid, hlive.cons he, hfetched pid hmem, e₁, (hgrows pid).subset hlogged, hmoves⟩
    cases hstep with
    | idle e he _ =>
      by_cases hend : e.isEnd = true ∧ e.pid = pid
      · obtain ⟨hend, rfl⟩ := hend
        have hdone : tx.hash = "" ∨ h.world.processed tx.hash = true := by
          cases e with
          | start _ _ | did _ _ _ _ => cases hend
          | returned _ _ | crashed _ => exact hok tx hmem ⟨e₁, hlogged, hmoves⟩
        exact .inl (hdone.resolve_left (cfg.ledgers.hash_ne htx))
      · exact hstays rfl fun h h' => hend ⟨h, h'⟩
    | did p c o choice r w _ hD hexec _ => exact hstays rfl fun h => by cases h

variable (cfg) in
/-- No transaction at or before the checkpoint is lost, and none at or before what a poll has read. -/
structure Covered (h : History) : Prop where
  checkpoint : ∀ n, ∀ tx ∈ cfg.ledgers.transactions n, n ≤ h.world.checkpoint.getD 0 → Kept h tx
  view : ∀ pid n, ∀ tx ∈ cfg.ledgers.transactions n, n ≤ lastRead (log pid h.trace) → Kept h tx

theorem covered_init {w : World} (hw : w.checkpoint.getD 0 = 0) : Covered cfg ⟨w, []⟩ := by
  have hnone : ∀ n, n ≤ 0 → cfg.ledgers.transactions n = [] := by
    rintro n hn
    obtain rfl := Nat.le_zero.mp hn
    exact cfg.ledgers.genesis
  refine ⟨fun n tx htx hn => ?_, fun pid n tx htx hn => ?_⟩
  · rw [hnone n (hw ▸ hn)] at htx
    cases htx
  · rw [hnone n hn] at htx
    cases htx

/-- Where the checkpoint is moved to, everything is kept: what the poll had read, what it has passed, and
the ledger that it has in hand. -/
theorem Covered.moved (hc : Covered cfg h) (hs : Sound cfg h) {pid ledger : ℕ}
    (hD : Polling cfg (log pid h.trace) (.write (.setLedger ledger)))
    (hwhole : ∀ tx ∈ cfg.ledgers.transactions ledger, tx ∈ fetched (log pid h.trace))
    {n : ℕ} {tx : HorizonTransactionRecord} (htx : tx ∈ cfg.ledgers.transactions n) (hn : n ≤ ledger) :
    Kept h tx ∨ n = ledger ∧ tx ∈ fetched (log pid h.trace) := by
  obtain ⟨before, t, after, hfetched, rfl, hlt, -, hpassed⟩ := hD
  rcases le_or_gt n (lastRead (log pid h.trace)) with hread | hunread
  · exact .inl (hc.view pid n tx htx hread)
  rcases hn.lt_or_eq with hbefore | rfl
  · -- a ledger that the page has in full, before `t`
    have hmem : tx ∈ before := by
      rcases hs.page pid with hnil | ⟨i, hpage⟩
      · rw [hnil] at hfetched
        exact absurd hfetched.symm (List.append_ne_nil_of_right_ne_nil before (List.cons_ne_nil t after))
      · refine cfg.horizon.mem_before (hpage.symm.trans hfetched) htx ?_ hbefore
        rwa [cursorOf_getD]
    have hmarked := hpassed tx hmem (cfg.ledgers.ledger_eq htx ▸ hunread)
    exact .inl (.inl ((hs.marked pid tx hmarked).resolve_left (cfg.ledgers.hash_ne htx)))
  · exact .inr ⟨rfl, hwhole tx htx⟩

theorem Covered.step (hc : Covered cfg h) (hs : Sound cfg h)
    (hstep : HistStep (system cfg) (fun _ => Polling cfg) h h') (hok : WholeLedgers cfg h h') :
    Covered cfg h' := by
  have hkeeps : ∀ {n tx}, tx ∈ cfg.ledgers.transactions n → Kept h tx → Kept h' tx := fun htx hk =>
    hk.step hstep hok.2 htx
  have hfetched := @mem_fetched_of_step cfg h h' hstep
  cases hstep with
  | idle e he _ =>
    refine ⟨fun n tx htx hn => hkeeps htx (hc.checkpoint n tx htx hn), fun pid n tx htx hn => ?_⟩
    rw [Hist.push_trace, he] at hn
    exact hkeeps htx (hc.view pid n tx htx hn)
  | did pid c o choice r w hstart hD hexec hlive =>
    refine ⟨fun n tx htx hn => ?_, fun p n tx htx hn => ?_⟩
    · rcases checkpoint_of_exec hexec with heq | ⟨ledger, a, heffective, hentry, hmoved⟩
      · exact hkeeps htx (hc.checkpoint n tx htx (heq ▸ hn))
      have hlogged : ⟨o, r⟩ ∈ log pid (h.push (.did pid o r h.world) w).trace := by
        rw [Hist.push_trace, log_did_self]
        exact List.mem_cons_self
      cases hentry
      rw [Hist.push_world, hmoved] at hn
      rcases hc.moved hs hD (hok.1 heffective) htx hn with hk | ⟨rfl, hmem⟩
      · exact hkeeps htx hk
      · have hinFlight : InFlight pid h.trace := ⟨⟨c, hstart⟩, hlive⟩
        obtain rfl := cfg.ledgers.ledger_eq htx
        refine .inr ⟨pid, hinFlight.cons fun hend => ?_, hfetched hmem, _, hlogged, ?_⟩
        · cases hend
        · simp [moves, heffective]
    · by_cases hp : pid = p
      · subst hp
        rw [Hist.push_trace, log_did_self] at hn
        by_cases ho : o.keepsView = true
        · rw [lastRead_cons ho] at hn
          exact hkeeps htx (hc.view pid n tx htx hn)
        · cases o with
          | getLedger =>
            rcases r with e | raw
            · exact hkeeps htx (hc.view pid n tx htx hn)
            · obtain rfl := exec_getLedger hexec
              exact hkeeps htx (hc.checkpoint n tx htx hn)
          | fetch endpoint cursor => exact hkeeps htx (hc.view pid n tx htx hn)
          | _ => exact absurd rfl ho
      · rw [Hist.push_trace, log_cons_of_ne (e := .did pid o r h.world) hp] at hn
        exact hkeeps htx (hc.view p n tx htx hn)

/-- **Nothing is lost**, however polls overlap, fail and crash, as long as no ledger is broken off: a
successful transaction at or before the checkpoint has been handled, or has failed, or a poll in flight
has it in hand. -/
theorem handled_of_le_checkpoint (cfg : Config) {w : World}
    (hw : ∀ hash, w.processed hash = false) (hcheckpoint : w.checkpoint.getD 0 = 0) {s : PollState}
    (hr : (system cfg).ReachableWhen (WholeLedgers cfg) (.init w) s) {n : ℕ}
    {tx : HorizonTransactionRecord} (htx : tx ∈ cfg.ledgers.transactions n)
    (hsucc : tx.successful = true) (hn : n ≤ s.hist.world.checkpoint.getD 0) :
    (∃ pid, Handled cfg tx (log pid s.hist.trace) ∨ Failed cfg tx (log pid s.hist.trace)) ∨
      ∃ pid, InHand s.hist tx pid := by
  have hI := hist_invariant (I := fun h => Sound cfg h ∧ Covered cfg h)
    (fun c => follows_body cfg c) ⟨sound_init hw, covered_init hcheckpoint⟩
    (fun _ _ _ _ hI hstep hok => ⟨hI.1.step hstep, hI.2.step hI.1 hstep hok⟩) hr
  exact (hI.2.checkpoint n tx htx hn).imp_left (hI.1.processed n tx htx hsucc)

end

/-! ### A run of a poll -/

section

variable (cfg : Config)

instance (ledger : ℕ) (L : Log Op.Ret) : Decidable (Moved ledger L) :=
  inferInstanceAs (Decidable (∃ e ∈ L, _))

instance : DecidableRel (WholeLedgers cfg) := fun h h' => by
  unfold WholeLedgers FetchesWhole EndsWhole
  refine @instDecidableAnd _ _ ?_ ?_
  · rcases h'.trace with _ | ⟨_ | ⟨_, o, _, _⟩ | _ | _, _⟩
    case cons.did =>
      rcases o with _ | x
      case write => rcases x with _ | _ | _ | _ <;> infer_instance
      all_goals infer_instance
    all_goals infer_instance
  · rcases h'.trace with _ | ⟨_ | _ | _ | _, _⟩ <;> infer_instance

end

namespace Sample

/-- An SDK that reads the events of one transaction. -/
def sdk : Sdk where
  fromXDR xdr :=
    if xdr = "round" then
      .ok ⟨3, [some ⟨[.ok (.string "RoundCompleted")], some (.ok (.object "" [("groupId", .string "g")]))⟩]⟩
    else .error (.error "XDR Read Error")
  number _ := none
  uuid s := if s = "g" then .ok 0 else .error (.error "invalid input syntax for type uuid")

/-- A transaction that completes a round. -/
def round : HorizonTransactionRecord where
  hash := "t1"
  successful := true
  ledger := 1
  resultMetaXdr := some "round"

/-- Another one, in the next ledger. -/
def nextRound : HorizonTransactionRecord where
  hash := "t2"
  successful := true
  ledger := 2
  resultMetaXdr := some "round"

/-- A transaction whose metadata cannot be read. -/
def unreadable : HorizonTransactionRecord where
  hash := "t3"
  successful := true
  ledger := 3
  resultMetaXdr := some "?"

/-- The transactions of the contract. -/
def chain : List HorizonTransactionRecord := [round, nextRound, unreadable]

def ledgers : Ledgers where
  transactions n := chain.filter (·.ledger = n)
  genesis := by decide
  ledger_eq h := of_decide_eq_true (List.mem_filter.mp h).2
  nodup n := List.Nodup.filter _ (by decide)
  eq_of_hash_eq h h' heq := by
    have hchain : ∀ tx ∈ chain, ∀ tx' ∈ chain, tx.hash = tx'.hash → tx = tx' := by decide
    exact hchain _ (List.mem_filter.mp h).1 _ (List.mem_filter.mp h').1 heq
  hash_ne h := by
    have hchain : ∀ tx ∈ chain, tx.hash ≠ "" := by decide
    exact hchain _ (List.mem_filter.mp h).1

/-- Whatever the cursor, Horizon answers with the chain up to its latest ledger. -/
def horizon : Horizon ledgers where
  page _ latest := chain.filter (·.ledger ≤ latest)
  onChain h := List.mem_filter.mpr ⟨(List.mem_filter.mp h).1, decide_eq_true rfl⟩
  inOrder _ _ := List.Pairwise.filter _ (by decide)
  nothingSkipped htx ht _ hlt := by
    obtain ⟨hmem, hledger⟩ := List.mem_filter.mp ht
    have hlatest := of_decide_eq_true (List.mem_filter.mp htx).2
    have hn := of_decide_eq_true hledger
    exact List.mem_filter.mpr ⟨hmem, decide_eq_true (by omega)⟩

def cfg : Config where
  sdk := sdk
  contractAddress := "C"
  ledgers := ledgers
  horizon := horizon

/-- Nothing is processed yet. -/
def world : World where
  base := Ahjoor.Sample.world Ahjoor.Sample.group [Ahjoor.Sample.member]

/-- The operations of call `pid`. -/
def runs (pid : ℕ) (choices : List Choice) : List (Move Choice Call) := choices.map (.run pid)

/-- A poll that goes through the first ledger. -/
def poll : List (Move Choice Call) :=
  .start .pollNow :: runs 0 [.done, .page 1, .done, .done, .base .done, .done, .done] ++ [.finish 0]

/-- A poll that goes on to the second one. -/
def next : List (Move Choice Call) :=
  .start .pollNow :: runs 1 [.done, .page 2, .done, .done, .base .done, .done, .done] ++ [.finish 1]

/-- A poll that goes on to the third one. -/
def last : List (Move Choice Call) :=
  .start .pollNow :: runs 2 [.done, .page 3, .done, .done, .done, .done] ++ [.finish 2]

end Sample

/-- Two polls, each of which applies a transaction. -/
theorem handled_of_processed_round : ∃ s, (system Sample.cfg).Reachable (.init Sample.world) s ∧
    s.hist.world.processed "t2" = true ∧
      ∃ pid, Handled Sample.cfg Sample.nextRound (log pid s.hist.trace) ∨
        Failed Sample.cfg Sample.nextRound (log pid s.hist.trace) := by
  obtain ⟨s, hr, hp⟩ := System.exists_of_replay (system Sample.cfg) (fun _ _ => True)
    (.init Sample.world) (Sample.poll ++ Sample.next) (fun s => s.hist.world.processed "t2")
    (by decide +kernel)
  have hround : Sample.nextRound ∈ Sample.cfg.ledgers.transactions 2 := List.mem_singleton_self _
  exact ⟨s, hr, hp, handled_of_processed Sample.cfg (fun _ => rfl) hr hround rfl hp⟩

theorem handled_of_le_checkpoint_unreadable : ∃ s,
    (system Sample.cfg).ReachableWhen (WholeLedgers Sample.cfg) (.init Sample.world) s ∧
      s.hist.world.checkpoint = some 3 ∧
        ((∃ pid, Handled Sample.cfg Sample.unreadable (log pid s.hist.trace) ∨
          Failed Sample.cfg Sample.unreadable (log pid s.hist.trace)) ∨
            ∃ pid, InHand s.hist Sample.unreadable pid) := by
  obtain ⟨s, hr, hp⟩ := System.exists_of_replay (system Sample.cfg) (WholeLedgers Sample.cfg)
    (.init Sample.world) (Sample.poll ++ Sample.next ++ Sample.last)
    (fun s => s.hist.world.checkpoint == some 3) (by decide +kernel)
  have hcheckpoint : s.hist.world.checkpoint = some 3 := by simpa using hp
  have hunreadable : Sample.unreadable ∈ Sample.cfg.ledgers.transactions 3 := List.mem_singleton_self _
  exact ⟨s, hr, hcheckpoint, handled_of_le_checkpoint Sample.cfg (fun _ => rfl) rfl hr hunreadable rfl
    (by simp [hcheckpoint])⟩

end Ahjoor.EventListener
