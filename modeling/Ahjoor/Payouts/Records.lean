import Ahjoor.Payouts.Bodies

/-!
# The payout records over a run

What every run of the payout protocol keeps of the table of payout records: a record that a
call has been handed stays in the table under its key, and the unique index lets one insert of
a key through. Since a payment starts only after the call's own insert, it starts **at most
once for each group and round**, whatever the interleaving and wherever calls crash.
-/

namespace Ahjoor

open Async Bullmq Store StellarService PayoutService

variable {sdk : Sdk} {cfg : Config}

/-! ### Sound histories -/

/-- Every call keeps its discipline, and the database is honest to it. -/
structure Sound (h : PayoutHist) : Prop extends Disciplined May Achieves h where
  honest : ∀ pid, Honest (log pid h.trace)

/-- An acknowledged insert: the key was free, and the record is stored under a fresh id. -/
theorem exec_insertPayout {created stored : PayoutTransaction} {pid : ℕ} {choice : Choice}
    {w w' : World} (h : exec (.db (.insertPayout created)) pid choice w = some (.ok stored, w')) :
    w.db.payoutByOrderId created.payoutOrderId = none ∧
      stored = { created with id := w.db.payoutTransactions.next } ∧
      w'.db.payoutTransactions = (w.db.payoutTransactions.insert created).2 := by
  obtain ⟨heval, rfl⟩ := exec_db_ok h
  simp only [Query.eval] at heval ⊢
  split at heval
  · cases heval
  next hfree =>
    cases heval
    rw [if_neg hfree]
    exact ⟨by simpa using hfree, rfl, rfl⟩

theorem Honest.cons_of_exec {L : Log Op.Ret} (h : Honest L) {o : Op} {r : o.Ret} {pid : ℕ}
    {choice : Choice} {w w' : World} (hexec : exec o pid choice w = some (r, w')) :
    Honest (⟨o, r⟩ :: L) := by
  intro created stored hins
  rcases List.mem_cons.mp hins with heq | hins
  · cases heq
    obtain ⟨-, rfl, -⟩ := exec_insertPayout hexec
    rfl
  · exact h created stored hins

theorem lawful_may {c : PayoutCall} {L : Log Op.Ret} (h : Lawful (Permits c) L) (hL : Honest L) :
    Lawful (May c) L := by
  induction L with
  | nil => trivial
  | cons e L ih =>
    have hL' : Honest L := fun created stored hins =>
      hL created stored (List.mem_cons_of_mem e hins)
    exact ⟨h.1 hL', ih h.2 hL'⟩

theorem sound_of_disciplined {h : PayoutHist} (hd : Disciplined Permits Achieves h)
    (hh : ∀ pid, Honest (log pid h.trace)) : Sound h :=
  ⟨⟨hd.start_mem, hd.start_unique, fun pid c hc => lawful_may (hd.lawful pid c hc) (hh pid),
    hd.returned⟩, hh⟩

theorem histStep_may {h h' : PayoutHist} (hh : ∀ pid, Honest (log pid h.trace))
    (hs : HistStep (payoutSystem sdk cfg) Permits h h') :
    HistStep (payoutSystem sdk cfg) May h h' := by
  cases hs with
  | idle e he hlive => exact .idle e he hlive
  | did pid c o choice r w hstart hD hexec hlive =>
    exact .did pid c o choice r w hstart (hD (hh pid)) hexec hlive

/-- **The rule for the payout protocol**: an invariant of its histories. -/
theorem payout_rule {ok : PayoutHist → PayoutHist → Prop} {I : PayoutHist → Prop} {w : World}
    (h₀ : I ⟨w, []⟩)
    (hstep : ∀ h h', Sound h → Sound h' → I h → HistStep (payoutSystem sdk cfg) May h h' →
      ok h h' → I h')
    {s : PayoutState} (hr : (payoutSystem sdk cfg).ReachableWhen ok (.init w) s) :
    Sound s.hist ∧ I s.hist := by
  have key := hist_invariant (S := payoutSystem sdk cfg) (follows_payoutBody sdk cfg)
    (I := fun h => Disciplined Permits Achieves h ∧ (∀ pid, Honest (log pid h.trace)) ∧ I h)
    ⟨⟨by simp, by simp, by simp, by simp⟩, fun _ _ _ => nofun, h₀⟩ ?_ hr
  · exact ⟨sound_of_disciplined key.1 key.2.1, key.2.2⟩
  intro h h' hd hd' ⟨_, hh, hI⟩ hs hok
  have hh' : ∀ pid, Honest (log pid h'.trace) := by
    intro p
    cases hs with
    | idle e he hlive => exact (he p h.trace).symm ▸ hh p
    | did pid c o choice r w hstart hD hexec hlive =>
      by_cases hp : pid = p
      · subst hp
        rw [Hist.push_trace, log_did_self]
        exact (hh pid).cons_of_exec hexec
      · rw [Hist.push_trace, log_cons_of_ne (e := .did pid o r h.world) hp]
        exact hh p
  exact ⟨hd', hh', hstep h h' (sound_of_disciplined hd hh) (sound_of_disciplined hd' hh') hI
    (histStep_may hh hs) hok⟩

/-- The next step of a run, with what its history so far is known to keep. -/
theorem histStep_of_step {ok : PayoutHist → PayoutHist → Prop} {w : World} {s s' : PayoutState}
    (hr : (payoutSystem sdk cfg).ReachableWhen ok (.init w) s)
    (hstep : (payoutSystem sdk cfg).Step ok s s') :
    Sound s.hist ∧ HistStep (payoutSystem sdk cfg) May s.hist s'.hist := by
  have hsound : Sound s.hist := (payout_rule (I := fun _ => True) trivial
    (fun _ _ _ _ _ _ _ => trivial) hr).1
  obtain ⟨⟨m, hm⟩, -⟩ := hstep
  have hl := (System.ReachableWhen.rule (J := fun _ => True) trivial
    (fun _ _ _ _ _ _ _ => trivial) hr).1
  exact ⟨hsound, histStep_may hsound.honest
    ((orderly_of_reachable (follows_payoutBody sdk cfg) hr).histStep hl
      (System.stepKind_of_move hm))⟩

/-! ### What a step does to the records -/

/-- The table of payout records. -/
abbrev records (h : PayoutHist) : Table PayoutTransaction := h.world.db.payoutTransactions

theorem not_commit_of_may {c : PayoutCall} {L : Log Op.Ret} {o : Op} (h : May c L o) :
    o ≠ .commit := by
  rintro rfl
  cases c with
  | distribute groupId round => cases h; next h => cases h
  | sweep => cases h
  | reconcile jobId => cases h; next h => cases h
  | stalled jobId => cases h
  | expired jobId => cases h

/-- Apart from inserts and saves, a step leaves the records alone. -/
theorem payouts_of_exec {c : PayoutCall} {L : Log Op.Ret} {o : Op} (hD : May c L o)
    (hinsert : ∀ created, o ≠ .db (.insertPayout created)) (hsave : o.savedPayout = none)
    {pid : ℕ} {choice : Choice} {w w' : World} {r : o.Ret}
    (h : exec o pid choice w = some (r, w')) :
    w'.db.payoutTransactions = w.db.payoutTransactions := by
  cases o with
  | db q =>
    have hq : q.writesPayouts = false := by
      cases q with
      | insertPayout created => exact absurd rfl (hinsert created)
      | savePayout p => cases hsave
      | _ => rfl
    rcases db_of_exec_db h with heq | heq
    · rw [heq]
    · rw [heq, Query.payouts_eval hq]
  | commit => exact absurd rfl (not_commit_of_may hD)
  | _ => rw [(changes_of_exec h).db rfl]

/-- A record that is saved is a copy of one that the call has been handed. -/
theorem exists_shown_of_save {c : PayoutCall} {L : Log Op.Ret} {p : PayoutTransaction}
    (h : May c L (.db (.savePayout p))) :
    ∃ e ∈ L, ∃ t ∈ shown e, p.id = t.id ∧ p.payoutOrderId = t.payoutOrderId := by
  cases c with
  | distribute groupId round =>
    cases h with
    | minor h => cases h
    | save h =>
      obtain ⟨created, stored, hins, hp⟩ : Own L p := by cases h <;> assumption
      exact ⟨_, hins, stored, List.mem_cons_self, hp⟩
  | sweep => cases h
  | reconcile jobId =>
    cases h with
    | remote h => cases h
    | settle htake hread hopen hhash hsaves hp =>
      refine ⟨_, hread, _, List.mem_cons_self, ?_⟩
      cases hp <;> exact ⟨rfl, rfl⟩
  | stalled jobId => cases h
  | expired jobId => cases h

/-- A record that a step hands to its call is then in the table. -/
theorem row_of_shown {o : Op} {pid : ℕ} {choice : Choice} {w w' : World} {r : o.Ret}
    (h : exec o pid choice w = some (r, w')) {p : PayoutTransaction} (hp : p ∈ shown ⟨o, r⟩) :
    w'.db.payoutTransactions.row p.id = some p := by
  cases o with
  | db q =>
    cases r with
    | error e => cases q <;> cases hp
    | ok a =>
      cases q with
      | insertPayout created =>
        obtain rfl := List.mem_singleton.mp hp
        obtain ⟨-, rfl, htable⟩ := exec_insertPayout h
        rw [htable]
        exact Table.row_put_self _ _
      | findPayout id =>
        obtain rfl := Option.mem_toList.mp hp
        obtain ⟨heval, rfl⟩ := exec_db_ok h
        have hrow : w.db.payoutTransactions.row id = some p := Except.ok.inj heval
        have hid : p.id = id := w.db.payoutTransactions.id_of_row hrow
        exact hid ▸ hrow
      | findPayoutByOrderId key =>
        obtain rfl := Option.mem_toList.mp hp
        obtain ⟨heval, rfl⟩ := exec_db_ok h
        exact (Table.of_find?_eq_some (Except.ok.inj heval)).1
      | findPayouts statuses =>
        obtain ⟨heval, rfl⟩ := exec_db_ok h
        obtain rfl := Except.ok.inj heval
        exact ((Table.mem_filter _).mp hp).1
      | _ => cases hp
  | _ => cases hp

/-- Some call has been handed the record. -/
def Shown (h : PayoutHist) (p : PayoutTransaction) : Prop :=
  ∃ pid, ∃ e ∈ log pid h.trace, p ∈ shown e

/-- What a step does to the record under one id: nothing, or a save of it. -/
theorem row_kept_or_saved {h h' : PayoutHist} (hs : HistStep (payoutSystem sdk cfg) May h h')
    {i : ℕ} {c : PayoutTransaction} (hrow : (records h).row i = some c) :
    (records h').row i = some c ∨
      ∃ pid call p r, h'.trace = .did pid (.db (.savePayout p)) r h.world :: h.trace ∧
        Event.start pid call ∈ h.trace ∧ May call (log pid h.trace) (.db (.savePayout p)) ∧
        p.id = i ∧ (records h').row i = some p := by
  cases hs with
  | idle e he hlive => exact .inl hrow
  | did pid call o choice r w hstart hD hexec hlive =>
    by_cases hinsert : ∃ created, o = .db (.insertPayout created)
    · obtain ⟨created, rfl⟩ := hinsert
      left
      rcases db_of_exec_db hexec with heq | heq
      · exact (congrArg (fun d => d.payoutTransactions.row i) heq).trans hrow
      · show w.db.payoutTransactions.row i = some c
        rw [heq]
        simp only [Query.eval]
        split
        · exact hrow
        · exact Table.row_insert_of_row _ _ hrow
    by_cases hsave : ∃ p, o = .db (.savePayout p)
    · obtain ⟨p, rfl⟩ := hsave
      rcases db_of_exec_db hexec with heq | heq
      · exact .inl ((congrArg (fun d => d.payoutTransactions.row i) heq).trans hrow)
      · have hput : w.db.payoutTransactions = (records h).put p := by rw [heq]; rfl
        by_cases hi : i = p.id
        · refine .inr ⟨pid, call, p, r, rfl, hstart, hD, hi.symm, ?_⟩
          show w.db.payoutTransactions.row i = some p
          rw [hput, hi]
          exact Table.row_put_self _ _
        · left
          show w.db.payoutTransactions.row i = some c
          rw [hput, Table.row_put_of_ne _ (by simpa using hi)]
          exact hrow
    · left
      have hnone : o.savedPayout = none := by
        cases o with
        | db q => cases q <;> first | rfl | exact absurd ⟨_, rfl⟩ hsave
        | _ => rfl
      show w.db.payoutTransactions.row i = some c
      rw [payouts_of_exec hD (fun created heq => hinsert ⟨created, heq⟩) hnone hexec]
      exact hrow

/-- Where the record under an id after a step comes from: it was there, it is a new record, or
it has been saved. -/
theorem row_was_or_written {h h' : PayoutHist} (hs : HistStep (payoutSystem sdk cfg) May h h')
    {i : ℕ} {c : PayoutTransaction} (hrow : (records h').row i = some c) :
    (records h).row i = some c ∨
      ∃ pid call o r, h'.trace = .did pid o r h.world :: h.trace ∧ Event.start pid call ∈ h.trace ∧
        May call (log pid h.trace) o ∧
        ((∃ created, o = .db (.insertPayout created) ∧ (records h).row i = none ∧
          c = { created with id := i }) ∨ (o = .db (.savePayout c) ∧ c.id = i)) := by
  cases hs with
  | idle e he hlive => exact .inl hrow
  | did pid call o choice r w hstart hD hexec hlive =>
    have same : w.db.payoutTransactions = (records h) → (records h).row i = some c := fun heq => by
      rw [← heq]
      exact hrow
    by_cases hinsert : ∃ created, o = .db (.insertPayout created)
    · obtain ⟨created, rfl⟩ := hinsert
      rcases db_of_exec_db hexec with heq | heq
      · exact .inl (same (congrArg Database.payoutTransactions heq))
      · simp only [Query.eval] at heq
        split at heq
        · exact .inl (same (congrArg Database.payoutTransactions heq))
        · have htable : w.db.payoutTransactions =
              (records h).put { created with id := (records h).next } := by rw [heq]; rfl
          by_cases hi : i = (records h).next
          · subst hi
            refine .inr ⟨pid, call, _, r, rfl, hstart, hD, .inl ⟨created, rfl, Table.row_next _, ?_⟩⟩
            have hself : w.db.payoutTransactions.row (records h).next =
                some { created with id := (records h).next } := by
              rw [htable]
              exact Table.row_put_self _ _
            exact Option.some.inj (hrow.symm.trans hself)
          · refine .inl ?_
            have hother : w.db.payoutTransactions.row i = (records h).row i := by
              rw [htable]
              exact Table.row_put_of_ne _ hi
            exact hother.symm.trans hrow
    by_cases hsave : ∃ p, o = .db (.savePayout p)
    · obtain ⟨p, rfl⟩ := hsave
      rcases db_of_exec_db hexec with heq | heq
      · exact .inl (same (congrArg Database.payoutTransactions heq))
      · have hput : w.db.payoutTransactions = (records h).put p := by rw [heq]; rfl
        by_cases hi : i = p.id
        · have hself : w.db.payoutTransactions.row i = some p := by
            rw [hput, hi]
            exact Table.row_put_self _ _
          obtain rfl : c = p := Option.some.inj (hrow.symm.trans hself)
          exact .inr ⟨pid, call, _, r, rfl, hstart, hD, .inr ⟨rfl, hi.symm⟩⟩
        · refine .inl ?_
          have hother : w.db.payoutTransactions.row i = (records h).row i := by
            rw [hput]
            exact Table.row_put_of_ne _ hi
          exact hother.symm.trans hrow
    · have hnone : o.savedPayout = none := by
        cases o with
        | db q => cases q <;> first | rfl | exact absurd ⟨_, rfl⟩ hsave
        | _ => rfl
      exact .inl (same (payouts_of_exec hD (fun created heq => hinsert ⟨created, heq⟩) hnone hexec))

/-! ### Records keep their keys -/

/-- What a step adds to what has been handed out. -/
theorem Shown.of_step {h h' : PayoutHist} (hs : HistStep (payoutSystem sdk cfg) May h h')
    {p : PayoutTransaction} (hp : Shown h' p) : Shown h p ∨ (records h').row p.id = some p := by
  obtain ⟨q, e, he, hpe⟩ := hp
  rcases hs.mem_log he with he | ⟨choice, hexec⟩
  · exact .inl ⟨q, e, he, hpe⟩
  · exact .inr (row_of_shown hexec hpe)

/-- A record that has been handed out is still in the table, under the same key. -/
def KeepsKeys (h : PayoutHist) : Prop :=
  ∀ p, Shown h p → ∃ c, (records h).row p.id = some c ∧ c.payoutOrderId = p.payoutOrderId

/-- A step keeps a record's key. -/
theorem KeepsKeys.row {h h' : PayoutHist} (hk : KeepsKeys h)
    (hs : HistStep (payoutSystem sdk cfg) May h h') {i : ℕ} {c : PayoutTransaction}
    (hrow : (records h).row i = some c) :
    ∃ c', (records h').row i = some c' ∧ c'.payoutOrderId = c.payoutOrderId := by
  rcases row_kept_or_saved hs hrow with hrow' | ⟨pid, call, p, r, -, -, hD, rfl, hrow'⟩
  · exact ⟨c, hrow', rfl⟩
  · obtain ⟨e, he, t, ht, hid, hkey⟩ := exists_shown_of_save hD
    obtain ⟨c', hc', hkey'⟩ := hk t ⟨pid, e, he, ht⟩
    rw [← hid, hrow] at hc'
    exact ⟨p, hrow', by rw [hkey, ← hkey', Option.some.inj hc']⟩

theorem KeepsKeys.step {h h' : PayoutHist} (hk : KeepsKeys h)
    (hs : HistStep (payoutSystem sdk cfg) May h h') : KeepsKeys h' := by
  intro p hp
  rcases hp.of_step hs with hp | hrow
  · obtain ⟨c, hrow, hkey⟩ := hk p hp
    obtain ⟨c', hrow', hkey'⟩ := hk.row hs hrow
    exact ⟨c', hrow', hkey'.trans hkey⟩
  · exact ⟨p, hrow, rfl⟩

/-! ### One insert for each key -/

/-- Two acknowledged inserts of one key are the same insert. -/
def OneInsert (h : PayoutHist) : Prop :=
  ∀ pid pid' c c' p p', Inserted (log pid h.trace) c p → Inserted (log pid' h.trace) c' p' →
    c.payoutOrderId = c'.payoutOrderId → pid = pid' ∧ p = p'

theorem shown_of_inserted {h : PayoutHist} {pid : ℕ} {c p : PayoutTransaction}
    (hins : Inserted (log pid h.trace) c p) : Shown h p :=
  ⟨pid, _, hins, List.mem_cons_self⟩

/-- An insert whose key was inserted before is refused. -/
theorem KeepsKeys.fresh {h : PayoutHist} (hsound : Sound h) (hk : KeepsKeys h) {pid q : ℕ}
    {choice : Choice} {created stored : PayoutTransaction} {w : World}
    (hexec : exec (.db (.insertPayout created)) pid choice h.world = some (.ok stored, w))
    {c p : PayoutTransaction} (hins : Inserted (log q h.trace) c p) :
    c.payoutOrderId ≠ created.payoutOrderId := by
  intro hkey
  obtain ⟨hfree, -, -⟩ := exec_insertPayout hexec
  obtain ⟨row, hrow, hrowkey⟩ := hk p (shown_of_inserted hins)
  have hpkey : p.payoutOrderId = c.payoutOrderId := by rw [hsound.honest q c p hins]
  have := (Table.find?_eq_none.mp hfree) _ _ hrow
  rw [hrowkey, hpkey, hkey] at this
  simp at this

theorem OneInsert.step {h h' : PayoutHist} (hsound : Sound h) (hk : KeepsKeys h) (ho : OneInsert h)
    (hs : HistStep (payoutSystem sdk cfg) May h h') : OneInsert h' := by
  cases hs with
  | idle e he hlive =>
    intro pid pid' c c' p p' hins hins'
    rw [Hist.push_trace, he] at hins hins'
    exact ho pid pid' c c' p p' hins hins'
  | did pid call o choice r w hstart hD hexec hlive =>
    -- an acknowledged insert in the new log is an old one, or the step itself
    have split : ∀ {q c p}, Inserted (log q (h.push (.did pid o r h.world) w).trace) c p →
        Inserted (log q h.trace) c p ∨
          q = pid ∧ (⟨o, r⟩ : Entry Op.Ret) = ⟨.db (.insertPayout c), .ok p⟩ := by
      intro q c p hins
      by_cases hq : pid = q
      · subst hq
        rw [Hist.push_trace, log_did_self] at hins
        rcases List.mem_cons.mp hins with heq | hins
        · exact .inr ⟨rfl, heq.symm⟩
        · exact .inl hins
      · rw [Hist.push_trace, log_cons_of_ne (e := .did pid o r h.world) hq] at hins
        exact .inl hins
    intro q q' c c' p p' hins hins' hkey
    rcases split hins with hold | ⟨rfl, heq⟩ <;> rcases split hins' with hold' | ⟨rfl, heq'⟩
    · exact ho q q' c c' p p' hold hold' hkey
    · cases heq'
      exact absurd hkey (hk.fresh hsound hexec hold)
    · cases heq
      exact absurd hkey.symm (hk.fresh hsound hexec hold')
    · rw [heq] at heq'
      cases heq'
      exact ⟨rfl, rfl⟩

theorem keys_init (w : World) : KeepsKeys ⟨w, []⟩ ∧ OneInsert ⟨w, []⟩ :=
  ⟨fun _ ⟨_, _, he, _⟩ => absurd he List.not_mem_nil,
    fun _ _ _ _ _ _ hins => absurd hins List.not_mem_nil⟩

end Ahjoor
