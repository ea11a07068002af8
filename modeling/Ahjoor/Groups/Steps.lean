import Ahjoor.Groups.World

/-!
# What one operation changes

The inversion of `exec`, once for each part of the world: a query outside a transaction takes
effect or not, and only `db` and `commit` touch the tables, only the job operations touch the
queue, only `sendTransaction` adds to the accepted transactions. Together with the effect of a
query on each table this is all that the invariants of runs use of `exec`.
-/

namespace Ahjoor

open Async Bullmq Store

/-! ### Queries -/

namespace Query

/-- The query only reads. -/
def isRead : Query → Bool
  | findGroup _ | findGroupWithMemberships _ | findMembership _ | findMemberships _
  | countPenalties _ _ _ | findPayoutByOrderId _ | findPayout _ | findPayouts _
  | findContribution _ | findContributions _ => true
  | _ => false

/-- The query writes payout records. -/
def writesPayouts : Query → Bool
  | insertPayout _ | savePayout _ => true
  | _ => false

/-- The query writes memberships. -/
def writesMemberships : Query → Bool
  | saveMembership _ | updateHasPaid _ _ => true
  | _ => false

/-- The query writes groups. -/
def writesGroups : Query → Bool
  | saveGroup _ => true
  | _ => false

theorem eval_of_isRead {q : Query} (h : q.isRead = true) (d : Database) : (q.eval d).2 = d := by
  cases q <;> first | rfl | cases h

theorem payouts_eval {q : Query} (h : q.writesPayouts = false) (d : Database) :
    (q.eval d).2.payoutTransactions = d.payoutTransactions := by
  cases q with
  | insertPayout p => cases h
  | savePayout p => cases h
  | insertContribution c | insertContributionOrIgnore c =>
    simp only [eval]
    split <;> rfl
  | updateContribution i p =>
    simp only [eval]
    repeat' split
    all_goals rfl
  | _ => rfl

theorem memberships_eval {q : Query} (h : q.writesMemberships = false) (d : Database) :
    (q.eval d).2.memberships = d.memberships := by
  cases q with
  | saveMembership m => cases h
  | updateHasPaid w b => cases h
  | insertContribution c | insertContributionOrIgnore c =>
    simp only [eval]
    split <;> rfl
  | insertPayout p =>
    simp only [eval]
    split <;> rfl
  | updateContribution i p =>
    simp only [eval]
    repeat' split
    all_goals rfl
  | _ => rfl

theorem groups_eval {q : Query} (h : q.writesGroups = false) (d : Database) :
    (q.eval d).2.groups = d.groups := by
  cases q with
  | saveGroup g => cases h
  | insertContribution c | insertContributionOrIgnore c =>
    simp only [eval]
    split <;> rfl
  | insertPayout p =>
    simp only [eval]
    split <;> rfl
  | updateContribution i p =>
    simp only [eval]
    repeat' split
    all_goals rfl
  | _ => rfl

end Query

/-! ### Operations -/

namespace Op

/-- The operation reaches the tables. -/
def onTables : Op → Bool
  | db _ | commit => true
  | _ => false

/-- The operation reaches the queue. -/
def onQueue : Op → Bool
  | addJob _ _ | takeJob _ | finishJob _ _ | stallJob _ | expireJob _ => true
  | _ => false

/-- The operation hands a transaction to the network. -/
def isSend : Op → Bool
  | rpc _ _ _ (.sendTransaction _) => true
  | _ => false

end Op

/-- A query outside a transaction takes effect and answers, or throws with or without having
taken effect. -/
theorem exec_db {q : Query} {pid : ℕ} {c : Choice} {w w' : World} {r : Except Exc q.Ret}
    (h : exec (.db q) pid c w = some (r, w')) :
    (r = (q.eval w.db).1 ∧ w' = { w with db := (q.eval w.db).2 }) ∨
      ((∃ msg, r = .error (.error msg)) ∧ (w' = w ∨ w' = { w with db := (q.eval w.db).2 })) := by
  cases c with
  | done =>
    simp only [exec] at h
    split at h
    · cases h
    · cases h
      exact .inl ⟨rfl, rfl⟩
  | fails msg =>
    cases h
    exact .inr ⟨⟨msg, rfl⟩, .inl rfl⟩
  | lost msg =>
    simp only [exec] at h
    split at h
    · cases h
    · cases h
      exact .inr ⟨⟨msg, rfl⟩, .inr rfl⟩
  | _ => cases h

/-- A query that answers has taken effect. -/
theorem exec_db_ok {q : Query} {pid : ℕ} {c : Choice} {w w' : World} {a : q.Ret}
    (h : exec (.db q) pid c w = some (.ok a, w')) :
    (q.eval w.db).1 = .ok a ∧ w' = { w with db := (q.eval w.db).2 } := by
  rcases exec_db h with ⟨hr, hw⟩ | ⟨⟨msg, hr⟩, -⟩
  · exact ⟨hr.symm, hw⟩
  · cases hr

/-- The tables after a query: as before, or as the query leaves them. -/
theorem db_of_exec_db {q : Query} {pid : ℕ} {c : Choice} {w w' : World} {r : Except Exc q.Ret}
    (h : exec (.db q) pid c w = some (r, w')) : w'.db = w.db ∨ w'.db = (q.eval w.db).2 := by
  rcases exec_db h with ⟨-, rfl⟩ | ⟨-, rfl | rfl⟩
  · exact .inr rfl
  · exact .inl rfl
  · exact .inr rfl

/-- What an operation can change of the world. -/
structure Changes (o : Op) (w w' : World) : Prop where
  db : o.onTables = false → w'.db = w.db
  payoutQueue : o.onQueue = false → w'.payoutQueue = w.payoutQueue
  accepted : o.isSend = false → w'.chain.accepted = w.chain.accepted

theorem Chain.accepted_report {c c' : Chain} {hash : String} {s : TxStatus}
    (h : c.report hash s = some c') : c'.accepted = c.accepted := by
  unfold Chain.report at h
  split at h
  · cases h; rfl
  · split at h
    · cases h; rfl
    · split at h <;> cases h
      rfl

theorem accepted_serve {pid : ℕ} {req : Request} {c : Choice} {ch ch' : Chain}
    {r : Except Exc req.Reply} (hreq : ∀ tx, req ≠ .sendTransaction tx)
    (h : req.serve pid c ch = some (r, ch')) : ch'.accepted = ch.accepted := by
  cases req with
  | sendTransaction tx => exact absurd rfl (hreq tx)
  | getTransaction hash =>
    cases c <;> simp only [Request.serve, reduceCtorEq] at h
    case fails => cases h; rfl
    case found r =>
      obtain ⟨c', hc', heq⟩ := Option.map_eq_some_iff.mp h
      cases heq
      exact Chain.accepted_report hc'
  | prepareTransaction tx | simulateTransaction tx | loadAccount i =>
    cases c <;> simp only [Request.serve, reduceCtorEq] at h <;> cases h <;> rfl

/-- **What one operation changes**, for every operation and choice. -/
theorem changes_of_exec {o : Op} {pid : ℕ} {c : Choice} {w w' : World} {r : o.Ret}
    (h : exec o pid c w = some (r, w')) : Changes o w w' := by
  cases o with
  | db q =>
    rcases exec_db h with ⟨-, rfl⟩ | ⟨-, rfl | rfl⟩ <;>
      exact ⟨nofun, fun _ => rfl, fun _ => rfl⟩
  | rpc n i initial req =>
    cases c <;> simp only [exec] at h <;>
      obtain ⟨⟨reply, ch⟩, hserve, heq⟩ := Option.map_eq_some_iff.mp h <;> cases heq <;>
      refine ⟨fun _ => rfl, fun _ => rfl, fun hsend => accepted_serve ?_ hserve⟩ <;>
      rintro tx rfl <;> cases hsend
  | tx q =>
    cases c <;> simp only [exec, reduceCtorEq] at h
    case done =>
      obtain ⟨s, -, hs⟩ := Option.bind_eq_some_iff.mp h
      split at hs <;> cases hs
      exact ⟨fun _ => rfl, fun _ => rfl, fun _ => rfl⟩
    case fails => cases h; exact ⟨fun _ => rfl, fun _ => rfl, fun _ => rfl⟩
  | commit =>
    cases c <;> simp only [exec, reduceCtorEq] at h
    case done =>
      obtain ⟨s, -, hs⟩ := Option.map_eq_some_iff.mp h
      cases hs
      exact ⟨nofun, fun _ => rfl, fun _ => rfl⟩
    case lost =>
      obtain ⟨s, -, hs⟩ := Option.map_eq_some_iff.mp h
      cases hs
      exact ⟨nofun, fun _ => rfl, fun _ => rfl⟩
    case fails => cases h; exact ⟨nofun, fun _ => rfl, fun _ => rfl⟩
  | takeJob id =>
    cases c <;> simp only [exec, reduceCtorEq] at h
    case done => split at h <;> cases h <;> exact ⟨fun _ => rfl, nofun, fun _ => rfl⟩
  | ask q =>
    cases c <;> simp only [exec, reduceCtorEq] at h
    case answer a =>
      obtain ⟨v, -, hv⟩ := Option.map_eq_some_iff.mp h
      cases hv
      exact ⟨fun _ => rfl, fun _ => rfl, fun _ => rfl⟩
    case fails => cases h; exact ⟨fun _ => rfl, fun _ => rfl, fun _ => rfl⟩
  | now =>
    cases c <;> simp only [exec, reduceCtorEq] at h
    case time t =>
      split at h <;> cases h
      exact ⟨fun _ => rfl, fun _ => rfl, fun _ => rfl⟩
  | _ =>
    cases c <;> simp only [exec, reduceCtorEq] at h <;> cases h <;>
      exact ⟨fun _ => rfl, by first | exact fun _ => rfl | exact nofun, fun _ => rfl⟩

theorem Chain.mem_accepted_accept {c : Chain} {pid : ℕ} {tx : Transaction} {e : ℕ × Transaction}
    (h : e ∈ (c.accept pid tx).accepted) : e ∈ c.accepted ∨ e = (pid, tx) := by
  unfold Chain.accept at h
  split at h
  · exact .inl h
  · exact (List.mem_cons.mp h).symm

/-- A transaction that an operation adds to the accepted ones is one that its call sends. -/
theorem mem_accepted_of_exec {o : Op} {pid : ℕ} {c : Choice} {w w' : World} {r : o.Ret}
    (h : exec o pid c w = some (r, w')) {e : ℕ × Transaction} (he : e ∈ w'.chain.accepted) :
    e ∈ w.chain.accepted ∨ e.1 = pid ∧
      ∃ n i initial, o = .rpc n i initial (.sendTransaction e.2) := by
  by_cases hsend : o.isSend = true
  · cases o with
    | rpc n i initial req =>
      cases req with
      | sendTransaction tx =>
        have accepted : ∀ c' : Chain, w'.chain = c' → (c' = w.chain ∨ c' = w.chain.accept pid tx) →
            e ∈ w.chain.accepted ∨ e.1 = pid ∧
              ∃ n' i' initial', Op.rpc n i initial (.sendTransaction tx) =
                .rpc n' i' initial' (.sendTransaction e.2) := by
          rintro c' hc' (rfl | rfl)
          · exact .inl (hc' ▸ he)
          · rcases Chain.mem_accepted_accept (hc' ▸ he) with he | rfl
            · exact .inl he
            · exact .inr ⟨rfl, n, i, initial, rfl⟩
        cases c with
        | fails msg =>
          cases h
          exact accepted _ rfl (.inl rfl)
        | lost msg =>
          cases h
          exact accepted _ rfl (.inr rfl)
        | sent took reply =>
          cases h
          refine accepted _ rfl ?_
          dsimp only
          split
          · exact .inr rfl
          · exact .inl rfl
        | _ => cases h
      | _ => cases hsend
    | _ => cases hsend
  · left
    rwa [(changes_of_exec h).accepted (by simpa using hsend)] at he

/-- An acknowledged enqueueing has added the job. -/
theorem exec_addJob_ok {id : Uuid} {job : Job Uuid} {pid : ℕ} {c : Choice} {w w' : World}
    (h : exec (.addJob id job) pid c w = some (.ok (), w')) :
    w' = { w with payoutQueue := w.payoutQueue.add id job } := by
  cases c <;> cases h
  rfl

/-! ### The final answer of the chain -/

section Chain

variable {c c' : Chain} {pid : ℕ} {hash : String} {v : TxStatus} {choice : Choice}

theorem Chain.verdict_accept {tx : Transaction} : (c.accept pid tx).verdict = c.verdict := by
  rw [Chain.accept]
  split <;> rfl

/-- A final report is the chain's answer from then on. -/
theorem Chain.verdict_report_self {s : TxStatus} (h : c.report hash s = some c')
    (hs : s ≠ .pending) : c'.verdict hash = some s := by
  rw [Chain.report, if_neg hs] at h
  split at h
  · cases h
    exact Function.update_self ..
  · next v' hv' =>
    split at h
    · next hsame =>
      cases h
      exact hsame ▸ hv'
    · cases h

/-- A report takes no final answer back. -/
theorem Chain.verdict_report {s : TxStatus} {hash' : String} (h : c.report hash' s = some c')
    (hv : c.verdict hash = some v) : c'.verdict hash = some v := by
  rw [Chain.report] at h
  split at h
  · cases h
    exact hv
  · split at h
    · next hnone =>
      cases h
      have hne : hash ≠ hash' := by
        rintro rfl
        rw [hnone] at hv
        cases hv
      exact (Function.update_of_ne hne ..).trans hv
    · split at h
      · cases h
        exact hv
      · cases h

theorem verdict_serve {req : Request} {r : Except Exc req.Reply}
    (h : req.serve pid choice c = some (r, c')) (hv : c.verdict hash = some v) :
    c'.verdict hash = some v := by
  cases req with
  | sendTransaction tx =>
    cases choice with
    | fails msg =>
      cases h
      exact hv
    | lost msg =>
      cases h
      rwa [Chain.verdict_accept]
    | sent took reply =>
      cases h
      split
      · rwa [Chain.verdict_accept]
      · exact hv
    | _ => cases h
  | getTransaction hash' =>
    cases choice <;> simp only [Request.serve, reduceCtorEq] at h
    case fails => cases h; exact hv
    case found r =>
      obtain ⟨c₁, hreport, heq⟩ := Option.map_eq_some_iff.mp h
      cases heq
      exact Chain.verdict_report hreport hv
  | prepareTransaction tx | simulateTransaction tx | loadAccount i =>
    cases choice <;> simp only [Request.serve, reduceCtorEq] at h <;> cases h <;> exact hv

/-- The operation is a request to an RPC server. -/
def Op.isRpc : Op → Bool
  | .rpc _ _ _ _ => true
  | _ => false

theorem chain_exec {o : Op} {r : o.Ret} {w w' : World} (ho : o.isRpc = false)
    (h : exec o pid choice w = some (r, w')) : w'.chain = w.chain := by
  cases o with
  | rpc n i initial req => cases ho
  | db q => rcases exec_db h with ⟨-, rfl⟩ | ⟨-, rfl | rfl⟩ <;> rfl
  | tx q =>
    cases choice <;> simp only [exec, reduceCtorEq] at h
    case done =>
      obtain ⟨s, -, hs⟩ := Option.bind_eq_some_iff.mp h
      split at hs <;> cases hs
      rfl
    case fails => cases h; rfl
  | commit =>
    cases choice <;> simp only [exec, reduceCtorEq] at h
    case done =>
      obtain ⟨s, -, hs⟩ := Option.map_eq_some_iff.mp h
      cases hs
      rfl
    case lost =>
      obtain ⟨s, -, hs⟩ := Option.map_eq_some_iff.mp h
      cases hs
      rfl
    case fails => cases h; rfl
  | takeJob id =>
    cases choice <;> simp only [exec, reduceCtorEq] at h
    case done => split at h <;> cases h <;> rfl
  | ask q =>
    cases choice <;> simp only [exec, reduceCtorEq] at h
    case answer a =>
      obtain ⟨v, -, hv⟩ := Option.map_eq_some_iff.mp h
      cases hv
      rfl
    case fails => cases h; rfl
  | now =>
    cases choice <;> simp only [exec, reduceCtorEq] at h
    case time t =>
      split at h <;> cases h
      rfl
  | _ => cases choice <;> simp only [exec, reduceCtorEq] at h <;> cases h <;> rfl

/-- **The chain takes no final answer back.** -/
theorem verdict_exec {o : Op} {r : o.Ret} {w w' : World}
    (h : exec o pid choice w = some (r, w')) (hv : w.chain.verdict hash = some v) :
    w'.chain.verdict hash = some v := by
  cases ho : o.isRpc with
  | false => rwa [chain_exec ho h]
  | true =>
    cases o with
    | rpc n i initial req =>
      simp only [exec] at h
      obtain ⟨⟨reply, c₁⟩, hserve, heq⟩ := Option.map_eq_some_iff.mp h
      cases heq
      exact verdict_serve hserve hv
    | _ => cases ho

/-- A final status that an RPC server has reported is the chain's final answer. -/
theorem verdict_of_report {n i : ℕ} {initial : Option ℕ} {start : ℕ} {record : Option TxRecord}
    {w w' : World} (h : exec (.rpc n i initial (.getTransaction hash)) pid choice w =
      some ((start, .ok record), w')) (hs : txStatus record ≠ .pending) :
    w'.chain.verdict hash = some (txStatus record) := by
  simp only [exec] at h
  obtain ⟨⟨reply, c₁⟩, hserve, heq⟩ := Option.map_eq_some_iff.mp h
  cases heq
  cases choice <;> simp only [Request.serve, reduceCtorEq] at hserve
  case fails => cases hserve
  case found record' =>
    obtain ⟨c₂, hreport, heq⟩ := Option.map_eq_some_iff.mp hserve
    cases heq
    exact Chain.verdict_report_self hreport hs

end Chain

end Ahjoor
