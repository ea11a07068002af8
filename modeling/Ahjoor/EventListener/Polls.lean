import Ahjoor.Async.Executions
import Ahjoor.Contributions.LastPayout
import Ahjoor.EventListener.EventListenerService

/-!
# What a poll does, on its own log

A poll goes through the transactions that it has fetched in their order. It marks a transaction as
processed only after it has applied its events, or has logged that this failed; it moves the checkpoint to
the ledger of a transaction only after this one and all before it are marked (`follows_body`).
-/

namespace Ahjoor.EventListener

open Async

/-! ### What a poll has read -/

/-- The checkpoint that the poll has read. -/
def lastRead (L : Log Op.Ret) : ℕ :=
  (L.findSome? fun e =>
    match e with
    | ⟨.getLedger, .ok raw⟩ => some (raw.getD 0)
    | _ => none).getD 0

/-- The transactions that the poll has fetched. -/
def fetched (L : Log Op.Ret) : List HorizonTransactionRecord :=
  (L.findSome? fun e =>
    match e with
    | ⟨.fetch _ _, .ok (.records transactions)⟩ => some transactions
    | _ => none).getD []

/-- The operation reads neither the checkpoint nor Horizon. -/
def Op.keepsView : Op → Bool
  | .getLedger | .fetch _ _ => false
  | _ => true

theorem lastRead_cons {o : Op} {r : o.Ret} (ho : o.keepsView = true) (L : Log Op.Ret) :
    lastRead (⟨o, r⟩ :: L) = lastRead L := by
  cases o with
  | getLedger => cases ho
  | _ => rfl

theorem fetched_cons {o : Op} {r : o.Ret} (ho : o.keepsView = true) (L : Log Op.Ret) :
    fetched (⟨o, r⟩ :: L) = fetched L := by
  cases o with
  | fetch endpoint cursor => cases ho
  | _ => rfl

/-! ### What a poll has done -/

section

variable (cfg : Config)

/-- The poll has applied all events of the transaction. -/
def Handled (tx : HorizonTransactionRecord) (L : Log Op.Ret) : Prop :=
  ∃ L₀ L₁, Ends (fun _ => True) (applyEvents cfg tx ()) L₀ (.ok (), ()) L₁ ∧ L₁ <:+ L

/-- The poll has logged what was thrown when it applied the events. -/
def Failed (tx : HorizonTransactionRecord) (L : Log Op.Ret) : Prop :=
  ∃ e L₀ L₁, Ends (fun _ => True) (applyEvents cfg tx ()) L₀ (.error e, ()) L₁ ∧
    ⟨.logFailure tx.hash, ()⟩ :: L₁ <:+ L

/-- The poll knows that the transaction is marked as processed. -/
def Marked (tx : HorizonTransactionRecord) (L : Log Op.Ret) : Prop :=
  tx.hash = "" ∨ ⟨.getProcessed tx.hash, .ok true⟩ ∈ L ∨
    ∃ a : Ack, a.answer = .ok () ∧ ⟨.write (.setProcessed tx.hash), a⟩ ∈ L

/-- The poll has gone through these transactions, as far as they lie after its checkpoint. -/
def Passed (transactions : List HorizonTransactionRecord) (L : Log Op.Ret) : Prop :=
  ∀ tx ∈ transactions, lastRead L < tx.ledger → Marked tx L

/-- What a poll may do next. -/
def Polling (L : Log Op.Ret) : Op → Prop
  | .getLedger => fetched L = []
  | .fetch _ cursor => fetched L = [] ∧ cursor = cursorOf (lastRead L)
  | .write (.setProcessed hash) => ∃ tx ∈ fetched L, tx.hash = hash ∧
      (tx.successful = true → Handled cfg tx L ∨ Failed cfg tx L)
  | .write (.setLedger ledger) => ∃ before tx after, fetched L = before ++ tx :: after ∧
      tx.ledger = ledger ∧ lastRead L < ledger ∧ Marked tx L ∧ Passed before L
  | .base o => o.reportsPayment = true
  | _ => True

end

theorem Marked.mono {tx : HorizonTransactionRecord} {L L' : Log Op.Ret} (h : Marked tx L)
    (hL : L <:+ L') : Marked tx L' :=
  h.imp_right <| Or.imp (fun h => hL.subset h) fun ⟨a, ha, hmem⟩ => ⟨a, ha, hL.subset hmem⟩

theorem Handled.mono {cfg : Config} {tx : HorizonTransactionRecord} {L L' : Log Op.Ret}
    (h : Handled cfg tx L) (hL : L <:+ L') : Handled cfg tx L' := by
  obtain ⟨L₀, L₁, hends, hsuffix⟩ := h
  exact ⟨L₀, L₁, hends, hsuffix.trans hL⟩

theorem Failed.mono {cfg : Config} {tx : HorizonTransactionRecord} {L L' : Log Op.Ret}
    (h : Failed cfg tx L) (hL : L <:+ L') : Failed cfg tx L' := by
  obtain ⟨e, L₀, L₁, hends, hsuffix⟩ := h
  exact ⟨e, L₀, L₁, hends, hsuffix.trans hL⟩

theorem Passed.cons {txs : List HorizonTransactionRecord} {o : Op} {r : o.Ret} {L : Log Op.Ret}
    (h : Passed txs L) (ho : o.keepsView = true) : Passed txs (⟨o, r⟩ :: L) := by
  intro tx htx hlt
  rw [lastRead_cons ho] at hlt
  exact (h tx htx hlt).mono (List.suffix_cons _ L)

/-! ### Handling a transaction -/

/-- The operations by which the handlers record a payment, or the recipient of a payout. -/
def Op.Records : Op → Prop
  | .base o => o.reportsPayment = true
  | .write (.updateHasReceived _) => True
  | _ => False

/-- The operations of the handlers. -/
def Op.Handles : Op → Prop
  | .write (.increment _) => True
  | o => o.Records

theorem Op.Records.handles {o : Op} (ho : o.Records) : o.Handles := by
  cases o with
  | write x =>
    cases x with
    | increment groupId => trivial
    | _ => exact ho
  | _ => exact ho

section

variable (cfg : Config) {P : Op → Prop}

theorem performs_evaluate {α : Type} (x : Except Exc α) : (evaluate x).Performs P := by
  cases x <;> exact fun _ => trivial

theorem performs_pure {α : Type} (a : α) : (pure a : Service α).Performs P := fun _ => trivial

theorem performs_write {x : Write} (hx : P (.write x)) : (write x).Performs P :=
  (Routine.uses_call hx).performs

theorem performs_onDatabase {α : Type} {m : Ahjoor.Service Unit α}
    (hm : m.Uses fun o => o.reportsPayment = true) : (onDatabase m).Performs Op.Records :=
  fun s => ((hm s).weaken fun _ _ => trivial).via fun o ho => show Op.Records (.base o) from ho

theorem performs_forEach {α : Type} (xs : List α) {body : α → Service Unit}
    (hbody : ∀ x, (body x).Performs P) : (Routine.forEach xs body).Performs P := by
  induction xs with
  | nil => exact performs_pure ()
  | cons x xs ih => exact Routine.performs_bind (hbody x) fun _ => ih

theorem performs_handleContributionReceived (payload : Payload) (tx : HorizonTransactionRecord) :
    (handleContributionReceived cfg payload tx).Performs Op.Records := by
  unfold handleContributionReceived
  split
  · refine Routine.performs_bind (performs_evaluate _) fun _ => ?_
    refine Routine.performs_bind (performs_evaluate _) fun _ => ?_
    exact Routine.performs_bind (performs_evaluate _) fun _ =>
      performs_onDatabase (uses_handleContributionReceived _)
  · exact performs_pure ()

theorem performs_noteRecipient (groupId : Uuid) (payload : Payload) :
    (noteRecipient cfg groupId payload).Performs Op.Records := by
  unfold noteRecipient
  split
  · exact Routine.performs_bind (performs_evaluate _) fun _ => performs_write trivial
  · split
    · exact performs_write trivial
    · split
      · exact Routine.performs_bind (performs_evaluate _) fun _ => performs_write trivial
      · exact performs_pure ()

/-- What `handleRoundCompleted` performs once the round is completed. -/
theorem performs_afterIncrement (groupId : Uuid) (payload : Payload) :
    (onDatabase (query (.updateHasPaid { groupId := some groupId } false)) >>= fun _ =>
      noteRecipient cfg groupId payload).Performs Op.Records :=
  Routine.performs_bind (performs_onDatabase (uses_query rfl)) fun _ =>
    performs_noteRecipient cfg groupId payload

theorem performs_handleRoundCompleted (payload : Payload) :
    (handleRoundCompleted cfg payload).Performs Op.Handles := by
  unfold handleRoundCompleted
  split
  · exact performs_pure ()
  · refine Routine.performs_bind (performs_evaluate _) fun groupId => ?_
    refine Routine.performs_bind (performs_write trivial) fun _ => ?_
    exact (performs_afterIncrement cfg groupId payload).mono fun _ => Op.Records.handles

theorem performs_applyEvents (tx : HorizonTransactionRecord) :
    (applyEvents cfg tx).Performs Op.Handles := by
  refine Routine.performs_bind (performs_evaluate _) fun events => performs_forEach events fun event => ?_
  unfold handleParsedEvent
  split
  · exact (performs_handleContributionReceived cfg _ _).mono fun _ => Op.Records.handles
  · exact performs_handleRoundCompleted cfg _

end

/-! ### The loop -/

section

variable (cfg : Config)

/-- In the middle of the loop, with these transactions still to come. -/
def Place (last : ℕ) (transactions rest : List HorizonTransactionRecord) (L : Log Op.Ret) : Prop :=
  lastRead L = last ∧ fetched L = transactions ∧
    ∃ before, transactions = before ++ rest ∧ Passed before L

variable {cfg} {last : ℕ} {transactions rest : List HorizonTransactionRecord} {L : Log Op.Ret}

theorem Place.cons (h : Place last transactions rest L) {o : Op} {r : o.Ret} (ho : o.keepsView = true) :
    Place last transactions rest (⟨o, r⟩ :: L) := by
  obtain ⟨hlast, hfetched, before, htxs, hpassed⟩ := h
  exact ⟨(lastRead_cons ho L).trans hlast, (fetched_cons ho L).trans hfetched, before, htxs,
    hpassed.cons ho⟩

/-- The next transaction has been gone through. -/
theorem Place.next {tx : HorizonTransactionRecord} (h : Place last transactions (tx :: rest) L)
    (hmarked : last < tx.ledger → Marked tx L) : Place last transactions rest L := by
  obtain ⟨hlast, hfetched, before, htxs, hpassed⟩ := h
  refine ⟨hlast, hfetched, before ++ [tx], by simpa using htxs, fun t ht hlt => ?_⟩
  rcases List.mem_append.mp ht with ht | ht
  · exact hpassed t ht hlt
  · obtain rfl := List.mem_singleton.mp ht
    exact hmarked (hlast ▸ hlt)

theorem Place.mem {tx : HorizonTransactionRecord} (h : Place last transactions (tx :: rest) L) :
    tx ∈ fetched L := by
  obtain ⟨-, hfetched, before, htxs, -⟩ := h
  rw [hfetched, htxs]
  exact List.mem_append_right before List.mem_cons_self

/-- The checkpoint may move to the ledger of a transaction that is marked. -/
theorem Place.allowed {tx : HorizonTransactionRecord} (h : Place last transactions (tx :: rest) L)
    (hlt : last < tx.ledger) (hmarked : Marked tx L) :
    Polling cfg L (.write (.setLedger tx.ledger)) := by
  obtain ⟨hlast, hfetched, before, htxs, hpassed⟩ := h
  exact ⟨before, tx, rest, hfetched.trans htxs, rfl, hlast ▸ hlt, hmarked, hpassed⟩

/-- While the handlers run, the place in the loop is kept. -/
theorem admits_handles (L₀ : Log Op.Ret) :
    Admits (Polling cfg) Op.Handles fun L => Place last transactions rest L ∧ L₀ <:+ L where
  allowed L o _ ho := by
    cases o with
    | base o => exact ho
    | write x =>
      cases x with
      | setLedger _ | setProcessed _ => exact ho.elim
      | _ => trivial
    | _ => exact ho.elim
  kept L o r h ho := by
    refine ⟨h.1.cons ?_, h.2.trans (List.suffix_cons _ L)⟩
    cases o with
    | getLedger | fetch endpoint cursor => exact ho.elim
    | _ => rfl

/-- **A transaction**: the poll marks it, and moves the checkpoint to its ledger. -/
theorem obeys_processTransaction {tx : HorizonTransactionRecord} {L : Log Op.Ret}
    (h : Place last transactions (tx :: rest) L) :
    Obeys (Polling cfg) (processTransaction cfg last tx) (fun _ _ => Place last transactions rest)
      (fun _ _ _ => True) () L := by
  refine .ite (fun hskip => .pure (h.next fun hlt => ?_)) fun hnew => ?_
  · rcases hskip with h₀ | hle
    · omega
    · omega
  have hlt : last < tx.ledger := by omega
  -- once the transaction is marked, the checkpoint is moved
  have hmoved : ∀ {L}, Place last transactions (tx :: rest) L → Marked tx L →
      Obeys (Polling cfg) (setLastProcessedLedger tx.ledger)
        (fun _ _ => Place last transactions rest) (fun _ _ _ => True) () L := by
    intro L h hmarked
    refine .call (h.allowed hlt hmarked) fun a => ?_
    have hplace : Place last transactions rest (⟨.write (.setLedger tx.ledger), a⟩ :: L) :=
      (h.next fun _ => hmarked).cons rfl
    rcases a with ⟨effective, e | u⟩
    · trivial
    · exact hplace
  have hmark : ∀ {L}, Place last transactions (tx :: rest) L →
      (tx.successful = true → Handled cfg tx L ∨ Failed cfg tx L) →
      Obeys (Polling cfg) (markProcessed tx.hash >>= fun _ => setLastProcessedLedger tx.ledger)
        (fun _ _ => Place last transactions rest) (fun _ _ _ => True) () L := by
    intro L h hdone
    refine .bind (.ite (fun hempty => .pure (hmoved h (.inl hempty))) fun _ => ?_)
    refine .call ⟨tx, h.mem, rfl, hdone⟩ fun a => ?_
    rcases a with ⟨effective, e | u⟩
    · trivial
    · exact hmoved (h.cons rfl) (.inr (.inr ⟨_, rfl, List.mem_cons_self⟩))
  have hasked : ∀ {L}, Place last transactions (tx :: rest) L →
      Obeys (Polling cfg) (if !tx.successful then
          markProcessed tx.hash >>= fun _ => setLastProcessedLedger tx.ledger
        else
          tryCatch (applyEvents cfg tx) (fun _ => Routine.perform (Op.logFailure tx.hash)) >>= fun _ =>
            markProcessed tx.hash >>= fun _ => setLastProcessedLedger tx.ledger)
        (fun _ _ => Place last transactions rest) (fun _ _ _ => True) () L := by
    intro L h
    refine .ite (fun hfailed => hmark h fun hs => ?_) fun _ => ?_
    · rw [hs] at hfailed
      cases hfailed
    refine .bind (.tryCatch ((Obeys.ends (admits_handles L) (performs_applyEvents cfg tx)
      ⟨h, List.suffix_refl L⟩).mono (fun _ _ L' h' => ?_) fun e _ L' h' => ?_))
    · exact hmark h'.2.1 fun _ => .inl ⟨L, L', h'.1, List.suffix_refl L'⟩
    · refine .perform trivial fun _ => hmark (h'.2.1.cons rfl) fun _ => ?_
      exact .inr ⟨e, L, L', h'.1, List.suffix_refl _⟩
  refine .bind (.ite (fun hempty => .pure ?_) fun _ => .call trivial fun r => ?_)
  · exact .ite (fun hfalse => by cases hfalse) fun _ => hasked h
  · rcases r with e | processed
    · trivial
    refine .ite (fun hprocessed => ?_) fun _ => hasked (h.cons rfl)
    subst hprocessed
    exact hmoved (h.cons rfl) (.inr (.inl List.mem_cons_self))

theorem obeys_fetchFrom {endpoints : List Endpoint} {L : Log Op.Ret} (hlast : lastRead L = last)
    (hnone : fetched L = []) :
    Obeys (Polling cfg) (fetchFrom (cursorOf last) endpoints)
      (fun transactions _ => Place last transactions transactions) (fun _ _ _ => True) () L := by
  induction endpoints generalizing L with
  | nil => exact .pure ⟨hlast, hnone, [], rfl, by simp [Passed]⟩
  | cons endpoint endpoints ih =>
    refine .bind (.call ⟨hnone, hlast ▸ rfl⟩ fun r => ?_)
    rcases r with e | response
    · trivial
    cases response with
    | records transactions => exact .pure ⟨hlast, rfl, [], rfl, by simp [Passed]⟩
    | status code => exact .ite (fun _ => ih hlast hnone) fun _ => .throw trivial

/-- **`pollNow`** keeps to the discipline. -/
theorem obeys_pollNow (hnone : fetched L = []) :
    Obeys (Polling cfg) (pollNow cfg) Anyhow Anyhow () L := by
  refine .ite (fun _ => .pure trivial) fun _ => ?_
  refine .bind (.bind (.call hnone fun r => ?_))
  rcases r with e | raw
  · trivial
  have hlast : lastRead (⟨.getLedger, .ok raw⟩ :: L) = raw.getD 0 := rfl
  have hnone' : fetched (⟨.getLedger, .ok raw⟩ :: L) = [] := hnone
  refine .pure (.bind ((obeys_fetchFrom hlast hnone').mono (fun transactions _ L h => ?_)
    fun _ _ _ h => h))
  exact (Obeys.forEach (J := fun rest _ => Place (raw.getD 0) transactions rest)
    (fun _ _ _ _ h => obeys_processTransaction h) h).mono (fun _ _ _ _ => trivial) fun _ _ _ h => h

variable (cfg) in
/-- **Every poll keeps to the discipline.** -/
theorem follows_body (c : Call) :
    Follows (Polling cfg) (fun _ _ => True) ((system cfg).body c) [] := by
  suffices hobeys : Obeys (Polling cfg) (c.body cfg) Anyhow Anyhow () [] from
    hobeys.follows.bind fun _ _ _ => trivial
  cases c with
  | pollNow => exact obeys_pollNow rfl
  | pollTick i =>
    refine .bind (.perform trivial fun (due : Bool) => .ite (fun _ => ?_) fun _ => .pure trivial)
    exact .tryCatch ((obeys_pollNow rfl).mono (fun _ _ _ _ => trivial) fun _ _ _ _ => .pure trivial)
  | startPolling i | stopPolling i => exact .perform trivial fun _ => trivial

end

end Ahjoor.EventListener
