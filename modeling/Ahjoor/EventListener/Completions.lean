import Ahjoor.Async.Moments
import Ahjoor.EventListener.Losses

/-!
# A round is completed once

Asking for a mark, applying the events and marking are three steps. In **every** run a group's round grows
by at most one for each `RoundCompleted` event of a transaction, each time that a poll has found the
transaction not processed (`currentRound_le`). When polls come one after another and a poll marks what it
has begun, no transaction is found so twice, and unless a failure is logged the round has grown by
exactly the number of events (`currentRound_eq`).
-/

namespace Ahjoor.EventListener

open Async

/-! ### The rounds that a transaction completes -/

section

variable (cfg : Config)

/-- The group whose round an event completes. -/
def completedBy (event : ParsedDiagnosticEvent) : Option Uuid :=
  match event.name with
  | .contributionReceived => none
  | .roundCompleted => (readString event.payload ["groupId", "group_id"]).bind fun group =>
      (cfg.sdk.uuid group).toOption

/-- The groups whose rounds a transaction completes, one for each event. -/
def completions (tx : HorizonTransactionRecord) : List Uuid :=
  if tx.successful then
    ((parseDiagnosticEvents cfg.sdk tx.resultMetaXdr).toOption.getD []).filterMap (completedBy cfg)
  else []

end

/-! ### What a poll has begun -/

/-- The transaction that a poll has been told is not processed. -/
def begins (L : Log Op.Ret) : Entry Op.Ret → Option HorizonTransactionRecord
  | ⟨.getProcessed hash, .ok false⟩ => (fetched L).find? (·.hash = hash)
  | _ => none

/-- The transactions that a poll has begun, the last one first. -/
def begunIn : Log Op.Ret → List HorizonTransactionRecord
  | [] => []
  | e :: L => (begins L e).toList ++ begunIn L

/-- The hash of the transaction that the poll has begun and not marked yet. -/
def inHand : Log Op.Ret → Option String
  | [] => none
  | ⟨.getProcessed hash, .ok false⟩ :: _ => some hash
  | ⟨.write (.setProcessed _), _⟩ :: _ => none
  | _ :: L => inHand L

/-- Whether an entry completes a round of the group. -/
def increments (groupId : Uuid) : Entry Op.Ret → ℕ
  | ⟨.write (.increment id), a⟩ => if Ack.effective a ∧ id = groupId then 1 else 0
  | _ => 0

theorem increments_le_one (groupId : Uuid) (e : Entry Op.Ret) : increments groupId e ≤ 1 := by
  unfold increments
  split
  · split_ifs <;> omega
  · omega

/-- The rounds of the group that a call has completed. -/
abbrev tally (groupId : Uuid) : Log Op.Ret → ℕ := weight fun _ => increments groupId

/-- The rounds that the transactions complete that the call has begun. -/
abbrev budget (cfg : Config) (groupId : Uuid) : Log Op.Ret → ℕ :=
  weight fun L e => ((begins L e).map fun tx => (completions cfg tx).count groupId).getD 0

/-- Nothing has failed: no failure is logged, and what is answered has taken effect. -/
def Clean (L : Log Op.Ret) : Prop := ∀ e ∈ L,
  match e with
  | ⟨.logFailure _, _⟩ => False
  | ⟨.write (.increment _), a⟩ => Ack.answer a = .ok () → Ack.effective a = true
  | _ => True

/-! ### Counting as a discipline -/

/-- The transactions have hashes, and different ones. -/
def Regular (transactions : List HorizonTransactionRecord) : Prop :=
  (∀ tx ∈ transactions, tx.hash ≠ "") ∧
    ∀ tx ∈ transactions, ∀ t ∈ transactions, tx.hash = t.hash → tx = t

/-- What a poll may do next: it asks for a mark when it has nothing in hand and has marked all that it has
begun, completes no more rounds than the transactions that it has begun, and marks the transaction in
hand. -/
def Counting (cfg : Config) (L : Log Op.Ret) (o : Op) : Prop :=
  Regular (fetched L) →
    match o with
    | .getProcessed hash => inHand L = none ∧ (∃ tx ∈ fetched L, tx.hash = hash) ∧
        ∀ tx ∈ begunIn L, Marked tx L
    | .write (.increment groupId) => inHand L ≠ none ∧ tally groupId L < budget cfg groupId L
    | .write (.setProcessed hash) => inHand L = some hash ∧
        (Clean L → ∀ groupId, tally groupId L = budget cfg groupId L)
    | _ => True

/-- The operation bears on what is counted. -/
def Op.counts : Op → Bool
  | .getProcessed _ | .write (.increment _) | .write (.setProcessed _) | .logFailure _ => true
  | _ => false

section

variable {cfg : Config} {txs : List HorizonTransactionRecord} {hash? : Option String}
  {rest : List Uuid} {L : Log Op.Ret} {o : Op} {r : o.Ret}

theorem inHand_cons (ho : o.counts = false) : inHand (⟨o, r⟩ :: L) = inHand L := by
  cases o with
  | write x =>
    cases x with
    | increment _ | setProcessed _ => cases ho
    | _ => rfl
  | getProcessed _ | logFailure _ => cases ho
  | _ => rfl

/-- What is in hand after an entry. -/
theorem inHand_cases {e : Entry Op.Ret} {hash : String} (h : inHand (e :: L) = some hash) :
    e = ⟨.getProcessed hash, .ok false⟩ ∨ inHand L = some hash := by
  obtain ⟨o, r⟩ := e
  cases o with
  | getProcessed hash' =>
    rcases r with e | _ | _
    · exact .inr h
    · obtain rfl := Option.some.inj h
      exact .inl rfl
    · exact .inr h
  | write x =>
    cases x with
    | setProcessed _ => cases h
    | _ => exact .inr h
  | _ => exact .inr h

theorem tally_cons (ho : o.counts = false) (groupId : Uuid) :
    tally groupId (⟨o, r⟩ :: L) = tally groupId L := by
  cases o with
  | write x =>
    cases x with
    | increment _ | setProcessed _ => cases ho
    | _ => exact Nat.zero_add _
  | getProcessed _ | logFailure _ => cases ho
  | _ => exact Nat.zero_add _

theorem budget_cons (ho : o.counts = false) (groupId : Uuid) :
    budget cfg groupId (⟨o, r⟩ :: L) = budget cfg groupId L := by
  cases o with
  | getProcessed _ => cases ho
  | _ => exact Nat.zero_add _

theorem begunIn_cons (ho : o.counts = false) : begunIn (⟨o, r⟩ :: L) = begunIn L := by
  cases o with
  | getProcessed _ => cases ho
  | _ => rfl

theorem Clean.tail {e : Entry Op.Ret} (h : Clean (e :: L)) : Clean L := fun e' he' =>
  h e' (List.mem_cons_of_mem e he')

/-- What is counted so far: with `hash?` in hand, of which the completions `rest` are still to come. -/
structure Counted (cfg : Config) (hash? : Option String) (rest : List Uuid) (L : Log Op.Ret) : Prop where
  inHand : inHand L = hash?
  marked : ∀ tx ∈ begunIn L, hash? = some tx.hash ∨ Marked tx L
  le : ∀ groupId, tally groupId L + rest.count groupId ≤ budget cfg groupId L
  eq : Clean L → ∀ groupId, tally groupId L + rest.count groupId = budget cfg groupId L

/-- The same for the transactions that a poll has fetched, if these are regular. -/
structure Tallied (cfg : Config) (txs : List HorizonTransactionRecord) (hash? : Option String)
    (rest : List Uuid) (L : Log Op.Ret) : Prop where
  fetched : fetched L = txs
  counted : Regular txs → Counted cfg hash? rest L

/-- The same after an exception: what has not been completed is given up. -/
structure Broken (cfg : Config) (txs : List HorizonTransactionRecord) (hash? : Option String)
    (L : Log Op.Ret) : Prop where
  fetched : fetched L = txs
  inHand : Regular txs → inHand L = hash?
  marked : Regular txs → ∀ tx ∈ begunIn L, hash? = some tx.hash ∨ Marked tx L
  le : Regular txs → ∀ groupId, tally groupId L ≤ budget cfg groupId L

theorem Tallied.broken (h : Tallied cfg txs hash? rest L) : Broken cfg txs hash? L where
  fetched := h.fetched
  inHand hreg := (h.counted hreg).inHand
  marked hreg := (h.counted hreg).marked
  le hreg groupId := (Nat.le_add_right _ _).trans ((h.counted hreg).le groupId)

/-- Where a transaction has no hash, nothing is counted. -/
theorem Tallied.of_empty (h : EventListener.fetched L = txs) {tx : HorizonTransactionRecord} (htx : tx ∈ txs)
    (hempty : tx.hash = "") : Tallied cfg txs hash? rest L :=
  ⟨h, fun hreg => absurd hempty (hreg.1 tx htx)⟩

/-- What has been begun is still marked, or in hand. -/
theorem marked_cons {e : Entry Op.Ret} (h : ∀ tx ∈ begunIn L, hash? = some tx.hash ∨ Marked tx L) :
    ∀ tx ∈ begunIn L, hash? = some tx.hash ∨ Marked tx (e :: L) := fun tx htx =>
  (h tx htx).imp_right fun hm => hm.mono (List.suffix_cons e L)

/-- An operation that bears on nothing. -/
theorem Counted.cons (h : Counted cfg hash? rest L) (ho : o.counts = false) :
    Counted cfg hash? rest (⟨o, r⟩ :: L) := by
  refine ⟨(inHand_cons ho).trans h.inHand, ?_, fun groupId => ?_, fun hclean groupId => ?_⟩
  · rw [begunIn_cons ho]
    exact marked_cons h.marked
  · rw [tally_cons ho, budget_cons ho]
    exact h.le groupId
  · rw [tally_cons ho, budget_cons ho]
    exact h.eq hclean.tail groupId

theorem Tallied.cons (h : Tallied cfg txs hash? rest L) (ho : o.counts = false)
    (hview : o.keepsView = true) : Tallied cfg txs hash? rest (⟨o, r⟩ :: L) where
  fetched := (fetched_cons hview L).trans h.fetched
  counted hreg := (h.counted hreg).cons ho

/-- The poll is told that the transaction is not processed. -/
theorem Tallied.begin {tx : HorizonTransactionRecord} (h : Tallied cfg txs none [] L) (htx : tx ∈ txs) :
    Tallied cfg txs (some tx.hash) (completions cfg tx) (⟨.getProcessed tx.hash, .ok false⟩ :: L) where
  fetched := h.fetched
  counted hreg := by
    obtain ⟨-, hmarked, hle, heq⟩ := h.counted hreg
    have hfound : (EventListener.fetched L).find? (·.hash = tx.hash) = some tx := by
      rw [h.fetched]
      obtain ⟨t, ht⟩ := Option.isSome_iff_exists.mp
        (List.find?_isSome (p := fun t => decide (t.hash = tx.hash)).mpr ⟨tx, htx, by simp⟩)
      rw [ht, hreg.2 t (List.mem_of_find?_eq_some ht) tx htx (by simpa using List.find?_some ht)]
    have hbudget : ∀ groupId, budget cfg groupId (⟨.getProcessed tx.hash, .ok false⟩ :: L) =
        (completions cfg tx).count groupId + budget cfg groupId L := by
      intro groupId
      rw [budget, weight, begins, hfound]
      rfl
    have htally : ∀ groupId, tally groupId (⟨.getProcessed tx.hash, .ok false⟩ :: L) = tally groupId L :=
      fun groupId => Nat.zero_add _
    refine ⟨rfl, fun t ht => ?_, fun groupId => ?_, fun hclean groupId => ?_⟩
    · rw [begunIn, begins, hfound, Option.toList_some, List.singleton_append] at ht
      rcases List.mem_cons.mp ht with rfl | ht
      · exact .inl rfl
      · exact .inr (((hmarked t ht).resolve_left fun h => by cases h).mono (List.suffix_cons _ L))
    · have hold := hle groupId
      rw [List.count_nil, Nat.add_zero] at hold
      rw [htally, hbudget]
      omega
    · have hold := heq hclean.tail groupId
      rw [List.count_nil, Nat.add_zero] at hold
      rw [htally, hbudget]
      omega

/-- The poll is told that the transaction is processed. -/
theorem Tallied.told {hash : String} (h : Tallied cfg txs none [] L) :
    Tallied cfg txs none [] (⟨.getProcessed hash, .ok true⟩ :: L) where
  fetched := h.fetched
  counted hreg := by
    obtain ⟨hhand, hmarked, hle, heq⟩ := h.counted hreg
    have hbudget : ∀ groupId, budget cfg groupId (⟨.getProcessed hash, .ok true⟩ :: L) =
        budget cfg groupId L := fun groupId => Nat.zero_add _
    have htally : ∀ groupId, tally groupId (⟨.getProcessed hash, .ok true⟩ :: L) = tally groupId L :=
      fun groupId => Nat.zero_add _
    refine ⟨hhand, marked_cons hmarked, fun groupId => ?_, fun hclean groupId => ?_⟩
    · rw [htally, hbudget]
      exact hle groupId
    · rw [htally, hbudget]
      exact heq hclean.tail groupId

theorem tally_increment (groupId id : Uuid) (a : Ack) :
    tally groupId (⟨.write (.increment id), a⟩ :: L) =
      (if a.effective = true ∧ id = groupId then 1 else 0) + tally groupId L := rfl

theorem budget_increment (groupId id : Uuid) (a : Ack) :
    budget cfg groupId (⟨.write (.increment id), a⟩ :: L) = budget cfg groupId L := Nat.zero_add _

/-- A round is completed. -/
theorem Tallied.increment {id : Uuid} {a : Ack} (h : Tallied cfg txs hash? (id :: rest) L)
    (ha : a.answer = .ok ()) : Tallied cfg txs hash? rest (⟨.write (.increment id), a⟩ :: L) where
  fetched := h.fetched
  counted hreg := by
    obtain ⟨hhand, hmarked, hle, heq⟩ := h.counted hreg
    refine ⟨hhand, marked_cons hmarked, fun groupId => ?_, fun hclean groupId => ?_⟩
    · have hold := hle groupId
      rw [List.count_cons] at hold
      rw [tally_increment, budget_increment]
      split_ifs at hold ⊢ <;> simp_all <;> omega
    · have hold := heq hclean.tail groupId
      have heffective : a.effective = true := hclean _ List.mem_cons_self ha
      rw [List.count_cons] at hold
      rw [tally_increment, budget_increment, heffective]
      split_ifs at hold ⊢ <;> simp_all
      omega

/-- Perhaps a round is completed. -/
theorem Tallied.increment_broken {id : Uuid} {a : Ack} (h : Tallied cfg txs hash? (id :: rest) L) :
    Broken cfg txs hash? (⟨.write (.increment id), a⟩ :: L) where
  fetched := h.fetched
  inHand hreg := (h.counted hreg).inHand
  marked hreg := marked_cons (h.counted hreg).marked
  le hreg groupId := by
    have hold := (h.counted hreg).le groupId
    rw [List.count_cons] at hold
    rw [tally_increment, budget_increment]
    split_ifs at hold ⊢ <;> simp_all <;> omega

/-- What is thrown is logged. -/
theorem Broken.logged {hash : String} (h : Broken cfg txs hash? L) :
    Tallied cfg txs hash? [] (⟨.logFailure hash, ()⟩ :: L) where
  fetched := h.fetched
  counted hreg := by
    refine ⟨h.inHand hreg, marked_cons (h.marked hreg), fun groupId => ?_, fun hclean => (hclean _ List.mem_cons_self).elim⟩
    have htally : tally groupId (⟨.logFailure hash, ()⟩ :: L) = tally groupId L := Nat.zero_add _
    have hbudget : budget cfg groupId (⟨.logFailure hash, ()⟩ :: L) = budget cfg groupId L :=
      Nat.zero_add _
    rw [htally, hbudget]
    exact h.le hreg groupId

/-- The transaction in hand is marked. -/
theorem Tallied.mark {hash : String} {a : Ack} (h : Tallied cfg txs (some hash) [] L)
    (ha : a.answer = .ok ()) : Tallied cfg txs none [] (⟨.write (.setProcessed hash), a⟩ :: L) where
  fetched := h.fetched
  counted hreg := by
    obtain ⟨-, hmarked, hle, heq⟩ := h.counted hreg
    have hbudget : ∀ groupId, budget cfg groupId (⟨.write (.setProcessed hash), a⟩ :: L) =
        budget cfg groupId L := fun groupId => Nat.zero_add _
    have htally : ∀ groupId, tally groupId (⟨.write (.setProcessed hash), a⟩ :: L) = tally groupId L :=
      fun groupId => Nat.zero_add _
    refine ⟨rfl, fun t ht => .inr ?_, fun groupId => ?_, fun hclean groupId => ?_⟩
    · rcases marked_cons hmarked t ht with hsome | hold
      · obtain rfl := Option.some.inj hsome
        exact .inr (.inr ⟨a, ha, List.mem_cons_self⟩)
      · exact hold
    · rw [htally, hbudget]
      exact hle groupId
    · rw [htally, hbudget]
      exact heq hclean.tail groupId

/-! ### The loop -/

/-- Recording bears on nothing that is counted. -/
theorem admits_records (cfg : Config) (txs : List HorizonTransactionRecord) (hash? : Option String)
    (rest : List Uuid) : Admits (Counting cfg) Op.Records (Tallied cfg txs hash? rest) where
  allowed L o _ ho := by
    cases o with
    | base o => exact fun _ => trivial
    | write x =>
      cases x with
      | updateHasReceived sel => exact fun _ => trivial
      | _ => exact ho.elim
    | _ => exact ho.elim
  kept L o r h ho := by
    cases o with
    | base o => exact h.cons rfl rfl
    | write x =>
      cases x with
      | updateHasReceived sel => exact h.cons rfl rfl
      | _ => exact ho.elim
    | _ => exact ho.elim

theorem Obeys.evaluate {α : Type} {D : Log Op.Ret → Op → Prop} {x : Except Exc α}
    {Q : α → Unit → Log Op.Ret → Prop} {X : Exc → Unit → Log Op.Ret → Prop}
    (hok : ∀ a, x = .ok a → Q a () L) (herror : ∀ e, x = .error e → X e () L) :
    Obeys D (EventListener.evaluate x) Q X () L := by
  cases x with
  | ok a => exact .pure (hok a rfl)
  | error e => exact .throw (herror e rfl)

/-- **An event** completes at most its round, and exactly this unless it throws. -/
theorem obeys_handleParsedEvent (tx : HorizonTransactionRecord) (event : ParsedDiagnosticEvent)
    {hash : String} (h : Tallied cfg txs (some hash) ((completedBy cfg event).toList ++ rest) L) :
    Obeys (Counting cfg) (handleParsedEvent cfg tx event)
      (fun _ _ => Tallied cfg txs (some hash) rest) (fun _ _ => Broken cfg txs (some hash)) () L := by
  unfold handleParsedEvent
  unfold completedBy at h
  rcases event with ⟨_ | _, payload⟩
  · exact (Obeys.of_performs (admits_records cfg txs (some hash) rest)
      (performs_handleContributionReceived cfg payload tx) h).mono (fun _ _ _ h => h)
      fun _ _ _ h => h.broken
  · dsimp only at h ⊢
    unfold handleRoundCompleted
    rcases hgroup : readString payload ["groupId", "group_id"] with _ | group
    · rw [hgroup] at h
      exact .pure h
    · rw [hgroup] at h
      refine .bind (Obeys.evaluate (fun groupId hid => ?_) fun e _ => h.broken)
      replace h : Tallied cfg txs (some hash) (groupId :: rest) L := by simpa [hid, Except.toOption] using h
      refine .bind (.call (fun hreg => ?_) fun a => ?_)
      · rw [h.fetched] at hreg
        have hcounted := h.counted hreg
        have hle := hcounted.le groupId
        rw [List.count_cons_self] at hle
        exact ⟨by simp [hcounted.inHand], by omega⟩
      · rcases ha : a.answer with e | u
        · exact h.increment_broken
        · exact (Obeys.of_performs (admits_records cfg txs (some hash) rest)
            (performs_afterIncrement cfg groupId payload) (h.increment ha)).mono (fun _ _ _ h => h)
            fun _ _ _ h => h.broken

/-- **A transaction** completes at most its rounds. -/
theorem obeys_applyEvents {tx : HorizonTransactionRecord} (hsucc : tx.successful = true)
    (h : Tallied cfg txs (some tx.hash) (completions cfg tx) L) :
    Obeys (Counting cfg) (applyEvents cfg tx) (fun _ _ => Tallied cfg txs (some tx.hash) [])
      (fun _ _ => Broken cfg txs (some tx.hash)) () L := by
  refine .bind (Obeys.evaluate (fun events hevents => ?_) fun e _ => h.broken)
  have hrest : completions cfg tx = events.filterMap (completedBy cfg) := by
    rw [completions, if_pos hsucc, hevents]
    rfl
  rw [hrest] at h
  refine .forEach (J := fun events _ => Tallied cfg txs (some tx.hash)
    (events.filterMap (completedBy cfg))) (fun event events _ L h => ?_) h
  refine obeys_handleParsedEvent tx event ?_
  rcases hcompleted : completedBy cfg event with _ | groupId
  · rwa [List.filterMap_cons_none hcompleted] at h
  · rwa [List.filterMap_cons_some hcompleted] at h

theorem obeys_processTransaction_counting {last : ℕ} {tx : HorizonTransactionRecord} {L : Log Op.Ret}
    (h : Tallied cfg txs none [] L) (htx : tx ∈ txs) :
    Obeys (Counting cfg) (processTransaction cfg last tx) (fun _ _ => Tallied cfg txs none [])
      (fun _ _ _ => True) () L := by
  refine .ite (fun _ => .pure h) fun _ => ?_
  have hmoved : ∀ {L}, Tallied cfg txs none [] L → Obeys (Counting cfg) (setLastProcessedLedger tx.ledger)
      (fun _ _ => Tallied cfg txs none []) (fun _ _ _ => True) () L := by
    intro L h
    refine .call (fun _ => trivial) fun a => ?_
    have hnext : Tallied cfg txs none [] (⟨.write (.setLedger tx.ledger), a⟩ :: L) := h.cons rfl rfl
    rcases a with ⟨effective, e | u⟩
    · trivial
    · exact hnext
  have hmark : ∀ {L}, Tallied cfg txs (some tx.hash) [] L →
      Obeys (Counting cfg) (markProcessed tx.hash >>= fun _ => setLastProcessedLedger tx.ledger)
        (fun _ _ => Tallied cfg txs none []) (fun _ _ _ => True) () L := by
    intro L h
    refine .bind (.ite (fun hempty => .pure (hmoved (.of_empty h.fetched htx hempty))) fun _ =>
      .call (fun hreg => ?_) fun a => ?_)
    · rw [h.fetched] at hreg
      obtain ⟨hhand, -, -, heq⟩ := h.counted hreg
      exact ⟨hhand, fun hclean groupId => by simpa using heq hclean groupId⟩
    · rcases a with ⟨effective, e | u⟩
      · trivial
      · exact hmoved (h.mark rfl)
  have hbegun : ∀ {L}, Tallied cfg txs (some tx.hash) (completions cfg tx) L →
      Obeys (Counting cfg) (if !tx.successful then
          markProcessed tx.hash >>= fun _ => setLastProcessedLedger tx.ledger
        else
          tryCatch (applyEvents cfg tx) (fun _ => Routine.perform (Op.logFailure tx.hash)) >>= fun _ =>
            markProcessed tx.hash >>= fun _ => setLastProcessedLedger tx.ledger)
        (fun _ _ => Tallied cfg txs none []) (fun _ _ _ => True) () L := by
    intro L h
    refine .ite (fun hfailed => hmark ?_) fun hsucc => ?_
    · rwa [completions, if_neg (by simpa using hfailed)] at h
    · refine .bind (.tryCatch ((obeys_applyEvents (by simpa using hsucc) h).mono
        (fun _ _ _ h => hmark h) fun _ _ _ h => ?_))
      exact .perform (fun _ => trivial) fun _ => hmark h.logged
  refine .bind (.ite (fun hempty => .pure ?_) fun _ => .call (fun hreg => ?_) fun r => ?_)
  · exact .ite (fun hfalse => by cases hfalse) fun _ => hbegun (.of_empty h.fetched htx hempty)
  · rw [h.fetched] at hreg ⊢
    have hcounted := h.counted hreg
    refine ⟨hcounted.inHand, ⟨tx, htx, rfl⟩, fun t ht => ?_⟩
    exact (hcounted.marked t ht).resolve_left fun h => by cases h
  · rcases r with e | processed
    · trivial
    cases processed with
    | true => exact hmoved h.told
    | false => exact hbegun (h.begin htx)

theorem obeys_fetchFrom_counting {cursor : Option ℕ} {endpoints : List Endpoint} {L : Log Op.Ret}
    (h : Counted cfg none [] L) (hnone : fetched L = []) :
    Obeys (Counting cfg) (fetchFrom cursor endpoints)
      (fun transactions _ => Tallied cfg transactions none []) (fun _ _ _ => True) () L := by
  induction endpoints generalizing L with
  | nil => exact .pure ⟨hnone, fun _ => h⟩
  | cons endpoint endpoints ih =>
    refine .bind (.call (fun _ => trivial) fun r => ?_)
    rcases r with e | response
    · trivial
    cases response with
    | records transactions => exact .pure ⟨rfl, fun _ => h.cons rfl⟩
    | status code => exact .ite (fun _ => ih (h.cons rfl) hnone) fun _ => .throw trivial

theorem obeys_pollNow_counting {L : Log Op.Ret} (h : Counted cfg none [] L) (hnone : fetched L = []) :
    Obeys (Counting cfg) (pollNow cfg) Anyhow Anyhow () L := by
  refine .ite (fun _ => .pure trivial) fun _ => ?_
  refine .bind (.bind (.call (fun _ => trivial) fun r => ?_))
  rcases r with e | raw
  · trivial
  have hnone' : fetched (⟨.getLedger, .ok raw⟩ :: L) = [] := hnone
  refine .pure (.bind ((obeys_fetchFrom_counting (h.cons rfl) hnone').mono (fun txs _ L h => ?_)
    fun _ _ _ h => h))
  refine (Obeys.forEach (J := fun rest _ L => Tallied cfg txs none [] L ∧ ∀ tx ∈ rest, tx ∈ txs)
    (fun tx rest _ L h => ?_) ⟨h, fun _ h => h⟩).mono (fun _ _ _ _ => trivial) fun _ _ _ h => h
  exact (obeys_processTransaction_counting h.1 (h.2 tx List.mem_cons_self)).mono
    (fun _ _ _ h' => ⟨h', fun t ht => h.2 t (List.mem_cons_of_mem tx ht)⟩) fun _ _ _ h => h

variable (cfg) in
theorem follows_body_counting (c : Call) :
    Follows (Counting cfg) (fun _ _ => True) ((system cfg).body c) [] := by
  suffices hobeys : Obeys (Counting cfg) (c.body cfg) Anyhow Anyhow () [] from
    hobeys.follows.bind fun _ _ _ => trivial
  have hnil : Counted cfg none [] [] := ⟨rfl, by simp [begunIn], fun _ => le_rfl, fun _ _ => rfl⟩
  cases c with
  | pollNow => exact obeys_pollNow_counting hnil rfl
  | pollTick i =>
    refine .bind (.perform (fun _ => trivial) fun (due : Bool) => .ite (fun _ => ?_) fun _ => .pure trivial)
    exact .tryCatch ((obeys_pollNow_counting (hnil.cons rfl) rfl).mono (fun _ _ _ _ => trivial)
      fun _ _ _ _ => .pure trivial)
  | startPolling i | stopPolling i => exact .perform (fun _ => trivial) fun _ => trivial

variable (cfg) in
/-- **Every poll keeps to both disciplines.** -/
theorem follows_both (c : Call) :
    Follows (fun L o => Polling cfg L o ∧ Counting cfg L o) (fun _ _ => True) ((system cfg).body c) [] :=
  ((follows_body cfg c).and (follows_body_counting cfg c)).mono fun _ _ _ => trivial

/-! ### What the discipline says of a log -/

/-- A poll completes at most the rounds of what it has begun. -/
theorem tally_le_budget (h : Lawful (Counting cfg) L) (hreg : ∀ L', L' <:+ L → Regular (fetched L'))
    (groupId : Uuid) : tally groupId L ≤ budget cfg groupId L := by
  induction L with
  | nil => exact le_rfl
  | cons e L ih =>
    have hrest := ih h.2 fun L' hL' => hreg L' (hL'.trans (List.suffix_cons e L))
    have hallowed := h.1 (hreg L (List.suffix_cons e L))
    have hsame : increments groupId e = 0 → tally groupId (e :: L) ≤ budget cfg groupId (e :: L) := by
      intro hzero
      rw [tally, weight, hzero, Nat.zero_add]
      exact hrest.trans (Nat.le_add_left _ _)
    obtain ⟨o, r⟩ := e
    cases o with
    | write x =>
      cases x with
      | increment id =>
        by_cases hid : id = groupId
        · subst hid
          have hone := increments_le_one id ⟨.write (.increment id), r⟩
          calc tally id (⟨.write (.increment id), r⟩ :: L)
              = increments id ⟨.write (.increment id), r⟩ + tally id L := rfl
            _ ≤ budget cfg id L := by have := hallowed.2; omega
            _ ≤ budget cfg id (⟨.write (.increment id), r⟩ :: L) := Nat.le_add_left _ _
        · exact hsame (if_neg fun h => hid h.2)
      | _ => exact hsame rfl
    | _ => exact hsame rfl

/-- **Between transactions** a poll has completed exactly the rounds of what it has begun, unless
something has failed. -/
theorem tally_eq_budget (h : Lawful (Counting cfg) L) (hreg : ∀ L', L' <:+ L → Regular (fetched L'))
    (hclean : Clean L) (hhand : inHand L = none) (groupId : Uuid) :
    tally groupId L = budget cfg groupId L := by
  induction L with
  | nil => rfl
  | cons e L ih =>
    have hrest := fun hhand => ih h.2 (fun L' hL' => hreg L' (hL'.trans (List.suffix_cons e L)))
      hclean.tail hhand
    have hallowed := h.1 (hreg L (List.suffix_cons e L))
    obtain ⟨o, r⟩ := e
    by_cases ho : o.counts = true
    · cases o with
      | logFailure hash => exact (hclean _ List.mem_cons_self).elim
      | getProcessed hash =>
        rcases r with e | _ | _
        · exact (Nat.zero_add _).trans ((hrest hhand).trans (Nat.zero_add _).symm)
        · cases hhand
        · exact (Nat.zero_add _).trans ((hrest hhand).trans (Nat.zero_add _).symm)
      | write x =>
        cases x with
        | increment id => exact absurd hhand hallowed.1
        | setProcessed hash =>
          exact (Nat.zero_add _).trans ((hallowed.2 hclean.tail groupId).trans (Nat.zero_add _).symm)
        | _ => cases ho
      | _ => cases ho
    · rw [Bool.not_eq_true] at ho
      rw [tally_cons ho, budget_cons ho]
      exact hrest (inHand_cons ho ▸ hhand)

end

/-! ### The rounds in the database -/

/-- Recording a payment leaves the groups alone. -/
theorem groups_eval {q : Query} (hq : (Ahjoor.Op.db q).reportsPayment = true) (d : Database) :
    (q.eval d).2.groups = d.groups := by
  cases q with
  | findContribution sel | updateHasPaid sel paid => rfl
  | insertContribution contribution =>
    simp only [Query.eval]
    split <;> rfl
  | updateContribution id patch =>
    simp only [Query.eval]
    split
    · rfl
    · split <;> rfl
  | _ => cases hq

theorem groups_exec {o : Ahjoor.Op} {r : o.Ret} {pid : ℕ} {choice : Ahjoor.Choice}
    {w w' : Ahjoor.World} (ho : o.reportsPayment = true)
    (hexec : Ahjoor.exec o pid choice w = some (r, w')) : w'.db.groups = w.db.groups := by
  cases o with
  | db q =>
    cases choice with
    | done | lost =>
      simp only [Ahjoor.exec] at hexec
      split_ifs at hexec
      obtain ⟨-, rfl⟩ := Prod.mk.inj (Option.some.inj hexec)
      exact groups_eval ho w.db
    | fails =>
      obtain ⟨-, rfl⟩ := Prod.mk.inj (Option.some.inj hexec)
      rfl
    | _ => cases hexec
  | now =>
    cases choice with
    | time t =>
      simp only [Ahjoor.exec] at hexec
      split_ifs at hexec
      obtain ⟨-, rfl⟩ := Prod.mk.inj (Option.some.inj hexec)
      rfl
    | _ => cases hexec
  | _ => cases ho

/-- The current round of a group. -/
def World.currentRound (w : World) (groupId : Uuid) : Option ℤ :=
  (w.base.db.groups.row groupId).map Group.currentRound

theorem map_add_zero (x : Option ℤ) : x.map (· + ((0 : ℕ) : ℤ)) = x := by
  cases x <;> simp

section Exec

variable {cfg : Config} {o : Op} {r : o.Ret} {pid : ℕ} {choice : Choice} {w w' : World}

theorem currentRound_apply (x : Write) (w : World) (groupId : Uuid) :
    (w.apply x).currentRound groupId =
      (w.currentRound groupId).map (· + (increments groupId ⟨.write x, ⟨true, .ok ()⟩⟩ : ℤ)) := by
  cases x with
  | increment id =>
    unfold World.currentRound World.apply increments
    rw [Store.Table.row_modify, Option.map_map, Option.map_map]
    refine Option.map_congr fun g hg => ?_
    have hid : g.id = groupId := w.base.db.groups.id_of_row hg
    by_cases heq : id = groupId
    · subst heq
      simp [hid, Store.Entity.withId]
    · have hne : ¬ groupId = id := fun h => heq h.symm
      simp [hid, heq, hne]
  | updateHasReceived sel | setLedger ledger | setProcessed hash => exact (map_add_zero _).symm

/-- **The round of a group grows** by the increments that take effect. -/
theorem currentRound_exec (ho : ∀ b, o = .base b → b.reportsPayment = true)
    (hexec : exec cfg o pid choice w = some (r, w')) (groupId : Uuid) :
    w'.currentRound groupId = (w.currentRound groupId).map (· + (increments groupId ⟨o, r⟩ : ℤ)) := by
  have hsame : w'.base.db.groups = w.base.db.groups → increments groupId ⟨o, r⟩ = 0 →
      w'.currentRound groupId = (w.currentRound groupId).map (· + (increments groupId ⟨o, r⟩ : ℤ)) := by
    intro hgroups hzero
    rw [hzero, map_add_zero, World.currentRound, hgroups]
    rfl
  cases o with
  | base b =>
    cases choice with
    | base choice =>
      obtain ⟨⟨r', w₁⟩, hbase, heq⟩ := Option.map_eq_some_iff.mp hexec
      obtain ⟨rfl, rfl⟩ := Prod.mk.inj heq
      exact hsame (groups_exec (ho b rfl) hbase) rfl
    | _ => cases hexec
  | write x =>
    rcases exec_write hexec with ⟨heffective, rfl⟩ | ⟨hnot, -, rfl⟩
    · rw [currentRound_apply]
      cases x with
      | increment id => simp [increments, heffective]
      | _ => rfl
    · refine hsame rfl ?_
      cases x with
      | increment id => simp [increments, hnot]
      | _ => rfl
  | _ => exact hsame (by rw [(exec_keeps hexec (by simp)).2.2 (by simp)]) rfl

end Exec

/-! ### Every run -/

/-- The transactions that polls have begun, the last one first, each as often as it was begun. -/
def begun : List (Event Op.Ret World Call (Except Exc Unit)) → List HorizonTransactionRecord
  | [] => []
  | .did pid o r _ :: es => (begins (log pid es) ⟨o, r⟩).toList ++ begun es
  | .start _ _ :: es | .returned _ _ :: es | .crashed _ :: es => begun es

section Runs

variable (cfg : Config)

/-- The discipline of the calls. -/
abbrev Rules : Call → Log Op.Ret → Op → Prop := fun _ L o => Polling cfg L o ∧ Counting cfg L o

/-- How many rounds of the group the transactions complete. -/
def roundsOf (txs : List HorizonTransactionRecord) (groupId : Uuid) : ℕ :=
  (txs.map fun tx => (completions cfg tx).count groupId).sum

/-- What is counted in a run, whatever its polls do. -/
structure Tracked (w₀ : World) (h : History) : Prop where
  sound : Sound cfg h
  regular : ∀ pid L, L <:+ log pid h.trace → Regular (fetched L)
  chain : ∀ tx ∈ begun h.trace, tx ∈ cfg.ledgers.transactions tx.ledger
  rounds : ∀ groupId, h.world.currentRound groupId =
    (w₀.currentRound groupId).map (· + (total (fun _ => increments groupId) h.trace : ℤ))

variable {cfg} {h h' : History} {w₀ : World}

/-- Transactions of the chain are regular. -/
theorem regular_of_chain {txs : List HorizonTransactionRecord}
    (h : ∀ tx ∈ txs, tx ∈ cfg.ledgers.transactions tx.ledger) : Regular txs :=
  ⟨fun tx htx => cfg.ledgers.hash_ne (h tx htx), fun tx htx t ht =>
    cfg.ledgers.eq_of_hash_eq (h tx htx) (h t ht)⟩

theorem begins_mem {L : Log Op.Ret} {e : Entry Op.Ret} {tx : HorizonTransactionRecord}
    (h : begins L e = some tx) : tx ∈ fetched L := by
  unfold begins at h
  split at h
  · exact List.mem_of_find?_eq_some h
  · cases h

theorem Tracked.step (ht : Tracked cfg w₀ h) (hstep : HistStep (system cfg) (Rules cfg) h h') :
    Tracked cfg w₀ h' := by
  have hsound := ht.sound.step (hstep.weaken fun _ _ _ h => h.1)
  refine ⟨hsound, fun p L hL => ?_, ?_, fun groupId => ?_⟩
  · cases hstep with
    | idle e he _ =>
      rw [Hist.push_trace, he] at hL
      exact ht.regular p L hL
    | did pid c o choice r w _ _ _ _ =>
      by_cases hp : pid = p
      · subst hp
        rw [Hist.push_trace, log_did_self] at hL
        rcases List.suffix_cons_iff.mp hL with rfl | hL
        · have hfetched : ∀ tx ∈ fetched (log pid (h.push (.did pid o r h.world) w).trace),
              tx ∈ cfg.ledgers.transactions tx.ledger := fun tx htx => hsound.mem_transactions htx
          rw [Hist.push_trace, log_did_self] at hfetched
          exact regular_of_chain hfetched
        · exact ht.regular pid L hL
      · rw [Hist.push_trace, log_cons_of_ne (e := .did pid o r h.world) hp] at hL
        exact ht.regular p L hL
  · cases hstep with
    | idle e he _ =>
      cases e with
      | did pid o r w => exact absurd rfl (not_did_of_log he pid o r w)
      | _ => exact ht.chain
    | did pid c o choice r w _ _ _ _ =>
      intro tx htx
      rcases List.mem_append.mp htx with hnew | hold
      · exact ht.sound.mem_transactions (begins_mem (Option.mem_toList.mp hnew))
      · exact ht.chain tx hold
  · cases hstep with
    | idle e he _ =>
      cases e with
      | did pid o r w => exact absurd rfl (not_did_of_log he pid o r w)
      | _ => exact ht.rounds groupId
    | did pid c o choice r w _ hD hexec _ =>
      have hbase : ∀ b, o = .base b → b.reportsPayment = true := by
        rintro b rfl
        exact hD.1
      rw [Hist.push_world, currentRound_exec hbase hexec groupId, ht.rounds groupId, Option.map_map]
      refine Option.map_congr fun g _ => ?_
      rw [Hist.push_trace, total]
      push_cast
      exact (add_assoc ..).trans (congrArg _ (add_comm ..))

theorem total_budget (groupId : Uuid) (es : List (Event Op.Ret World Call (Except Exc Unit))) :
    total (fun L e => ((begins L e).map fun tx => (completions cfg tx).count groupId).getD 0) es =
      roundsOf cfg (begun es) groupId := by
  induction es with
  | nil => rfl
  | cons e es ih =>
    cases e with
    | did pid o r w =>
      rw [total, ih, begun, roundsOf, roundsOf, List.map_append, List.sum_append]
      rcases begins (log pid es) ⟨o, r⟩ with _ | tx
      · rfl
      · simp
    | _ => exact ih

theorem tracked_init {w : World} (hw : ∀ hash, w.processed hash = false) : Tracked cfg w ⟨w, []⟩ where
  sound := sound_init hw
  regular pid L hL := by
    obtain rfl := List.suffix_nil.mp hL
    exact ⟨by simp [fetched], by simp [fetched]⟩
  chain tx htx := by cases htx
  rounds groupId := (map_add_zero _).symm

/-- What the polls of a run complete is at most what they have begun. -/
theorem Tracked.total_le (ht : Tracked cfg w₀ h)
    (hd : Disciplined (Rules cfg) (fun _ _ _ => True) h) (groupId : Uuid) :
    total (fun _ => increments groupId) h.trace ≤ roundsOf cfg (begun h.trace) groupId := by
  rw [← total_budget]
  exact total_le_total fun pid => tally_le_budget ((hd.lawful_log pid).weaken fun _ _ h => h.2)
    (ht.regular pid) groupId

theorem tracked_of_reachable {ok : History → History → Prop} (hw : ∀ hash, w₀.processed hash = false)
    {s : PollState} (hr : (system cfg).ReachableWhen ok (.init w₀) s) : Tracked cfg w₀ s.hist :=
  hist_invariant (D := Rules cfg) (fun c => follows_both cfg c) (tracked_init hw)
    (fun _ _ _ _ hI hstep _ => hI.step hstep) hr

/-- **No round is completed without its event**, in every run of polls of any number of instances: the
round of a group grows at most by the number of `RoundCompleted` events in transactions of the chain that
polls have found not processed, each counted as often as it was found so. -/
theorem currentRound_le (cfg : Config) {w : World} (hw : ∀ hash, w.processed hash = false)
    {s : PollState} (hr : (system cfg).Reachable (.init w) s) {groupId : Uuid} {round : ℤ}
    (hround : w.currentRound groupId = some round) :
    (∀ tx ∈ begun s.hist.trace, tx ∈ cfg.ledgers.transactions tx.ledger) ∧
      ∃ now, s.hist.world.currentRound groupId = some now ∧ round ≤ now ∧
        now ≤ round + roundsOf cfg (begun s.hist.trace) groupId := by
  have ht := tracked_of_reachable hw hr
  have hd := disciplined_of_reachable (D := Rules cfg) (fun c => follows_both cfg c) hr
  have hle := ht.total_le hd groupId
  refine ⟨ht.chain, _, (ht.rounds groupId).trans (congrArg _ hround), by simp, ?_⟩
  simpa using hle

/-! ### Polls that come one after another -/

/-- A call starts only when all calls before it have ended. -/
def OneAtATime (h h' : History) : Prop :=
  match h'.trace with
  | .start _ _ :: _ => ∀ e ∈ h.trace, ∃ e' ∈ h.trace, e'.isEnd = true ∧ e'.pid = e.pid
  | _ => True

/-- A poll that ends has marked what it has begun. -/
def MarksBegun (h h' : History) : Prop :=
  match h'.trace with
  | .returned pid _ :: _ | .crashed pid :: _ =>
      ∀ tx ∈ begunIn (log pid h.trace), h.world.processed tx.hash = true
  | _ => True

/-- Polls come one after another, and mark what they have begun. -/
def InTurn (h h' : History) : Prop := OneAtATime h h' ∧ MarksBegun h h'

theorem mem_begun {tx : HorizonTransactionRecord}
    {es : List (Event Op.Ret World Call (Except Exc Unit))} {pid : ℕ}
    (h : tx ∈ begunIn (log pid es)) : tx ∈ begun es := by
  induction es with
  | nil => cases h
  | cons e es ih =>
    by_cases he : e.pid = pid
    · cases e with
      | did p o r w =>
        obtain rfl : p = pid := he
        rw [log_did_self] at h
        exact (List.mem_append.mp h).elim (fun h => List.mem_append_left _ h) fun h =>
          List.mem_append_right _ (ih h)
      | _ => exact ih h
    · rw [log_cons_of_ne he] at h
      cases e with
      | did p o r w => exact List.mem_append_right _ (ih h)
      | _ => exact ih h

/-- What is in hand has been begun. -/
theorem exists_of_inHand {L : Log Op.Ret} (h : Lawful (Counting cfg) L)
    (hreg : ∀ L', L' <:+ L → Regular (fetched L')) {hash : String} (hhand : inHand L = some hash) :
    ∃ tx ∈ begunIn L, tx.hash = hash := by
  induction L with
  | nil => cases hhand
  | cons e L ih =>
    have hrest := fun hhand => ih h.2 (fun L' hL' => hreg L' (hL'.trans (List.suffix_cons e L))) hhand
    have hlater : (∃ tx ∈ begunIn L, tx.hash = hash) → ∃ tx ∈ begunIn (e :: L), tx.hash = hash :=
      fun ⟨tx, htx, heq⟩ => ⟨tx, List.mem_append_right _ htx, heq⟩
    have hallowed := h.1 (hreg L (List.suffix_cons e L))
    obtain ⟨o, r⟩ := e
    cases o with
    | getProcessed hash' =>
      rcases r with e | _ | _
      · exact hlater (hrest hhand)
      · obtain rfl := Option.some.inj hhand
        obtain ⟨-, ⟨tx, htx, heq⟩, -⟩ := hallowed
        obtain ⟨t, ht⟩ := Option.isSome_iff_exists.mp
          (List.find?_isSome (p := fun t => decide (t.hash = hash')).mpr ⟨tx, htx, by simpa using heq⟩)
        have hbegins : begins L ⟨.getProcessed hash', .ok false⟩ = some t := ht
        refine ⟨t, ?_, by simpa using List.find?_some ht⟩
        rw [begunIn, hbegins]
        exact List.mem_cons_self
      · exact hlater (hrest hhand)
    | write x =>
      cases x with
      | setProcessed _ => cases hhand
      | _ => exact hlater (hrest hhand)
    | _ => exact hlater (hrest hhand)

variable (cfg) in
/-- What holds while polls come one after another: a transaction that is begun is marked, or in the hands
of the one poll in flight, and it is begun once. -/
structure Once (h : History) : Prop where
  alone : ∀ p q, InFlight p h.trace → InFlight q h.trace → p = q
  settled : ∀ tx ∈ begun h.trace, h.world.processed tx.hash = true ∨
    ∃ pid, InFlight pid h.trace ∧ tx ∈ begunIn (log pid h.trace)
  nodup : (begun h.trace).Nodup
  unmarked : ∀ pid hash, InFlight pid h.trace → inHand (log pid h.trace) = some hash →
    h.world.processed hash = false
  closed : ∀ pid, ¬ InFlight pid h.trace → inHand (log pid h.trace) = none
  reached : ∀ n, ∀ tx ∈ cfg.ledgers.transactions n, h.world.processed tx.hash = true →
    tx ∈ begun h.trace

theorem once_init {w : World} (hw : ∀ hash, w.processed hash = false) : Once cfg ⟨w, []⟩ where
  alone p q hp := by
    obtain ⟨⟨c, hc⟩, -⟩ := hp
    cases hc
  settled tx htx := by cases htx
  nodup := .nil
  unmarked pid hash _ hhand := by cases hhand
  closed pid _ := rfl
  reached n tx _ hp := by simp [hw] at hp

/-- **A poll starts.** -/
theorem Once.start (ho : Once cfg h) {pid : ℕ} {c : Call}
    (hlive : ∀ e' ∈ h.trace, e'.isEnd = true → e'.pid ≠ pid)
    (hended : ∀ e ∈ h.trace, ∃ e' ∈ h.trace, e'.isEnd = true ∧ e'.pid = e.pid) :
    Once cfg (h.push (.start pid c) h.world) := by
  have hnone : ∀ p, ¬ InFlight p h.trace := by
    rintro p ⟨⟨c', hc'⟩, hlive'⟩
    obtain ⟨e', he', hend, hpid⟩ := hended _ hc'
    exact hlive' e' he' hend hpid
  have hlog : log pid h.trace = [] := by
    refine log_eq_nil fun e he hpid => ?_
    obtain ⟨e', he', hend, hpid'⟩ := hended e he
    exact hlive e' he' hend (hpid'.trans hpid)
  have hnew : ∀ {p}, InFlight p (.start pid c :: h.trace) → p = pid := by
    intro p hp
    by_contra hne
    refine hnone p (hp.of_cons fun c' heq => hne ?_)
    cases heq
    rfl
  refine ⟨fun p q hp hq => (hnew hp).trans (hnew hq).symm, fun tx htx => ?_, ho.nodup,
    fun p hash hp hhand => ?_, fun p hp => ?_, ho.reached⟩
  · rcases ho.settled tx htx with hmarked | ⟨p, hp, -⟩
    · exact .inl hmarked
    · exact absurd hp (hnone p)
  · obtain rfl := hnew hp
    rw [Hist.push_trace, log_start, hlog] at hhand
    cases hhand
  · exact ho.closed p (hnone p)

/-- **A poll ends.** -/
theorem Once.finish (ho : Once cfg h) {e : Event Op.Ret World Call (Except Exc Unit)} {pid : ℕ}
    (he : e = .crashed pid ∨ ∃ x, e = .returned pid x) (hflight : InFlight pid h.trace)
    (hhand : ∀ hash, inHand (log pid h.trace) = some hash →
      ∃ tx ∈ begunIn (log pid h.trace), tx.hash = hash)
    (hmarks : ∀ tx ∈ begunIn (log pid h.trace), h.world.processed tx.hash = true) :
    Once cfg (h.push e h.world) := by
  have hpid : e.pid = pid ∧ e.isEnd = true ∧ (∀ p c, e ≠ .start p c) ∧
      begun (e :: h.trace) = begun h.trace ∧ ∀ p, log p (e :: h.trace) = log p h.trace := by
    rcases he with rfl | ⟨x, rfl⟩ <;> exact ⟨rfl, rfl, by simp, rfl, fun _ => rfl⟩
  obtain ⟨hpid, hend, hstart, hbegun, hlog⟩ := hpid
  have hold : ∀ {p}, InFlight p (e :: h.trace) → InFlight p h.trace := fun hp => hp.of_cons (hstart _)
  have hother : ∀ {p}, InFlight p h.trace → p ≠ pid → InFlight p (e :: h.trace) := fun hp hne =>
    hp.cons fun _ heq => hne (heq.symm.trans hpid)
  refine ⟨fun p q hp hq => ho.alone p q (hold hp) (hold hq), fun tx htx => ?_, ?_,
    fun p hash hp hhand' => ?_, fun p hp => ?_, fun n tx htx hp => ?_⟩
  · rw [Hist.push_trace, hbegun] at htx
    rcases ho.settled tx htx with hmarked | ⟨p, hp, hmem⟩
    · exact .inl hmarked
    · obtain rfl := ho.alone p pid hp hflight
      exact .inl (hmarks tx hmem)
  · rw [Hist.push_trace, hbegun]
    exact ho.nodup
  · rw [Hist.push_trace, hlog] at hhand'
    exact ho.unmarked p hash (hold hp) hhand'
  · rw [Hist.push_trace, hlog]
    by_cases hflight' : InFlight p h.trace
    · obtain rfl := ho.alone p pid hflight' hflight
      by_contra hne
      obtain ⟨hash, hsome⟩ := Option.ne_none_iff_exists'.mp hne
      obtain ⟨tx, htx, rfl⟩ := hhand hash hsome
      have hfalse := ho.unmarked p tx.hash hflight hsome
      rw [hmarks tx htx] at hfalse
      cases hfalse
    · exact ho.closed p hflight'
  · rw [Hist.push_trace, hbegun]
    exact ho.reached n tx htx hp

/-- **A poll in flight goes on.** -/
theorem Once.did (ho : Once cfg h) (ht : Tracked cfg w₀ h)
    (hd : Disciplined (Rules cfg) (fun _ _ _ => True) h) {pid : ℕ} {o : Op} {r : o.Ret}
    {choice : Choice} {w : World} (hflight : InFlight pid h.trace)
    (hD : Rules cfg .pollNow (log pid h.trace) o)
    (hexec : exec cfg o pid choice h.world = some (r, w)) :
    Once cfg (h.push (.did pid o r h.world) w) := by
  have hlawful := (hd.lawful_log pid).weaken fun _ _ h => h.2
  have hallowed := hD.2 (ht.regular pid _ (List.suffix_refl _))
  have hcons : ∀ {tx}, tx ∈ begunIn (log pid h.trace) →
      tx ∈ begunIn (log pid (.did pid o r h.world :: h.trace)) := by
    intro tx htx
    rw [log_did_self]
    exact List.mem_append_right _ htx
  -- a transaction that is begun was not begun before
  have hfresh : ∀ tx, begins (log pid h.trace) ⟨o, r⟩ = some tx →
      tx ∉ begun h.trace ∧ h.world.processed tx.hash = false := by
    intro tx htx
    have hasked : o = .getProcessed tx.hash ∧ h.world.processed tx.hash = false ∧
        ∀ t ∈ begunIn (log pid h.trace), Marked t (log pid h.trace) := by
      cases o with
      | getProcessed hash =>
        rcases r with e | _ | _
        · cases htx
        · obtain rfl : tx.hash = hash := by simpa using List.find?_some htx
          exact ⟨rfl, exec_getProcessed hexec, hallowed.2.2⟩
        · cases htx
      | _ => cases htx
    obtain ⟨-, hfalse, hmarked⟩ := hasked
    refine ⟨fun hmem => ?_, hfalse⟩
    have hprocessed : h.world.processed tx.hash = true := by
      rcases ho.settled tx hmem with hp | ⟨p, hp, hin⟩
      · exact hp
      · obtain rfl := ho.alone p pid hp hflight
        have hchain := ht.chain tx hmem
        exact (ht.sound.marked p tx (hmarked tx hin)).resolve_left (cfg.ledgers.hash_ne hchain)
    rw [hprocessed] at hfalse
    cases hfalse
  refine ⟨fun p q hp hq => ho.alone p q (inFlight_did.mp hp) (inFlight_did.mp hq), fun tx htx => ?_, ?_,
    fun p hash hp hhand => ?_, fun p hp => ?_, fun n tx htx hp => ?_⟩
  · rcases List.mem_append.mp htx with hnew | hold
    · refine .inr ⟨pid, inFlight_did.mpr hflight, ?_⟩
      rw [Hist.push_trace, log_did_self]
      exact List.mem_append_left _ hnew
    · rcases ho.settled tx hold with hp | ⟨p, hp, hin⟩
      · exact .inl (processed_mono hexec hp)
      · obtain rfl := ho.alone p pid hp hflight
        exact .inr ⟨p, inFlight_did.mpr hp, hcons hin⟩
  · rw [Hist.push_trace, begun]
    rcases hbegins : begins (log pid h.trace) ⟨o, r⟩ with _ | tx
    · exact ho.nodup
    · exact List.nodup_cons.mpr ⟨(hfresh tx hbegins).1, ho.nodup⟩
  · obtain rfl := ho.alone p pid (inFlight_did.mp hp) hflight
    rw [Hist.push_trace, log_did_self] at hhand
    by_contra hne
    rw [Bool.not_eq_false] at hne
    rcases setProcessed_of_processed hexec hne with hold | rfl
    · rcases inHand_cases hhand with hentry | hbefore
      · cases hentry
        rw [exec_getProcessed hexec] at hold
        cases hold
      · rw [ho.unmarked p hash hflight hbefore] at hold
        cases hold
    · cases hhand
  · have hne : pid ≠ p := by
      rintro rfl
      exact hp (inFlight_did.mpr hflight)
    rw [Hist.push_trace, log_cons_of_ne (e := .did pid o r h.world) hne]
    exact ho.closed p fun h => hp (inFlight_did.mpr h)
  · rcases setProcessed_of_processed hexec hp with hold | rfl
    · exact List.mem_append_right _ (ho.reached n tx htx hold)
    · obtain ⟨t, ht', hhash⟩ := exists_of_inHand hlawful (ht.regular pid) hallowed.1
      have hmem : t ∈ begun h.trace := mem_begun ht'
      obtain rfl := cfg.ledgers.eq_of_hash_eq (ht.chain t hmem) htx hhash
      exact hmem

theorem Once.step (ho : Once cfg h) (ht : Tracked cfg w₀ h)
    (hd : Disciplined (Rules cfg) (fun _ _ _ => True) h)
    (hd' : Disciplined (Rules cfg) (fun _ _ _ => True) h')
    (hstep : HistStep (system cfg) (Rules cfg) h h') (hok : InTurn h h') : Once cfg h' := by
  cases hstep with
  | idle e he hlive =>
    have hflight : (∀ p c, e ≠ .start p c) → InFlight e.pid h.trace := by
      intro hstart
      obtain ⟨c, hc⟩ := hd'.start_mem e List.mem_cons_self
      exact ⟨⟨c, (List.mem_cons.mp hc).resolve_left fun heq => hstart _ c heq.symm⟩, hlive⟩
    have hhand : ∀ pid hash, inHand (log pid h.trace) = some hash →
        ∃ tx ∈ begunIn (log pid h.trace), tx.hash = hash := fun pid hash =>
      exists_of_inHand ((hd.lawful_log pid).weaken fun _ _ h => h.2) (ht.regular pid)
    cases e with
    | start pid c => exact ho.start hlive hok.1
    | did pid o r w => exact absurd rfl (not_did_of_log he pid o r w)
    | returned pid x => exact ho.finish (.inr ⟨x, rfl⟩) (hflight (by simp)) (hhand pid) hok.2
    | crashed pid => exact ho.finish (.inl rfl) (hflight (by simp)) (hhand pid) hok.2
  | did pid c o choice r w hstart hD hexec hlive => exact ho.did ht hd ⟨⟨c, hstart⟩, hlive⟩ hD hexec

/-- The event logs a failure. -/
def isFailure : Event Op.Ret World Call (Except Exc Unit) → Bool
  | .did _ (.logFailure _) _ _ => true
  | _ => false

/-- What is answered has taken effect. -/
theorem clean_of_reachable {ok : History → History → Prop} {w : World} {s : PollState}
    (hr : (system cfg).ReachableWhen ok (.init w) s) (hn : ∀ e ∈ s.hist.trace, isFailure e = false)
    (pid : ℕ) : Clean (log pid s.hist.trace) := by
  rintro ⟨o, r⟩ he
  obtain ⟨before, hmem⟩ := mem_log.mp he
  obtain ⟨choice, after, hexec⟩ := (performed_of_reachable hr).exec hmem
  cases o with
  | logFailure hash => exact absurd (hn _ hmem) (by simp [isFailure])
  | write x =>
    cases x with
    | increment id =>
      intro hanswer
      rcases exec_write hexec with ⟨heffective, -⟩ | ⟨-, herror, -⟩
      · exact heffective
      · exact absurd hanswer herror
    | _ => trivial
  | _ => trivial

/-- **A round is completed once** for each event: when polls come one after another, mark what they have
begun and log no failure, then between polls the round of each group has grown by exactly the number of
`RoundCompleted` events in the transactions that are marked. -/
theorem currentRound_eq (cfg : Config) {w : World} (hw : ∀ hash, w.processed hash = false)
    {s : PollState} (hr : (system cfg).ReachableWhen InTurn (.init w) s) (hquiet : s.Quiet)
    (hn : ∀ e ∈ s.hist.trace, isFailure e = false) :
    ∃ txs : List HorizonTransactionRecord, txs.Nodup ∧
      (∀ tx, tx ∈ txs ↔ tx ∈ cfg.ledgers.transactions tx.ledger ∧
        s.hist.world.processed tx.hash = true) ∧
      ∀ groupId round, w.currentRound groupId = some round →
        s.hist.world.currentRound groupId = some (round + roundsOf cfg txs groupId) := by
  obtain ⟨ht, ho⟩ := hist_invariant (D := Rules cfg) (I := fun h => Tracked cfg w h ∧ Once cfg h)
    (fun c => follows_both cfg c) ⟨tracked_init hw, once_init hw⟩
    (fun _ _ hd hd' hI hstep hok => ⟨hI.1.step hstep, hI.2.step hI.1 hd hd' hstep hok⟩) hr
  have hd := disciplined_of_reachable (D := Rules cfg) (fun c => follows_both cfg c) hr
  have hl := (hr.rule (J := fun _ => True) trivial fun _ _ _ _ _ _ _ => trivial).1
  have hidle : ∀ pid, ¬ InFlight pid s.hist.trace := by
    rintro pid ⟨⟨c, hc⟩, hlive⟩
    obtain ⟨e, he, hend, hpid⟩ := hl.ended pid (hl.lt_started _ hc) (hquiet pid)
    exact hlive e he hend hpid
  have htotal : ∀ groupId, total (fun _ => increments groupId) s.hist.trace =
      roundsOf cfg (begun s.hist.trace) groupId := fun groupId =>
    (total_congr fun pid => tally_eq_budget ((hd.lawful_log pid).weaken fun _ _ h => h.2)
      (ht.regular pid) (clean_of_reachable hr hn pid) (ho.closed pid (hidle pid)) groupId).trans
      (total_budget groupId _)
  refine ⟨begun s.hist.trace, ho.nodup, fun tx => ⟨fun htx => ⟨ht.chain tx htx, ?_⟩, fun htx => ?_⟩,
    fun groupId round hround => ?_⟩
  · rcases ho.settled tx htx with hp | ⟨pid, hflight, -⟩
    · exact hp
    · exact absurd hflight (hidle pid)
  · exact ho.reached _ tx htx.1 htx.2
  · rw [ht.rounds groupId, hround, htotal]
    rfl

end Runs

/-! ### A run of two polls -/

instance : DecidableRel InTurn := fun h h' => by
  unfold InTurn OneAtATime MarksBegun
  refine @instDecidableAnd _ _ ?_ ?_
  · rcases h'.trace with _ | ⟨_ | _ | _ | _, _⟩ <;> infer_instance
  · rcases h'.trace with _ | ⟨_ | _ | _ | _, _⟩ <;> infer_instance

theorem currentRound_le_twoPolls : ∃ s, (system Sample.cfg).Reachable (.init Sample.world) s ∧
    (∀ tx ∈ begun s.hist.trace, tx ∈ Sample.cfg.ledgers.transactions tx.ledger) ∧
      ∃ now, s.hist.world.currentRound 0 = some now ∧ 1 ≤ now ∧
        now ≤ 1 + roundsOf Sample.cfg (begun s.hist.trace) 0 := by
  obtain ⟨s, hr, -⟩ := System.exists_of_replay (system Sample.cfg) (fun _ _ => True)
    (.init Sample.world) (Sample.poll ++ Sample.next) (fun _ => true) (by decide +kernel)
  have hround : Sample.world.currentRound 0 = some 1 := by decide
  exact ⟨s, hr, currentRound_le Sample.cfg (fun _ => rfl) hr hround⟩

theorem currentRound_eq_twoPolls : ∃ s, (system Sample.cfg).ReachableWhen InTurn (.init Sample.world) s ∧
    s.Quiet ∧ ∃ txs : List HorizonTransactionRecord, txs.Nodup ∧
      (∀ tx, tx ∈ txs ↔ tx ∈ Sample.cfg.ledgers.transactions tx.ledger ∧
        s.hist.world.processed tx.hash = true) ∧
      ∀ groupId round, Sample.world.currentRound groupId = some round →
        s.hist.world.currentRound groupId = some (round + roundsOf Sample.cfg txs groupId) := by
  obtain ⟨s, hr, hp⟩ := System.exists_of_replay (system Sample.cfg) InTurn (.init Sample.world)
    (Sample.poll ++ Sample.next)
    (fun s => System.ended s && s.hist.trace.all fun e => !isFailure e) (by decide +kernel)
  obtain ⟨hended, hn⟩ := Bool.and_eq_true_iff.mp hp
  have hquiet : s.Quiet := System.quiet_of_ended hr hended
  exact ⟨s, hr, hquiet, currentRound_eq Sample.cfg (fun _ => rfl) hr hquiet fun e he => by
    simpa using List.all_eq_true.mp hn e he⟩

end Ahjoor.EventListener
