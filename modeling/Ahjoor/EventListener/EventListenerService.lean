import Ahjoor.Async.Embedding
import Ahjoor.EventListener.Events

/-!
# The event listener

A poll reads the checkpoint, fetches the transactions of the contract in later ledgers, and goes
through them one by one: it asks Redis whether the transaction is processed, applies its events, marks
it as processed and moves the checkpoint to its ledger. Polls share Redis and the database, of one
instance or of several.

What Horizon answers is up to the environment, within what `Horizon` asks of an answer. The answer to a
write tells the history whether it took effect; the service sees the answer only. Warnings are left
out; the log entry of a failed transaction is kept. `pollIntervalMs` is taken as configured.
-/

namespace Ahjoor.EventListener

open Async

/-! ### The chain -/

/-- `HorizonTransactionRecord`. -/
structure HorizonTransactionRecord where
  hash : String
  successful : Bool
  ledger : ℕ
  resultMetaXdr : Option String := none
  createdAt : Option ℕ := none
  deriving DecidableEq

/-- The transactions of the contract in each ledger. Ledgers are numbered from 1 on, and a hash belongs
to one transaction. -/
structure Ledgers where
  transactions : ℕ → List HorizonTransactionRecord
  genesis : transactions 0 = []
  ledger_eq : ∀ {n tx}, tx ∈ transactions n → tx.ledger = n
  nodup : ∀ n, (transactions n).Nodup
  eq_of_hash_eq : ∀ {m n tx tx'}, tx ∈ transactions m → tx' ∈ transactions n → tx.hash = tx'.hash →
    tx = tx'
  hash_ne : ∀ {n tx}, tx ∈ transactions n → tx.hash ≠ ""

/-- The answers of Horizon to a request with a cursor, numbered; the environment chooses one.

An answer is **on the chain** and **in its order**, and **nothing is skipped** in it: before each of its
transactions it has all that lie in later ledgers than the one with the number of the cursor. Horizon
itself takes a cursor for a paging token, and the number of a ledger is a token from before the first
one; it then answers from the beginning of the chain on. -/
structure Horizon (ledgers : Ledgers) where
  page : Option ℕ → ℕ → List HorizonTransactionRecord
  onChain : ∀ {cursor i tx}, tx ∈ page cursor i → tx ∈ ledgers.transactions tx.ledger
  inOrder : ∀ cursor i, (page cursor i).Pairwise fun a b => a.ledger ≤ b.ledger
  nothingSkipped : ∀ {cursor i tx n t}, tx ∈ page cursor i → t ∈ ledgers.transactions n →
    cursor.getD 0 < n → n < tx.ledger → t ∈ page cursor i

structure Config where
  sdk : Sdk
  contractAddress : String
  pollIntervalMs : ℕ := 15000
  ledgers : Ledgers
  horizon : Horizon ledgers

/-! ### The world -/

/-- What polls share: the database and the keys in Redis; and of each instance whether it polls, and
when it has polled last. -/
structure World where
  base : Ahjoor.World
  checkpoint : Option ℕ := none
  processed : String → Bool := fun _ => false
  pollingEnabled : ℕ → Bool := fun _ => true
  lastRunAtMs : ℕ → ℤ := fun _ => 0

/-- The candidates of `fetchTransactionsSince`. -/
inductive Endpoint
  /-- `/contracts/{contractAddress}/transactions` -/
  | contracts
  /-- `/accounts/{contractAddress}/transactions` -/
  | accounts
  deriving DecidableEq

/-- A response of Horizon, with its body where it is `ok`. -/
inductive Response
  | records (transactions : List HorizonTransactionRecord)
  | status (code : ℕ)

/-- A write. -/
inductive Write
  /-- `groupRepository.increment({ id: groupId }, 'currentRound', 1)` -/
  | increment (groupId : Uuid)
  /-- `membershipRepository.update(where, { hasReceivedPayout: true })` -/
  | updateHasReceived (sel : MembershipWhere)
  /-- `redis.set(ledgerCheckpointKey, String(ledger))` -/
  | setLedger (ledger : ℕ)
  /-- `redis.set(processedTxKey(hash), '1')` -/
  | setProcessed (hash : String)

/-- The answer to a write, and whether it took effect. -/
structure Ack where
  effective : Bool
  answer : Except Exc Unit

/-- An awaited operation. -/
inductive Op
  | base (o : Ahjoor.Op)
  | write (x : Write)
  /-- `redis.get(ledgerCheckpointKey)` -/
  | getLedger
  /-- `redis.get(processedTxKey(hash))` -/
  | getProcessed (hash : String)
  /-- a request with order `asc` and limit 200 -/
  | fetch (endpoint : Endpoint) (cursor : Option ℕ)
  /-- whether a tick of the instance is due; if so, it is noted as its last run -/
  | tick (instanceId : ℕ)
  /-- `this.pollingEnabled = enabled` -/
  | setPolling (instanceId : ℕ) (enabled : Bool)
  /-- the log entry `Failed to process tx …` -/
  | logFailure (hash : String)

/-- What an operation returns. -/
def Op.Ret : Op → Type
  | base o => o.Ret
  | write _ => Ack
  | getLedger => Except Exc (Option ℕ)
  | getProcessed _ => Except Exc Bool
  | fetch _ _ => Except Exc Response
  | tick _ => Bool
  | setPolling _ _ | logFailure _ => Unit

/-- What the environment decides about one operation. -/
inductive Choice
  | done
  | fails (message : String)
  /-- it takes effect, and its answer is lost -/
  | lost (message : String)
  | base (choice : Ahjoor.Choice)
  /-- Horizon answers with this one of its answers -/
  | page (i : ℕ)
  /-- Horizon answers with a status that is not `ok` -/
  | status (code : ℕ)
  | time (t : ℤ)

/-- What a write changes. -/
def World.apply (w : World) : Write → World
  | .increment groupId =>
      let groups := w.base.db.groups.modify (·.id = groupId) fun g =>
        { g with currentRound := g.currentRound + 1 }
      { w with base.db.groups := groups }
  | .updateHasReceived sel =>
      let memberships := w.base.db.memberships.modify sel.selects fun m =>
        { m with hasReceivedPayout := true }
      { w with base.db.memberships := memberships }
  | .setLedger ledger => { w with checkpoint := some ledger }
  | .setProcessed hash => { w with processed := Function.update w.processed hash true }

variable (cfg : Config)

/-- What an operation of call `pid` does. -/
def exec : (o : Op) → ℕ → Choice → World → Option (o.Ret × World)
  | .base o, pid, .base choice, w =>
      (Ahjoor.exec o pid choice w.base).map fun x => (x.1, { w with base := x.2 })
  | .write x, _, .done, w => some (⟨true, .ok ()⟩, w.apply x)
  | .write _, _, .fails msg, w => some (⟨false, .error (.error msg)⟩, w)
  | .write x, _, .lost msg, w => some (⟨true, .error (.error msg)⟩, w.apply x)
  | .getLedger, _, .done, w => some (.ok w.checkpoint, w)
  | .getLedger, _, .fails msg, w => some (.error (.error msg), w)
  | .getProcessed hash, _, .done, w => some (.ok (w.processed hash), w)
  | .getProcessed _, _, .fails msg, w => some (.error (.error msg), w)
  | .fetch _ cursor, _, .page i, w => some (.ok (.records (cfg.horizon.page cursor i)), w)
  | .fetch _ _, _, .status code, w => some (.ok (.status code), w)
  | .fetch _ _, _, .fails msg, w => some (.error (.error msg), w)
  | .tick i, _, .time t, w =>
      if w.pollingEnabled i && cfg.pollIntervalMs ≤ t - w.lastRunAtMs i then
        some (true, { w with lastRunAtMs := Function.update w.lastRunAtMs i t })
      else some (false, w)
  | .setPolling i enabled, _, .done, w =>
      some ((), { w with pollingEnabled := Function.update w.pollingEnabled i enabled })
  | .logFailure _, _, .done, w => some ((), w)
  | _, _, _, _ => none

/-! ### The service -/

/-- The body of an asynchronous method. -/
abbrev Service (α : Type) := Routine Op.Ret Unit Exc α

/-- A part of a body that is concerned with the database only. -/
def onDatabase {α : Type} (m : Ahjoor.Service Unit α) : Service α := Routine.via Op.base (fun _ r => r) m

/-- An awaited write. -/
def write (x : Write) : Service Unit := Routine.call (.write x) Ack.answer

/-- An expression that may throw. -/
def evaluate {α : Type} : Except Exc α → Service α
  | .ok a => pure a
  | .error e => throw e

/-- `getLastProcessedLedger()`. -/
def getLastProcessedLedger : Service ℕ := do
  let raw : Option ℕ ← Routine.call .getLedger fun r => r
  pure (raw.getD 0)

/-- `setLastProcessedLedger(ledger)`. -/
def setLastProcessedLedger (ledger : ℕ) : Service Unit := write (.setLedger ledger)

/-- `isAlreadyProcessed(hash)`. -/
def isAlreadyProcessed (hash : String) : Service Bool :=
  if hash = "" then pure false else Routine.call (.getProcessed hash) fun r => r

/-- `markProcessed(hash)`. -/
def markProcessed (hash : String) : Service Unit :=
  if hash = "" then pure () else write (.setProcessed hash)

/-- The loop of `fetchTransactionsSince` over the candidates. -/
def fetchFrom (cursor : Option ℕ) : List Endpoint → Service (List HorizonTransactionRecord)
  | [] => pure []
  | endpoint :: endpoints => do
      let response : Response ← Routine.call (.fetch endpoint cursor) fun r => r
      match response with
      | .records transactions => pure transactions
      | .status code =>
          if code = 404 then fetchFrom cursor endpoints
          else throw (.error ("Horizon request failed with status " ++ toString code))

/-- The cursor of a request: none for the beginning of the chain. -/
def cursorOf (lastProcessedLedger : ℕ) : Option ℕ :=
  if 0 < lastProcessedLedger then some lastProcessedLedger else none

/-- `fetchTransactionsSince(lastProcessedLedger)`. -/
def fetchTransactionsSince (lastProcessedLedger : ℕ) : Service (List HorizonTransactionRecord) :=
  fetchFrom (cursorOf lastProcessedLedger) [.contracts, .accounts]

/-- `handleContributionReceived(payload, tx)`. Where a column does not take a value it throws before
its first query, and not at the first that carries the value. -/
def handleContributionReceived (payload : Payload) (tx : HorizonTransactionRecord) : Service Unit :=
  match readString payload ["groupId", "group_id"], readString payload ["userId", "user_id", "memberId"],
      readString payload ["walletAddress", "wallet_address", "memberWallet"],
      readString payload ["amount"] with
  | some group, some user, some walletAddress, some amount => do
      let groupId ← evaluate (cfg.sdk.uuid group)
      let userId ← evaluate (cfg.sdk.uuid user)
      let roundNumber ← evaluate
        ((readNumber cfg.sdk payload ["roundNumber", "round_number"]).getD (.ok 1))
      onDatabase (EventListenerService.handleContributionReceived {
        groupId := some groupId
        userId := some userId
        walletAddress := some walletAddress
        amount := some amount
        roundNumber := some roundNumber
        transactionHash := tx.hash
        createdAt := tx.createdAt })
  | _, _, _, _ => pure ()

/-- What `handleRoundCompleted` notes about the recipient of the payout. -/
def noteRecipient (groupId : Uuid) (payload : Payload) : Service Unit :=
  match readString payload ["payoutRecipientUserId", "payoutUserId", "recipientUserId", "userId",
      "user_id"] with
  | some payoutUserId => do
      let userId ← evaluate (cfg.sdk.uuid payoutUserId)
      write (.updateHasReceived { groupId := some groupId, userId := some userId })
  | none =>
      match readString payload ["payoutRecipientWallet", "recipientWallet", "walletAddress",
          "wallet_address"] with
      | some payoutWallet =>
          write (.updateHasReceived { groupId := some groupId, walletAddress := some payoutWallet })
      | none =>
          match readNumber cfg.sdk payload ["payoutOrder", "payout_order"] with
          | some order => do
              let payoutOrder ← evaluate order
              write (.updateHasReceived { groupId := some groupId, payoutOrder := some payoutOrder })
          | none => pure ()

/-- `handleRoundCompleted(payload)`. -/
def handleRoundCompleted (payload : Payload) : Service Unit :=
  match readString payload ["groupId", "group_id"] with
  | none => pure ()
  | some group => do
      let groupId ← evaluate (cfg.sdk.uuid group)
      write (.increment groupId)
      onDatabase (query (.updateHasPaid { groupId := some groupId } false))
      noteRecipient cfg groupId payload

/-- `handleParsedEvent(event, tx)`. -/
def handleParsedEvent (tx : HorizonTransactionRecord) (event : ParsedDiagnosticEvent) : Service Unit :=
  match event.name with
  | .contributionReceived => handleContributionReceived cfg event.payload tx
  | .roundCompleted => handleRoundCompleted cfg event.payload

/-- What `pollNow` tries for a successful transaction. -/
def applyEvents (tx : HorizonTransactionRecord) : Service Unit := do
  let events ← evaluate (parseDiagnosticEvents cfg.sdk tx.resultMetaXdr)
  Routine.forEach events (handleParsedEvent cfg tx)

/-- The body of the loop of `pollNow`. -/
def processTransaction (lastProcessedLedger : ℕ) (tx : HorizonTransactionRecord) : Service Unit :=
  if tx.ledger = 0 ∨ tx.ledger ≤ lastProcessedLedger then pure ()
  else do
    let processed ← isAlreadyProcessed tx.hash
    if processed then setLastProcessedLedger tx.ledger
    else if !tx.successful then do
      markProcessed tx.hash
      setLastProcessedLedger tx.ledger
    else do
      tryCatch (applyEvents cfg tx) fun _ => Routine.perform (Op.logFailure tx.hash)
      -- `finally`
      markProcessed tx.hash
      setLastProcessedLedger tx.ledger

/-- `pollNow()`. -/
def pollNow : Service Unit :=
  if cfg.contractAddress = "" then pure ()
  else do
    let lastProcessedLedger ← getLastProcessedLedger
    let transactions ← fetchTransactionsSince lastProcessedLedger
    Routine.forEach transactions (processTransaction cfg lastProcessedLedger)

/-- `pollTick()`: what `pollNow` throws is only logged. -/
def pollTick (instanceId : ℕ) : Service Unit := do
  let due : Bool ← Routine.perform (Op.tick instanceId)
  if due then tryCatch (pollNow cfg) fun _ => pure () else pure ()

/-! ### The system -/

/-- The calls of a run. -/
inductive Call
  | pollNow
  | pollTick (instanceId : ℕ)
  | startPolling (instanceId : ℕ)
  | stopPolling (instanceId : ℕ)
  deriving DecidableEq

/-- The body of a call. -/
def Call.body : Call → Service Unit
  | pollNow => EventListener.pollNow cfg
  | pollTick i => EventListener.pollTick cfg i
  | startPolling i => Routine.perform (Op.setPolling i true)
  | stopPolling i => Routine.perform (Op.setPolling i false)

/-- Polls of any number of instances. -/
def system : System Op.Ret Choice World Call (Except Exc Unit) where
  exec := exec cfg
  body c := (c.body cfg ()).bind fun x => .ret x.1

/-- The state of a run. -/
abbrev PollState := State Op.Ret World Call (Except Exc Unit)

/-- The history of a run. -/
abbrev History := Hist Op.Ret World Call (Except Exc Unit)

end Ahjoor.EventListener
