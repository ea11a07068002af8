import Ahjoor.Async.Interleaving
import Ahjoor.Bullmq.Queue
import Ahjoor.Groups.Database
import Ahjoor.Stellar.Sdk

/-!
# The shared world and the operations on it

The world is what concurrent calls share: the database with its open transactions, the payout
reconciliation queue, the chain behind the RPC servers, the position in the list of RPC URLs,
the lock keys and the clock. An `Op` is one awaited operation; `exec` says what it does under
each `Choice` of the environment: it takes effect and answers (`done`), is refused without
effect (`fails`), or takes effect while its reply is lost (`lost`).

A database transaction buffers its writes and applies them when it commits. The rows it has
written stay locked until then, so a write to one of them by another call has to wait
(`blocked`); its reads see the committed rows and its own writes, and lock nothing.

`Op.note` is not an operation of the source. It records in the history of a run that a step
worth counting is about to start, and changes nothing.
-/

namespace Ahjoor

open Async Bullmq

/-! ### The chain -/

/-- What a transaction record says about its transaction. -/
inductive TxStatus
  | pending | confirmed | failed
  deriving DecidableEq, Repr

/-- The status that `getTransactionStatus` reads off a record. -/
def txStatus : Option TxRecord → TxStatus
  | none => .pending
  | some r =>
      let status := lowerCase (((r.status.or r.txStatus).or r.state).getD "")
      if includes status "success" || includes status "confirmed" || includes status "completed" then
        .confirmed
      else if includes status "failed" || includes status "error" || includes status "reverted" then
        .failed
      else .pending

/-- The transactions the network has accepted, each with the call that sent it, and the final
status of a hash once it has been reported. -/
structure Chain where
  accepted : List (ℕ × Transaction) := []
  verdict : String → Option TxStatus := fun _ => none

namespace Chain

/-- The network takes a transaction from a call; sent again by the same call, it is not taken
twice. -/
def accept (c : Chain) (pid : ℕ) (tx : Transaction) : Chain :=
  if c.accepted.contains (pid, tx) then c else { c with accepted := (pid, tx) :: c.accepted }

/-- The chain reports a status: a final one once and for all. -/
def report (c : Chain) (hash : String) (s : TxStatus) : Option Chain :=
  if s = .pending then some c
  else
    match c.verdict hash with
    | none => some { c with verdict := Function.update c.verdict hash (some s) }
    | some v => if v = s then some c else none

end Chain

/-! ### The world -/

/-- A call's open database transaction: its writes, oldest first. -/
structure Session where
  pid : ℕ
  writes : List Query

/-- Everything concurrent calls share. -/
structure World where
  db : Database
  sessions : List Session := []
  payoutQueue : Queue Uuid := fun _ => none
  chain : Chain := {}
  rpcIndex : ℕ := 0
  locks : String → Bool := fun _ => false
  keyPairs : ℕ := 0
  clock : ℕ := 0

/-! ### Operations -/

/-- A notification. -/
structure Notification where
  userId : Uuid
  type : String
  title : String
  body : String
  metadata : List (String × String) := []
  idempotencyKey : Option String := none

/-- An awaited effect outside the world: only whether it throws matters. -/
inductive Effect
  | notify (n : Notification)
  | notifyBatch (ns : List Notification)
  | dispatchEvent (event : String) (payload : List (String × String))
  | contributionVerified (contributionId : Uuid)
  | addTxConfirmation (contributionId : Uuid) (transactionHash : String) (userId : Uuid)
      (deadline : ℕ)
  | redisSet (key : String)
  | sleep (ms : ℕ)

/-- What `getTransactionAmount` reads off a transaction. -/
structure TxDetails where
  amount : String
  assetCode : String
  assetIssuer : Option String

/-- A question to the outside, with an answer the model does not determine. -/
inductive Question
  | redisGet (key : String)
  | incrBy (key : String) (n : ℤ)
  | groupMaintenance (groupId : Uuid)
  | verifyContributionForGroup (txHash : String) (contractAddress : Option String)
  | getTransactionAmount (txHash : String)
  | fetchRate (source destination : String)

/-- The answers the environment can give. -/
inductive Answer
  | bool (b : Bool)
  | int (z : ℤ)
  | text (s : Option String)
  | details (d : TxDetails)

namespace Question

/-- What each question returns. -/
def Ret : Question → Type
  | redisGet _ | verifyContributionForGroup _ _ => Bool
  | incrBy _ _ => ℤ
  | groupMaintenance _ => Option String
  | getTransactionAmount _ => TxDetails
  | fetchRate _ _ => String

/-- An answer of the right kind. -/
def read : (q : Question) → Answer → Option q.Ret
  | redisGet _, .bool b | verifyContributionForGroup _ _, .bool b => some b
  | incrBy _ _, .int z => some z
  | groupMaintenance _, .text s => some s
  | getTransactionAmount _, .details d => some d
  | fetchRate _ _, .text (some s) => some s
  | _, _ => none

end Question

/-- A step of a run worth counting. -/
inductive Note
  /-- `distributePayout(groupId, round)` is invoked -/
  | payoutStarted (groupId : Uuid) (round : ℤ)
  /-- `distributePayout` calls `disbursePayout` or `submitPathPayment` -/
  | submissionStarted (groupId : Uuid) (round : ℤ)
  /-- `advanceRound` calls `disbursePayout` for the group's round -/
  | disbursing (groupId : Uuid) (round : ℤ)
  deriving DecidableEq

/-- An awaited operation. -/
inductive Op
  /-- a query outside any transaction -/
  | db (q : Query)
  /-- `dataSource.transaction(…)` opens a transaction -/
  | begin
  /-- a query inside the call's transaction -/
  | tx (q : Query)
  | commit
  | rollback
  /-- the database drops the transaction of a call whose connection is gone -/
  | dropSession (pid : ℕ)
  /-- attempt `i` of a failover over `n` URLs; `initial` is the index the first attempt saw -/
  | rpc (n i : ℕ) (initial : Option ℕ) (req : Request)
  | addJob (id : Uuid) (job : Job Uuid)
  | takeJob (id : Uuid)
  | finishJob (id : Uuid) (success : Bool)
  | stallJob (id : Uuid)
  | expireJob (id : Uuid)
  | setIfNotExists (key : String)
  | del (key : String)
  | emit (e : Effect)
  | ask (q : Question)
  | randomKeyPair
  | now
  | note (n : Note)

namespace Op

/-- What an operation returns. -/
def Ret : Op → Type
  | db q | tx q => Except Exc q.Ret
  | begin | commit | addJob _ _ | emit _ => Except Exc Unit
  | setIfNotExists _ => Bool
  | rpc _ _ _ req => ℕ × Except Exc req.Reply
  | takeJob _ => Option (Job Uuid)
  | ask q => Except Exc q.Ret
  | rollback | dropSession _ | finishJob _ _ | stallJob _ | expireJob _ | del _ | note _ => Unit
  | randomKeyPair | now => ℕ

end Op

/-- What the environment decides about one operation. -/
inductive Choice
  | done
  | fails (message : String)
  | lost (message : String)
  | prepared (resourceFee : ℤ)
  | simulated (r : Simulation)
  | sent (accepted : Bool) (r : Option SendReply)
  | found (r : Option TxRecord)
  | balance (b : Option String)
  | answer (a : Answer)
  | time (t : ℕ)
  /-- the time of the key that is in the way has run out -/
  | expired

/-! ### What an operation does -/

namespace Query

/-- The writes that wait for each other: both change a row that the other changes. -/
def conflicts (d : Database) : Query → Query → Bool
  | saveGroup g, saveGroup g' => g.id == g'.id
  | saveMembership m, saveMembership m' => m.id == m'.id
  | saveMembership m, updateHasPaid w _ | updateHasPaid w _, saveMembership m =>
      (d.memberships.row m.id).any w.selects
  | updateHasPaid w _, updateHasPaid w' _ =>
      d.memberships.rows.any fun m => w.selects m && w'.selects m
  | _, _ => false

end Query

namespace Session

/-- The tables as the transaction sees them. -/
def view (s : Session) (d : Database) : Database :=
  s.writes.foldl (fun d q => (q.eval d).2) d

end Session

namespace World

/-- The call's open transaction. -/
def session (w : World) (pid : ℕ) : Option Session := w.sessions.find? fun s => s.pid == pid

/-- The open transactions without that of `pid`. -/
def sessionsWithout (w : World) (pid : ℕ) : List Session := w.sessions.filter fun s => s.pid != pid

/-- The query has to wait for a row that another call's transaction has written. -/
def blocked (w : World) (pid : ℕ) (q : Query) : Bool :=
  (w.sessionsWithout pid).any fun s => s.writes.any (Query.conflicts w.db q)

end World

/-- The outcome of one RPC request: the reply and the chain afterwards. -/
def Request.serve (pid : ℕ) : (req : Request) → Choice → Chain → Option (Except Exc req.Reply × Chain)
  | _, .fails msg, c => some (.error (.error msg), c)
  | prepareTransaction _, .prepared fee, c => some (.ok fee, c)
  | simulateTransaction _, .simulated s, c => some (.ok s, c)
  | sendTransaction tx, .sent accepted r, c => some (.ok r, if accepted then c.accept pid tx else c)
  | sendTransaction tx, .lost msg, c => some (.error (.error msg), c.accept pid tx)
  | getTransaction hash, .found r, c => (c.report hash (txStatus r)).map fun c' => (.ok r, c')
  | loadAccount _, .balance b, c => some (.ok b, c)
  | _, _, _ => none

/-- What an operation of call `pid` does. -/
def exec : (o : Op) → ℕ → Choice → World → Option (o.Ret × World)
  | .db q, pid, .done, w =>
      if w.blocked pid q then none else some ((q.eval w.db).1, { w with db := (q.eval w.db).2 })
  | .db _, _, .fails msg, w => some (.error (.error msg), w)
  | .db q, pid, .lost msg, w =>
      if w.blocked pid q then none
      else some (.error (.error msg), { w with db := (q.eval w.db).2 })
  | .begin, pid, .done, w => some (.ok (), { w with sessions := ⟨pid, []⟩ :: w.sessionsWithout pid })
  | .begin, _, .fails msg, w => some (.error (.error msg), w)
  | .tx q, pid, .done, w =>
      (w.session pid).bind fun s =>
        if w.blocked pid q then none
        else some ((q.eval (s.view w.db)).1,
          { w with sessions := ⟨pid, s.writes ++ [q]⟩ :: w.sessionsWithout pid })
  | .tx _, _, .fails msg, w => some (.error (.error msg), w)
  | .commit, pid, .done, w =>
      (w.session pid).map fun s =>
        (.ok (), { w with db := s.view w.db, sessions := w.sessionsWithout pid })
  | .commit, pid, .fails msg, w =>
      some (.error (.error msg), { w with sessions := w.sessionsWithout pid })
  | .commit, pid, .lost msg, w =>
      (w.session pid).map fun s =>
        (.error (.error msg), { w with db := s.view w.db, sessions := w.sessionsWithout pid })
  | .rollback, pid, .done, w => some ((), { w with sessions := w.sessionsWithout pid })
  | .dropSession p, _, .done, w => some ((), { w with sessions := w.sessionsWithout p })
  | .rpc n i initial req, pid, choice, w =>
      let start := initial.getD w.rpcIndex
      (req.serve pid choice w.chain).map fun r =>
        ((start, r.1), { w with rpcIndex := (start + i) % n, chain := r.2 })
  | .addJob id job, _, .done, w => some (.ok (), { w with payoutQueue := w.payoutQueue.add id job })
  | .addJob _ _, _, .fails msg, w => some (.error (.error msg), w)
  | .addJob id job, _, .lost msg, w =>
      some (.error (.error msg), { w with payoutQueue := w.payoutQueue.add id job })
  | .takeJob id, pid, .done, w =>
      match w.payoutQueue.take pid id with
      | some (job, q) => some (some job, { w with payoutQueue := q })
      | none => some (none, w)
  | .finishJob id success, pid, .done, w =>
      some ((), { w with payoutQueue := w.payoutQueue.finish pid id success })
  | .stallJob id, _, .done, w => some ((), { w with payoutQueue := w.payoutQueue.stall id })
  | .expireJob id, _, .done, w => some ((), { w with payoutQueue := w.payoutQueue.expire id })
  | .setIfNotExists key, _, .done, w =>
      some (!w.locks key, { w with locks := Function.update w.locks key true })
  | .setIfNotExists key, _, .expired, w =>
      some (true, { w with locks := Function.update w.locks key true })
  | .setIfNotExists _, _, .fails _, w => some (false, w)
  | .del key, _, .done, w => some ((), { w with locks := Function.update w.locks key false })
  | .del _, _, .fails _, w => some ((), w)
  | .emit _, _, .done, w => some (.ok (), w)
  | .emit _, _, .fails msg, w => some (.error (.error msg), w)
  | .ask q, _, .answer a, w => (q.read a).map fun v => (.ok v, w)
  | .ask _, _, .fails msg, w => some (.error (.error msg), w)
  | .randomKeyPair, _, .done, w => some (w.keyPairs, { w with keyPairs := w.keyPairs + 1 })
  | .now, _, .time t, w => if w.clock ≤ t then some (t, { w with clock := t }) else none
  | .note _, _, .done, w => some ((), w)
  | _, _, _, _ => none

/-! ### A small world -/

namespace Sample

/-- An SDK that accepts every value. -/
def sdk : Sdk where
  validContract _ := true
  validAddress _ := true
  validAsset _ _ := true
  encodesAsset _ := true
  validAmount _ := true
  hash _ := ⟨"hash", by decide⟩

/-- One RPC server, and the defaults. -/
def cfg : Config where
  rpcUrls := ["rpc"]
  networkPassphrase := "network"
  defaultContractAddress := "C"

/-- An active group of two rounds, in its first. -/
def group : Group where
  id := 0
  name := "group"
  contractAddress := some "C"
  adminWallet := "admin"
  contributionAmount := "100"
  status := .active
  currentRound := 1
  totalRounds := 2

/-- The recipient of the group's first round, who has paid. -/
def member : Membership where
  id := 0
  groupId := 0
  userId := 0
  walletAddress := "G0"
  payoutOrder := some 0
  hasPaidCurrentRound := true

/-- A world with one group and its members. -/
def world (group : Group) (members : List Membership) : World where
  db := { Database.empty with
    groups := Store.Table.empty.put group
    memberships := members.foldl Store.Table.put .empty }

end Sample

end Ahjoor
