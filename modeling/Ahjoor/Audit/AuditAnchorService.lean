import Ahjoor.Audit.AuditService
import Ahjoor.Store.Newest
import Mathlib.Data.String.Basic

/-!
# `AuditAnchorService`

The head of the chain is read from the table, and its hash is written to the Stellar ledger, or
only to the table of anchors. Later the head is compared with the last anchor. What the SDK submits
and loads is a parameter: a transaction is its operations.
-/

namespace Ahjoor.Audit

open Json

/-! ### The head of the chain -/

/-- The order of rows by `(timestamp, id)`. -/
def AuditLog.place (row : AuditLog) : ℤ ×ₗ String := toLex (row.timestamp, row.id)

/-- The row is in the partition. -/
def AuditLog.isIn (chainPartition : String) (row : AuditLog) : Bool :=
  row.chainPartition = some chainPartition

/-- The text, if it is truthy. -/
def nonEmpty (value : Option String) : Option String := value.filter (· ≠ "")

theorem nonEmpty_of_ne {text : String} (h : text ≠ "") : nonEmpty (some text) = some text := by
  rw [nonEmpty, Option.filter_some_pos (by simp [h])]

/-- `resolveGlobalChainId()`. -/
def resolveGlobalChainId (rows : Rows) : Except String String :=
  match (Store.earliest AuditLog.place (rows.filter (AuditLog.isIn chainPartitionGlobal))).bind
      fun row => nonEmpty row.chainId with
  | some chainId => .ok chainId
  | none => .error "No global audit chain found"

/-- The chain, and the last row of it. -/
def chainHead (chainId : Option String) (chainPartition : String) (rows : Rows) :
    Except String (String × Option AuditLog) := do
  let cid ← match chainId with
    | some chainId => pure chainId
    | none => resolveGlobalChainId rows
  pure (cid, Store.latest AuditLog.place
    (rows.filter fun row => row.chainId = some cid && row.isIn chainPartition))

/-! ### The Stellar ledger -/

/-- An operation of a transaction. -/
inductive Operation
  | manageData (dataName : String) (dataValue : List UInt8)
  | other

/-- The part of the configuration that is read. -/
structure Config where
  stellarRpcUrl : Option String := none
  stellarRpcUrls : Option String := none
  auditAnchorStellarSecret : Option String := none

/-- The ledger as the SDK shows it: a transaction is submitted, which gives its hash, and loaded by
its hash. -/
structure Network (Ledger : Type) where
  submitTransaction : String → List Operation → Ledger → Except String String × Ledger
  loadTransaction : Ledger → String → Except String (Option (List Operation))

/-- The URL, if one is configured. -/
def Config.rpcUrl (config : Config) : Option String :=
  nonEmpty config.stellarRpcUrl <|>
    nonEmpty (config.stellarRpcUrls.bind fun urls => (urls.splitOn ",").head?)

/-- The bytes of a text. -/
def utf8 (text : String) : List UInt8 := text.toList.flatMap String.utf8EncodeChar

/-- `value.toString('hex')`. -/
def hex (bytes : List UInt8) : String :=
  String.ofList (bytes.flatMap fun b => [Nat.digitChar (b.toNat / 16), Nat.digitChar (b.toNat % 16)])

/-- The name under which a chain is anchored. -/
def dataName (chainId : String) : String := "audit_anchor_" ++ slicePrefix chainId 20

section Network

variable {Ledger : Type} (network : Network Ledger) (config : Config)

/-- `anchorOnStellar(chainId, chainHeadHash)`: the hash of the transaction. -/
def anchorOnStellar (chainId chainHeadHash : String) (ledger : Ledger) :
    Except String String × Ledger :=
  match config.rpcUrl, nonEmpty config.auditAnchorStellarSecret with
  | none, _ => (.error "No STELLAR_RPC_URL configured for anchoring", ledger)
  | some _, none => (.error "No AUDIT_ANCHOR_STELLAR_SECRET configured", ledger)
  | some _, some secret =>
      network.submitTransaction secret [.manageData (dataName chainId) (utf8 chainHeadHash)] ledger

/-- The loop of `verifyStellarAnchor` over the operations. On an operation of another kind
`manageDataOp()` throws, and the answer is `false`, whatever follows. -/
def findsAnchor (chainId expectedHash : String) : List Operation → Bool
  | [] => false
  | .other :: _ => false
  | .manageData name value :: operations =>
      (name = dataName chainId && hex value = expectedHash) ||
        findsAnchor chainId expectedHash operations

/-- `verifyStellarAnchor(txHash, chainId, expectedHash)`. -/
def verifyStellarAnchor (txHash chainId expectedHash : String) (ledger : Ledger) : Bool :=
  match config.rpcUrl, network.loadTransaction ledger txHash with
  | some _, .ok (some operations) => findsAnchor chainId expectedHash operations
  | _, _ => false

/-! ### Anchors -/

/-- `AuditAnchor`. -/
structure AuditAnchor where
  id : String
  chainId : String
  chainPartition : String
  chainHeadHash : String
  anchorType : String
  stellarTxHash : Option String
  payload : Value
  sequence : ℕ

/-- The tables and the ledger. -/
structure World (Ledger : Type) where
  rows : Rows
  anchors : List AuditAnchor
  ledger : Ledger

/-- The anchoring on the ledger, if a secret is configured; a failure is logged. -/
def anchorIfConfigured (chainId chainHeadHash : String) (ledger : Ledger) :
    Option String × Ledger :=
  match nonEmpty config.auditAnchorStellarSecret with
  | none => (none, ledger)
  | some _ =>
      let (result, ledger) := anchorOnStellar network config chainId chainHeadHash ledger
      (result.toOption, ledger)

/-- `anchorCurrentChainHead(chainId, chainPartition)`. The database assigns the key `id`, and the
next number of the sequence. -/
def anchorCurrentChainHead (chainId : Option String) (chainPartition id : String) (now : ℤ)
    (w : World Ledger) : Except String AuditAnchor × World Ledger :=
  match chainHead chainId chainPartition w.rows with
  | .error e => (.error e, w)
  | .ok (cid, head) =>
      match head.bind fun row => (nonEmpty row.hash).map fun hash => (row, hash) with
      | none => (.error ("No auditable row found for chain " ++ cid ++ "/" ++ chainPartition ++
          " — cannot anchor"), w)
      | some (row, hash) =>
          let (stellarTxHash, ledger) := anchorIfConfigured network config cid hash w.ledger
          let anchor : AuditAnchor :=
            { id, chainId := cid, chainPartition, chainHeadHash := hash
              anchorType := if stellarTxHash.isSome then "STELLAR" else "WRITE_ONCE"
              stellarTxHash
              payload := .obj
                [("anchoredHeadId", .str row.id), ("anchoredAt", .str (toISOString now)),
                  ("rowTimestamp", .str (toISOString row.timestamp)),
                  ("stellarAnchored", .bool stellarTxHash.isSome)]
              sequence := w.anchors.length + 1 }
          (.ok anchor,
            { rows := w.rows.map fun r =>
                if r.id = row.id then { r with anchorReference := some (stellarTxHash.getD id) } else r
              anchors := w.anchors ++ [anchor]
              ledger })

/-- What `verifyLatestAnchor` returns. -/
structure Verification where
  ok : Bool
  expectedHeadHash : Option String := none
  anchorChainHeadHash : Option String := none
  anchorType : Option String := none
  stellarTxHash : Option String := none
  message : String
  deriving DecidableEq

/-- What is returned for a head and an anchor. -/
def found (headHash : String) (anchor : AuditAnchor) (ok : Bool) (message : String) : Verification where
  ok
  expectedHeadHash := some headHash
  anchorChainHeadHash := some anchor.chainHeadHash
  anchorType := some anchor.anchorType
  stellarTxHash := anchor.stellarTxHash
  message

/-- The anchor is compared with the head. -/
def compared (headHash : String) (anchor : AuditAnchor) (stellarMessage : String) : Verification :=
  if anchor.chainHeadHash = headHash then
    found headHash anchor true ("Anchor matches current chain head" ++ stellarMessage)
  else
    found headHash anchor false ("Anchor mismatch: stored " ++ anchor.chainHeadHash ++
      " vs current head " ++ headHash ++ " — chain may have been tampered after anchoring")

/-- The hash of the transaction, if the anchor is on the ledger. -/
def AuditAnchor.onStellar (anchor : AuditAnchor) : Option String :=
  if anchor.anchorType = "STELLAR" then nonEmpty anchor.stellarTxHash else none

/-- The anchor is looked for on the ledger, if it is there, and then compared with the head. -/
def verifyAnchor (chainId headHash : String) (anchor : AuditAnchor) (ledger : Ledger) : Verification :=
  match anchor.onStellar with
  | none => compared headHash anchor ""
  | some txHash =>
      if verifyStellarAnchor network config txHash chainId headHash ledger then
        compared headHash anchor " Stellar anchor verified on-chain."
      else
        found headHash anchor false
          "Stellar anchor mismatch WARNING: Stellar anchor mismatch on-chain!"

/-- The last anchor of a chain. -/
def latestAnchor (chainId chainPartition : String) (anchors : List AuditAnchor) :
    Option AuditAnchor :=
  Store.latest AuditAnchor.sequence (anchors.filter fun anchor =>
    anchor.chainId = chainId && anchor.chainPartition = chainPartition)

/-- `verifyLatestAnchor(chainId, chainPartition)`. -/
def verifyLatestAnchor (chainId : Option String) (chainPartition : String) (w : World Ledger) :
    Except String Verification := do
  let (cid, head) ← chainHead chainId chainPartition w.rows
  match head.bind fun row => nonEmpty row.hash, latestAnchor cid chainPartition w.anchors with
  | none, _ =>
      pure { ok := false, message := "No chain head found (chain may be empty or tampered)" }
  | some headHash, none =>
      pure { ok := false, expectedHeadHash := some headHash,
             message := "No anchor found for chain — run the anchoring job first" }
  | some headHash, some anchor => pure (verifyAnchor network config cid headHash anchor w.ledger)

end Network

end Ahjoor.Audit
