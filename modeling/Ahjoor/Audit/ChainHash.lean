import Ahjoor.Common.Date
import Ahjoor.Json.KeyOrder

/-!
# `audit-chain-hash`, and the backfill migration

The text of an audit row that is hashed, and the chain of hashes that the migration computes over the
rows that were there. SHA-256, as hexadecimal digits, is a parameter.
-/

namespace Ahjoor.Audit

open Json

/-- `AUDIT_CHAIN_VERSION`. -/
def auditChainVersion : ℤ := 1

/-- `CHAIN_PARTITION_GLOBAL`. -/
def chainPartitionGlobal : String := "GLOBAL"

/-! ### Rows -/

/-- `AuditChainRowInput`. A value that is absent is `null`. -/
structure AuditChainRowInput where
  id : String
  userId : Option String
  action : String
  resource : String
  metadata : Value
  timestamp : String
  ipAddress : Option String
  userAgent : Option String
  requestPayload : Value
  prevHash : String
  chainId : String
  chainPartition : String
  chainVersion : Number

/-- `value ?? {}`. -/
def orEmpty : Value → Value
  | .null => .obj []
  | value => value

/-- A column that may be null. -/
def nullable : Option String → Value
  | some s => .str s
  | none => .null

/-! ### Hashing -/

mutual

/-- `stableStringify(value)`, as characters. -/
def stableText : Value → List Char
  | .null => ['n', 'u', 'l', 'l']
  | .bool b => print (.bool b)
  | .num n => print (.num n)
  | .str s => print (.str s)
  | .arr xs => '[' :: join (stableTexts xs) ++ [']']
  | .obj members =>
      '{' :: join ((sortByKey (stableMembers members)).map fun (key, text) =>
        quote key.toList ++ ':' :: text) ++ ['}']
termination_by structural value => value

def stableTexts : List Value → List (List Char)
  | [] => []
  | value :: values => stableText value :: stableTexts values
termination_by structural values => values

def stableMember : String × Value → String × List Char
  | (key, value) => (key, stableText value)
termination_by structural member => member

def stableMembers : List (String × Value) → List (String × List Char)
  | [] => []
  | member :: members => stableMember member :: stableMembers members
termination_by structural members => members

end

/-- `stableStringify(value)`. -/
def stableStringify (value : Value) : String := String.ofList (stableText value)

/-- `buildChainPayload(input)`. -/
def buildChainPayload (input : AuditChainRowInput) : String :=
  stringify (.obj
    [("v", .num (.ofInt auditChainVersion)),
      ("id", .str input.id),
      ("userId", nullable input.userId),
      ("action", .str input.action),
      ("resource", .str input.resource),
      ("metadata", .str (stableStringify (orEmpty input.metadata))),
      ("timestamp", .str input.timestamp),
      ("ipAddress", nullable input.ipAddress),
      ("userAgent", nullable input.userAgent),
      ("requestPayload", .str (stableStringify (orEmpty input.requestPayload))),
      ("prevHash", .str input.prevHash),
      ("chainId", .str input.chainId),
      ("chainPartition", .str input.chainPartition),
      ("chainVersion", .num input.chainVersion)])

/-- `computeRowHash(input)`. -/
def computeRowHash (sha256 : String → String) (input : AuditChainRowInput) : String :=
  sha256 (buildChainPayload input)

/-! ### The migration -/

/-- `AuditLog`. The time is in milliseconds. -/
structure AuditLog where
  id : String
  userId : Option String := none
  action : String
  resource : String
  metadata : Value := .null
  timestamp : ℤ
  ipAddress : Option String := none
  userAgent : Option String := none
  requestPayload : Value := .null
  hash : Option String := none
  prevHash : Option String := none
  chainId : Option String := none
  chainPartition : Option String := some chainPartitionGlobal
  chainVersion : Option ℤ := some 1
  anchorReference : Option String := none

/-- The columns of a row that are hashed. -/
def AuditLog.input (row : AuditLog) : AuditChainRowInput where
  id := row.id
  userId := row.userId
  action := row.action
  resource := row.resource
  metadata := row.metadata
  timestamp := toISOString row.timestamp
  ipAddress := row.ipAddress
  userAgent := row.userAgent
  requestPayload := row.requestPayload
  prevHash := row.prevHash.getD ""
  chainId := row.chainId.getD ""
  chainPartition := row.chainPartition.getD ""
  chainVersion := .ofInt (row.chainVersion.getD 1)

namespace Migration

mutual

/-- `stableStringify(value)` of the migration, as characters. -/
def stableText : Value → List Char
  | .null => ['n', 'u', 'l', 'l']
  | .bool b => print (.bool b)
  | .num n => print (.num n)
  | .str s => print (.str s)
  | .arr xs => '[' :: join (stableTexts xs) ++ [']']
  | .obj members =>
      '{' :: join ((sortByKey (stableMembers members)).map fun (key, text) =>
        quote key.toList ++ ':' :: text) ++ ['}']
termination_by structural value => value

def stableTexts : List Value → List (List Char)
  | [] => []
  | value :: values => stableText value :: stableTexts values
termination_by structural values => values

def stableMember : String × Value → String × List Char
  | (key, value) => (key, stableText value)
termination_by structural member => member

def stableMembers : List (String × Value) → List (String × List Char)
  | [] => []
  | member :: members => stableMember member :: stableMembers members
termination_by structural members => members

end

/-- `stableStringify(value)` of the migration. -/
def stableStringify (value : Value) : String := String.ofList (stableText value)

/-- `canonicalizeRow(input)`. -/
def canonicalizeRow (input : AuditChainRowInput) : String :=
  stringify (.obj
    [("v", .num (.ofInt 1)),
      ("id", .str input.id),
      ("userId", nullable input.userId),
      ("action", .str input.action),
      ("resource", .str input.resource),
      ("metadata", .str (stableStringify (orEmpty input.metadata))),
      ("timestamp", .str input.timestamp),
      ("ipAddress", nullable input.ipAddress),
      ("userAgent", nullable input.userAgent),
      ("requestPayload", .str (stableStringify (orEmpty input.requestPayload))),
      ("prevHash", .str input.prevHash),
      ("chainId", .str input.chainId),
      ("chainPartition", .str input.chainPartition),
      ("chainVersion", .num input.chainVersion)])

/-- What the loop passes to `canonicalizeRow`. -/
def input (chainId prevHash : String) (row : AuditLog) : AuditChainRowInput where
  id := row.id
  userId := row.userId
  action := row.action
  resource := row.resource
  metadata := orEmpty row.metadata
  timestamp := toISOString row.timestamp
  ipAddress := row.ipAddress
  userAgent := row.userAgent
  requestPayload := orEmpty row.requestPayload
  prevHash := prevHash
  chainId := chainId
  chainPartition := "GLOBAL"
  chainVersion := .ofInt 1

/-- The loop over the rows in the order of time and key, from a previous hash on. -/
def backfill (sha256 : String → String) (chainId : String) : String → List AuditLog → List AuditLog
  | _, [] => []
  | prevHash, row :: rows =>
      let hash := sha256 (canonicalizeRow (input chainId prevHash row))
      { row with
        hash := some hash
        prevHash := some prevHash
        chainId := some chainId
        chainPartition := some "GLOBAL"
        chainVersion := some 1 } :: backfill sha256 chainId hash rows

end Migration

end Ahjoor.Audit
