import Ahjoor.Audit.ChainHash

/-!
# `AuditService`

The writers of the audit log: `createLog` stores the columns that it is given, `archiveOldLogs`
deletes the rows before a date. Each is one statement of the database, which assigns the key and the
time of a row that comes without.
-/

namespace Ahjoor.Audit

open Json

/-- The rows of `audit_logs`. -/
abbrev Rows := List AuditLog

/-! ### Writing -/

/-- `Partial<AuditLog>`: columns that are not given are `none`; one that may be null can be given as
null. -/
structure LogData where
  id : Option String := none
  userId : Option (Option String) := none
  action : Option String := none
  resource : Option String := none
  metadata : Option Value := none
  timestamp : Option ℤ := none
  ipAddress : Option (Option String) := none
  userAgent : Option (Option String) := none
  requestPayload : Option Value := none
  hash : Option (Option String) := none
  prevHash : Option (Option String) := none
  chainId : Option (Option String) := none
  chainPartition : Option (Option String) := none
  chainVersion : Option (Option ℤ) := none
  anchorReference : Option (Option String) := none

/-- The columns that are given, over those of a row. The key is not changed. -/
def LogData.over (data : LogData) (row : AuditLog) : AuditLog where
  id := row.id
  userId := data.userId.getD row.userId
  action := data.action.getD row.action
  resource := data.resource.getD row.resource
  metadata := data.metadata.getD row.metadata
  timestamp := data.timestamp.getD row.timestamp
  ipAddress := data.ipAddress.getD row.ipAddress
  userAgent := data.userAgent.getD row.userAgent
  requestPayload := data.requestPayload.getD row.requestPayload
  hash := data.hash.getD row.hash
  prevHash := data.prevHash.getD row.prevHash
  chainId := data.chainId.getD row.chainId
  chainPartition := data.chainPartition.getD row.chainPartition
  chainVersion := data.chainVersion.getD row.chainVersion
  anchorReference := data.anchorReference.getD row.anchorReference

/-- The row that is inserted: what is not given has its default. -/
def LogData.newRow (data : LogData) (id action resource : String) (now : ℤ) : AuditLog :=
  data.over { id, action, resource, timestamp := now }

/-- The stored row that the data name. -/
def LogData.stored (data : LogData) (rows : Rows) : Option AuditLog :=
  data.id.bind fun id => rows.find? (·.id = id)

/-- `createLog(data)`. The database would assign the key `id` and the time `now`; a key that is stored
already makes it an update. -/
def createLog (data : LogData) (id : String) (now : ℤ) (rows : Rows) :
    Except String AuditLog × Rows :=
  match data.stored rows with
  | some row => (.ok (data.over row), rows.map fun r => if r.id = row.id then data.over r else r)
  | none =>
      match data.action, data.resource with
      | some action, some resource =>
          let row := data.newRow (data.id.getD id) action resource now
          if rows.any (·.id = row.id) then
            (.error "duplicate key value violates unique constraint", rows)
          else (.ok row, rows ++ [row])
      | _, _ => (.error "null value violates not-null constraint", rows)

/-- `archiveOldLogs(daysOld)` at the time `now`. -/
def archiveOldLogs (daysOld now : ℤ) (rows : Rows) : ℕ × Rows :=
  let cutoffDate := now - daysOld * 86400000
  (rows.countP fun row => row.timestamp < cutoffDate,
    rows.filter fun row => !(row.timestamp < cutoffDate))

/-! ### Runs -/

/-- A call of the service, with what the database and the clock add to it. -/
inductive Call
  | createLog (data : LogData) (id : String) (now : ℤ)
  | archiveOldLogs (daysOld now : ℤ)

/-- What a call leaves. -/
def Call.apply (rows : Rows) : Call → Rows
  | .createLog data id now => (Audit.createLog data id now rows).2
  | .archiveOldLogs daysOld now => (Audit.archiveOldLogs daysOld now rows).2

/-- Calls one after another. -/
def run (rows : Rows) (calls : List Call) : Rows := calls.foldl Call.apply rows

end Ahjoor.Audit
