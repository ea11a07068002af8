import Ahjoor.Async.Contract
import Ahjoor.Encryption.FieldEncryption
import Mathlib.Order.Lattice

/-!
# Key rotation

`rotateTarget` re-encrypts the columns of a table under the active key, batch by batch in the order
of the primary key. Its progress (the last key it has passed, and counters) is stored in the same
database, together with each batch in one transaction and outside of one at the exits, so that a
later run goes on where an earlier one has stopped.

The world is that database, with the target table and its row of the progress table. A transaction
holds back its writes until it commits, and the rows that it has written stay locked until then.
A statement can fail without effect, or take effect while its reply is lost. The application writes
to the same columns by transactions of its own.

A run is started with the environment that its registry is built from and with the random bytes
that it draws for each value; the number of passes of its loop is bounded, so that a run that would
go on beyond the bound is one that has been stopped there.
-/

namespace Ahjoor.KeyRotation

open Async

/-! ### Data -/

inductive RotationStatus
  | pending | running | completed | failed
  deriving DecidableEq, Repr

/-- The table and the columns to re-encrypt; rows are known by the value of the id column. -/
structure RotationTarget where
  table : String
  columns : List String

structure StoredProgress (ι : Type) where
  targetTable : String
  targetKeyVersion : ℕ
  lastProcessedId : Option ι
  rowsScanned : ℕ
  rowsReencrypted : ℕ
  rowsFailed : ℕ
  status : RotationStatus

/-- A row, with the value of each column. -/
structure RotationRow (ι : Type) where
  id : ι
  value : String → Option String

/-- The options with their defaults. -/
structure RotationOptions where
  batchSize : ℕ := 500
  throttleMs : ℕ := 0
  maxBatches : Option ℕ := none
  maxFailures : ℕ := 0

structure RotationResult (ι : Type) extends StoredProgress ι where
  batchesRun : ℕ
  done : Bool

variable {ι : Type}

/-! ### The database -/

/-- A write: to columns of a row by the rotation, to one of them by the application, or to the
progress. -/
inductive Write (ι : Type)
  | update (id : ι) (values : List (String × String))
  | enter (id : ι) (column : String) (value : Option String)
  | upsertProgress (progress : StoredProgress ι)

/-- What a write locks: a row of the target table, or the row of the progress. -/
def Write.resource : Write ι → Option ι
  | update id _ | enter id _ _ => some id
  | upsertProgress _ => none

/-- The values fit their columns; `target_key_version` is an `integer`. -/
def Write.inRange : Write ι → Bool
  | update _ _ | enter _ _ _ => true
  | upsertProgress progress => progress.targetKeyVersion ≤ 2147483647

/-- The target table with its progress, and the committed writes, newest first. -/
structure Tables (ι : Type) where
  rows : List (RotationRow ι)
  progress : Option (StoredProgress ι) := none
  log : List (Write ι) := []

/-- `SELECT` of some columns. -/
def RotationRow.select (columns : List String) (row : RotationRow ι) : RotationRow ι :=
  { row with value := fun column => if column ∈ columns then row.value column else none }

/-- `UPDATE … SET` of some columns. -/
def RotationRow.set (values : List (String × String)) (row : RotationRow ι) : RotationRow ι :=
  { row with value := fun column => (values.lookup column).or (row.value column) }

/-- A query. -/
inductive Query (ι : Type)
  | selectProgress
  | selectBatch (columns : List String) (afterId : Option ι) (limit : ℕ)
  | write (x : Write ι)

/-- What a query returns. -/
def Query.Ret : Query ι → Type
  | selectProgress => Option (StoredProgress ι)
  | selectBatch _ _ _ => List (RotationRow ι)
  | write _ => Unit

section Database

variable [LinearOrder ι]

/-- The rows after the cursor in the order of their ids, up to the limit. -/
def Tables.batch (d : Tables ι) (columns : List String) (afterId : Option ι) (limit : ℕ) :
    List (RotationRow ι) :=
  ((((d.rows.filter fun row => afterId.all (· < row.id)).mergeSort
    fun a b => a.id ≤ b.id).take limit).map (·.select columns))

/-- Apply a write. -/
def Tables.apply (d : Tables ι) (x : Write ι) : Tables ι where
  rows :=
    match x with
    | .update id values => d.rows.map fun row => if row.id = id then row.set values else row
    | .enter id column value => d.rows.map fun row =>
        if row.id = id then { row with value := Function.update row.value column value } else row
    | .upsertProgress _ => d.rows
  progress :=
    match x with
    | .upsertProgress progress => some progress
    | _ => d.progress
  log := x :: d.log

/-- The error of a value that does not fit its column. -/
def outOfRange : Exc := .error "value out of range for type integer"

/-- Evaluate a query. -/
def Query.eval : (q : Query ι) → Tables ι → Except Exc q.Ret × Tables ι
  | selectProgress, d => (.ok d.progress, d)
  | selectBatch columns afterId limit, d => (.ok (d.batch columns afterId limit), d)
  | write x, d => if x.inRange then (.ok (), d.apply x) else (.error outOfRange, d)

end Database

/-- What a query locks, if it writes. -/
def Query.locks : Query ι → List (Option ι)
  | selectProgress | selectBatch _ _ _ => []
  | write x => [x.resource]

/-! ### The world -/

/-- The database, the writes of the open transactions, and who holds the lock of what. -/
structure World (ι : Type) where
  tables : Tables ι
  pending : ℕ → Option (List (Write ι)) := fun _ => none
  holder : Option ι → Option ℕ := fun _ => none

/-- An awaited operation. -/
inductive Op (ι : Type)
  /-- a query outside any transaction -/
  | db (q : Query ι)
  | startTransaction
  /-- a write inside the connection's transaction -/
  | tx (x : Write ι)
  | commitTransaction
  | rollbackTransaction
  | sleep (ms : ℕ)
  /-- the database drops the transaction of a call whose connection is gone -/
  | dropSession (pid : ℕ)

/-- What an operation returns. -/
def Op.Ret : Op ι → Type
  | db q => Except Exc q.Ret
  | startTransaction | tx _ | commitTransaction | rollbackTransaction => Except Exc Unit
  | sleep _ | dropSession _ => Unit

/-- What the environment decides about one operation. -/
inductive Choice
  | done
  | fails (message : String)
  | lost (message : String)

namespace World

/-- Somebody else holds the lock. -/
def blocked (w : World ι) (pid : ℕ) (resource : Option ι) : Bool :=
  (w.holder resource).any (· != pid)

/-- End the transaction of `pid` and release its locks. -/
def release (w : World ι) (pid : ℕ) : World ι where
  tables := w.tables
  pending := Function.update w.pending pid none
  holder := fun resource => if w.holder resource = some pid then none else w.holder resource

variable [LinearOrder ι]

/-- A write in the transaction of `pid` after the writes `xs`. -/
def hold (w : World ι) (pid : ℕ) (xs : List (Write ι)) (x : Write ι) : World ι where
  tables := w.tables
  pending := Function.update w.pending pid (some (xs ++ [x]))
  holder := Function.update w.holder x.resource (some pid)

/-- Apply the writes of the transaction of `pid` and end it. -/
def commit (w : World ι) (pid : ℕ) (xs : List (Write ι)) : World ι :=
  release { w with tables := xs.foldl Tables.apply w.tables } pid

end World

/-- What an operation of call `pid` does. -/
def exec [LinearOrder ι] : (o : Op ι) → ℕ → Choice → World ι → Option (o.Ret × World ι)
  | .db q, pid, .done, w =>
      if q.locks.any (w.blocked pid) then none
      else some ((q.eval w.tables).1, { w with tables := (q.eval w.tables).2 })
  | .db _, _, .fails msg, w => some (.error (.error msg), w)
  | .db q, pid, .lost msg, w =>
      if q.locks.any (w.blocked pid) then none
      else some (.error (.error msg), { w with tables := (q.eval w.tables).2 })
  | .startTransaction, pid, .done, w =>
      some (.ok (), { w with pending := Function.update w.pending pid (some []) })
  | .startTransaction, _, .fails msg, w => some (.error (.error msg), w)
  | .tx x, pid, .done, w =>
      (w.pending pid).bind fun xs =>
        if w.blocked pid x.resource then none
        else if x.inRange then some (.ok (), w.hold pid xs x)
        else some (.error outOfRange, w)
  | .tx _, _, .fails msg, w => some (.error (.error msg), w)
  | .commitTransaction, pid, .done, w =>
      (w.pending pid).map fun xs => (.ok (), w.commit pid xs)
  | .commitTransaction, pid, .fails msg, w => some (.error (.error msg), w.release pid)
  | .commitTransaction, pid, .lost msg, w =>
      (w.pending pid).map fun xs => (.error (.error msg), w.commit pid xs)
  | .rollbackTransaction, pid, .done, w => some (.ok (), w.release pid)
  | .rollbackTransaction, _, .fails msg, w => some (.error (.error msg), w)
  | .sleep _, _, .done, w => some ((), w)
  | .dropSession p, _, .done, w => some ((), w.release p)
  | _, _, _, _ => none

/-! ### The store -/

/-- The body of an asynchronous method. -/
abbrev Rotation (ι α : Type) := Routine (fun o : Op ι => o.Ret) Unit Exc α

/-- Whether a transaction is open on the connection of the store. -/
inductive Connection
  | idle | inTransaction
  deriving DecidableEq, Repr

/-- A statement on the connection. -/
def write (connection : Connection) (x : Write ι) : Rotation ι Unit :=
  match connection with
  | .idle => Routine.call (.db (.write x)) fun r => r
  | .inTransaction => Routine.call (.tx x) fun r => r

/-- `PgRotationStore.loadProgress(table)`. -/
def loadProgress : Rotation ι (Option (StoredProgress ι)) :=
  Routine.call (.db .selectProgress) fun r => r

/-- `PgRotationStore.saveProgress(progress)`. -/
def saveProgress (connection : Connection) (progress : StoredProgress ι) : Rotation ι Unit :=
  write connection (.upsertProgress progress)

/-- `PgRotationStore.fetchBatch(target, afterId, limit)`. -/
def fetchBatch (target : RotationTarget) (afterId : Option ι) (limit : ℕ) :
    Rotation ι (List (RotationRow ι)) :=
  Routine.call (.db (.selectBatch target.columns afterId limit)) fun r => r

/-- `PgRotationStore.updateRow(target, id, values)`. -/
def updateRow (connection : Connection) (id : ι) (values : List (String × String)) :
    Rotation ι Unit :=
  write connection (.update id values)

/-- `PgRotationStore.transaction(fn)`. -/
def transaction {α : Type} (fn : Rotation ι α) : Rotation ι α := do
  Routine.call .startTransaction fun r => r
  tryCatch
    (do
      let result ← fn
      Routine.call .commitTransaction fun r => r
      pure result)
    fun err => do
      Routine.call .rollbackTransaction fun r => r
      throw err

/-! ### Re-encryption of a batch -/

section

variable (node : Node) (registry : KeyRegistry)

/-- `encrypt(decrypt(value))`. -/
def reencrypt (iv : List UInt8) (value : String) : Except Exc String := do
  let plaintext ← decrypt node registry value
  encrypt node registry iv plaintext

/-- `values[column] = ciphertext`. -/
def setValue (values : List (String × String)) (column ciphertext : String) :
    List (String × String) :=
  values.filter (fun e => e.1 ≠ column) ++ [(column, ciphertext)]

/-- The number of failures and the new values of a row, one column further. -/
def scanColumn (activeVersion : ℕ) (iv : String → List UInt8) (row : RotationRow ι)
    (acc : ℕ × List (String × String)) (column : String) : ℕ × List (String × String) :=
  match row.value column with
  | none => acc
  | some value =>
      if value = "" then acc
      else if getCiphertextKeyVersion node value = some activeVersion then acc
      else
        match reencrypt node registry (iv column) value with
        | .ok ciphertext => (acc.1, setValue acc.2 column ciphertext)
        | .error _ => (acc.1 + 1, acc.2)

/-- The progress and the updates of a batch, one row further. -/
def scanRow (target : RotationTarget) (activeVersion : ℕ) (iv : ι → String → List UInt8)
    (acc : StoredProgress ι × List (ι × List (String × String))) (row : RotationRow ι) :
    StoredProgress ι × List (ι × List (String × String)) :=
  let scanned := target.columns.foldl
    (scanColumn node registry activeVersion (iv row.id) row) (acc.1.rowsFailed, [])
  ({ acc.1 with
      rowsScanned := acc.1.rowsScanned + 1
      rowsFailed := scanned.1
      lastProcessedId := some row.id },
    if scanned.2.isEmpty then acc.2 else acc.2 ++ [(row.id, scanned.2)])

end

/-! ### The engine -/

/-- The body of the batch's transaction: the updates, then the checkpoint. -/
def writeBatch (progress : StoredProgress ι) :
    List (ι × List (String × String)) → Rotation ι (StoredProgress ι)
  | [] => do
      saveProgress .inTransaction progress
      pure progress
  | (id, values) :: rowUpdates => do
      updateRow .inTransaction id values
      writeBatch { progress with rowsReencrypted := progress.rowsReencrypted + 1 } rowUpdates

/-- The progress that a run starts with. -/
def startingProgress (target : RotationTarget) (activeVersion : ℕ)
    (loaded : Option (StoredProgress ι)) : StoredProgress ι :=
  match loaded.filter fun progress => progress.targetKeyVersion = activeVersion with
  | some progress => { progress with status := .running }
  | none => {
      targetTable := target.table
      targetKeyVersion := activeVersion
      lastProcessedId := none
      rowsScanned := 0
      rowsReencrypted := 0
      rowsFailed := 0
      status := .running }

/-- The stored progress, if it says that the active version has been reached. -/
def completedProgress (activeVersion : ℕ) (loaded : Option (StoredProgress ι)) :
    Option (StoredProgress ι) :=
  loaded.filter fun progress =>
    progress.targetKeyVersion = activeVersion && progress.status = .completed

/-- Store the progress as completed, and the result of `finish('completed', …)`. -/
def complete (progress : StoredProgress ι) (batchesRun : ℕ) : Rotation ι (RotationResult ι) := do
  saveProgress .idle { progress with status := .completed }
  pure { progress with status := .completed, batchesRun, done := true }

/-- The error of a run with too many failures. -/
def abortion (target : RotationTarget) (options : RotationOptions) (progress : StoredProgress ι) :
    Exc :=
  .error (s!"[rotate:{target.table}] aborting: {progress.rowsFailed} row(s) failed to decrypt " ++
    s!"(maxFailures={options.maxFailures})")

/-- `if (throttleMs > 0) await sleep(throttleMs);` -/
def throttle (options : RotationOptions) : Rotation ι Unit :=
  if 0 < options.throttleMs then Routine.call (.sleep options.throttleMs) fun _ => .ok ()
  else pure ()

section

variable (node : Node) (registry : KeyRegistry) (target : RotationTarget)
  (options : RotationOptions) (activeVersion : ℕ) (iv : ι → String → List UInt8)

/-- The loop over the batches. -/
def rotateBatches : ℕ → ℕ → StoredProgress ι → Rotation ι (RotationResult ι)
  | 0, _, _ => throw (.error "stopped")
  | fuel + 1, batchesRun, progress =>
      if options.maxBatches.any (· ≤ batchesRun) then do
        saveProgress .idle progress
        pure { progress with batchesRun, done := false }
      else do
        let rows ← fetchBatch target progress.lastProcessedId options.batchSize
        if rows.isEmpty then complete progress batchesRun
        else do
          let scanned := rows.foldl (scanRow node registry target activeVersion iv) (progress, [])
          let progress ← transaction (writeBatch scanned.1 scanned.2)
          if options.maxFailures < progress.rowsFailed then do
            saveProgress .idle { progress with status := .failed }
            throw (abortion target options progress)
          else if rows.length < options.batchSize then complete progress (batchesRun + 1)
          else do
            throttle options
            rotateBatches fuel (batchesRun + 1) progress

end

/-- The error without versioned encryption. -/
def notVersioned : Exc :=
  .error ("Key rotation requires versioned encryption. Set DB_FIELD_ENCRYPTION_KEY_VERSION " ++
    "(and keep the old key as DB_FIELD_ENCRYPTION_KEY_PREVIOUS) before running rotation.")

/-- A run: its environment, its options, the random bytes for each value, and a bound on the passes
of its loop. -/
structure Run (ι : Type) where
  env : RegistryEnv
  options : RotationOptions
  iv : ι → String → List UInt8
  fuel : ℕ

section

variable (node : Node) (target : RotationTarget)

/-- What `rotateTarget` does with the progress that it has loaded. -/
def rotateFrom (run : Run ι) (registry : KeyRegistry) (activeVersion : ℕ)
    (loaded : Option (StoredProgress ι)) : Rotation ι (RotationResult ι) :=
  match completedProgress activeVersion loaded with
  | some progress => pure { progress with batchesRun := 0, done := true }
  | none => do
      saveProgress .idle (startingProgress target activeVersion loaded)
      rotateBatches node registry target run.options activeVersion run.iv run.fuel 0
        (startingProgress target activeVersion loaded)

/-- `rotateTarget(store, target, options)` over a `PgRotationStore`. -/
def rotateTarget (run : Run ι) : Rotation ι (RotationResult ι) :=
  match buildRegistry node run.env with
  | .error e => throw e
  | .ok registry =>
      match getActiveKeyVersion registry with
      | none => throw notVersioned
      | some activeVersion => do
          let loaded ← loadProgress
          rotateFrom node target run registry activeVersion loaded

/-- An application transaction that writes values, each to a column of a row. -/
def applicationWrite (writes : List (ι × String × Option String)) : Rotation ι Unit :=
  transaction (Routine.forEach writes fun x => write .inTransaction (.enter x.1 x.2.1 x.2.2))

/-- What runs beside each other: runs of the rotation, transactions of the application, and the
database itself. -/
inductive Call (ι : Type)
  | rotate (run : Run ι)
  | application (writes : List (ι × String × Option String))
  | dropSession (pid : ℕ)

/-- What a call returns. -/
def Call.body : Call ι → Rotation ι (Option (RotationResult ι))
  | rotate run => do
      let result ← rotateTarget node target run
      pure (some result)
  | application writes => do
      applicationWrite writes
      pure none
  | dropSession pid => Routine.call (.dropSession pid) fun _ => .ok none

/-- The rotation of a target beside the application. -/
def system [LinearOrder ι] :
    System (fun o : Op ι => o.Ret) Choice (World ι) (Call ι)
      (Except Exc (Option (RotationResult ι))) where
  exec := exec
  body c := (c.body node target ()).bind fun x => .ret x.1

end

/-! ### What an operation can do -/

section Operations

variable [LinearOrder ι] {pid : ℕ} {choice : Choice} {w w' : World ι}

/-- A query outside a transaction fails without effect, or takes effect. -/
theorem exec_db {q : Query ι} {r : Except Exc q.Ret}
    (h : exec (.db q) pid choice w = some (r, w')) :
    (w' = w ∧ ∃ e, r = .error e) ∨
      ((∀ resource ∈ q.locks, w.blocked pid resource = false) ∧
        w' = { w with tables := (q.eval w.tables).2 } ∧
        (r = (q.eval w.tables).1 ∨ ∃ e, r = .error e)) := by
  have hfree : ∀ {b : Bool}, ¬ b = true → b = false := Bool.eq_false_iff.mpr
  cases choice with
  | done =>
    simp only [exec] at h
    split at h
    · cases h
    next hblocked =>
      cases h
      refine .inr ⟨fun resource hmem => hfree fun hb => hblocked ?_, rfl, .inl rfl⟩
      exact List.any_eq_true.mpr ⟨resource, hmem, hb⟩
  | fails msg =>
    cases h
    exact .inl ⟨rfl, _, rfl⟩
  | lost msg =>
    simp only [exec] at h
    split at h
    · cases h
    next hblocked =>
      cases h
      refine .inr ⟨fun resource hmem => hfree fun hb => hblocked ?_, rfl, .inr ⟨_, rfl⟩⟩
      exact List.any_eq_true.mpr ⟨resource, hmem, hb⟩

/-- A write inside a transaction is refused, or held back under its lock. -/
theorem exec_tx {x : Write ι} {r : Except Exc Unit} (h : exec (.tx x) pid choice w = some (r, w')) :
    (w' = w ∧ ∃ e, r = .error e) ∨
      ∃ xs, w.pending pid = some xs ∧ w.blocked pid x.resource = false ∧ x.inRange = true ∧
        r = .ok () ∧ w' = w.hold pid xs x := by
  cases choice with
  | done =>
    obtain ⟨xs, hxs, h⟩ := Option.bind_eq_some_iff.mp h
    split at h
    · cases h
    next hblocked =>
      split at h
      next hrange =>
        cases h
        exact .inr ⟨xs, hxs, Bool.eq_false_iff.mpr hblocked, hrange, rfl, rfl⟩
      next =>
        cases h
        exact .inl ⟨rfl, _, rfl⟩
  | fails msg =>
    cases h
    exact .inl ⟨rfl, _, rfl⟩
  | lost msg => cases h

theorem exec_startTransaction {r : Except Exc Unit}
    (h : exec .startTransaction pid choice w = some (r, w')) :
    (w' = w ∧ ∃ e, r = .error e) ∨
      (r = .ok () ∧ w' = { w with pending := Function.update w.pending pid (some []) }) := by
  cases choice with
  | done =>
    cases h
    exact .inr ⟨rfl, rfl⟩
  | fails msg =>
    cases h
    exact .inl ⟨rfl, _, rfl⟩
  | lost msg => cases h

/-- A commit drops the transaction with an error, or applies its writes. -/
theorem exec_commitTransaction {r : Except Exc Unit}
    (h : exec .commitTransaction pid choice w = some (r, w')) :
    (w' = w.release pid ∧ ∃ e, r = .error e) ∨
      ∃ xs, w.pending pid = some xs ∧ w' = w.commit pid xs ∧ (r = .ok () ∨ ∃ e, r = .error e) := by
  cases choice with
  | done =>
    obtain ⟨xs, hxs, h⟩ := Option.map_eq_some_iff.mp h
    cases h
    exact .inr ⟨xs, hxs, rfl, .inl rfl⟩
  | fails msg =>
    cases h
    exact .inl ⟨rfl, _, rfl⟩
  | lost msg =>
    obtain ⟨xs, hxs, h⟩ := Option.map_eq_some_iff.mp h
    cases h
    exact .inr ⟨xs, hxs, rfl, .inr ⟨_, rfl⟩⟩

theorem exec_rollbackTransaction {r : Except Exc Unit}
    (h : exec .rollbackTransaction pid choice w = some (r, w')) :
    (w' = w ∧ ∃ e, r = .error e) ∨ (r = .ok () ∧ w' = w.release pid) := by
  cases choice with
  | done =>
    cases h
    exact .inr ⟨rfl, rfl⟩
  | fails msg =>
    cases h
    exact .inl ⟨rfl, _, rfl⟩
  | lost msg => cases h

theorem exec_sleep {ms : ℕ} {r : Unit} (h : exec (.sleep ms) pid choice w = some (r, w')) : w' = w := by
  cases choice with
  | done =>
    cases h
    rfl
  | fails msg => cases h
  | lost msg => cases h

theorem exec_dropSession {p : ℕ} {r : Unit}
    (h : exec (.dropSession p) pid choice w = some (r, w')) : w' = w.release p := by
  cases choice with
  | done =>
    cases h
    rfl
  | fails msg => cases h
  | lost msg => cases h

end Operations

end Ahjoor.KeyRotation
