import Ahjoor.Bullmq.Moves
import Ahjoor.Groups.Entities

/-!
# Dispatching the synchronisation of all groups

`handleSyncAllGroups` of the group-sync processor goes through the active groups page by page
and adds one job for each group that has a contract address, under the group's id.

The query of a page has no order, so each page sees the table as it is at that time **and in
whatever order the database takes**; between the queries and the additions other parties move
the queue. All this is given by a list of `Page`s, one for each turn of the loop.
-/

namespace Ahjoor.GroupSync

open Bullmq

/-- `JOB_NAMES.SYNC_GROUP_STATE`. -/
def SYNC_GROUP_STATE : String := "sync-group-state"

/-- `SyncAllGroupsJobData`. -/
structure SyncAllGroupsJobData where
  chainId : ℕ
  batchSize : Option ℕ := none
  deriving DecidableEq, Repr

/-- What the jobs of this queue carry. -/
inductive JobData
  | syncGroupState (groupId : Uuid) (contractAddress : String) (chainId : ℕ)
  | syncAllGroups (data : SyncAllGroupsJobData)
  deriving DecidableEq, Repr

/-- The options of a job: `RETRY_CONFIG`, with the queue's own defaults. -/
def options (jobId : Uuid) : JobsOptions where
  attempts := 3
  backoff := .custom
  removeOnComplete := { count := 1000, age := 86400 }
  removeOnFail := false
  jobId := some jobId

/-- The job for a group. -/
def syncJob (chainId : ℕ) (groupId : Uuid) (contractAddress : String) : Job JobData where
  name := SYNC_GROUP_STATE
  data := .syncGroupState groupId contractAddress chainId
  opts := options groupId

/-- The jobs for the groups of a page that have an address. -/
def jobs (chainId : ℕ) (groups : List Group) : List (Move JobData) :=
  groups.filterMap fun g => (g.contractAddress.filter (· != "")).map fun contractAddress =>
    .add g.id (syncJob chainId g.id contractAddress)

/-- What the queue says to `addBulk`: it has added the jobs, it has failed, or it has added them and
the answer was lost. -/
inductive Reply
  | done
  | fails (message : String)
  | lost (message : String)
  deriving DecidableEq, Repr

/-- One turn of the loop as its surroundings make it. -/
structure Page where
  /-- The table, in the order in which the query goes through it. -/
  rows : Except String (List Group)
  /-- What others do to the queue until the jobs of the page are added. -/
  querying : List (Move JobData) := []
  reply : Reply := .done
  /-- What others do to the queue after that. -/
  added : List (Move JobData) := []

/-- `groupRepository.find` with the filter, `skip` and `take` of the sweep. -/
def find (rows : List Group) (skip take : ℕ) : List Group :=
  ((rows.filter fun g => g.status = .active).drop skip).take take

/-- The batch size of a sweep. -/
def SyncAllGroupsJobData.size (data : SyncAllGroupsJobData) : ℕ := data.batchSize.getD 50

/-- `handleSyncAllGroups`, from a page on. There is no result while pages are missing. -/
def handleSyncAllGroups (data : SyncAllGroupsJobData) :
    List Page → ℕ → Queue JobData → Option (Except String Unit) × Queue JobData
  | [], _, q => (none, q)
  | p :: pages, page, q =>
      match p.rows with
      | .error e => (some (.error e), q)
      | .ok rows =>
          let groups := find rows (page * data.size) data.size
          let q := q.run p.querying
          if groups.length = 0 then (some (.ok ()), q.run p.added)
          else
            let jobs := jobs data.chainId groups
            let bulk := if jobs.length > 0 then p.reply else .done
            match bulk with
            | .fails e => (some (.error e), q)
            | .lost e => (some (.error e), q.run jobs)
            | .done =>
                let q := (q.run jobs).run p.added
                if groups.length < data.size then (some (.ok ()), q)
                else handleSyncAllGroups data pages (page + 1) q

end Ahjoor.GroupSync
