import Ahjoor.Bullmq.GroupSyncProcessor

/-!
# Is every active group synchronised?

A sweep should leave a job that can still run for each group that has been active with an
address on every page. `covered_iff` says exactly when it does: the group is **given** such a
job, which then lasts. The sweep gives one only on a page whose window, the rows from
`page * size` on of the order its own query takes, holds the group, and only while no finished
job is kept under the group's id (`ready_undisturbed`). Pages whose orders differ can leave a
group out, and a kept job of an earlier sweep makes the sweep's addition void
(`not_covered`).
-/

namespace Ahjoor.GroupSync

open Bullmq Queue

variable (data : SyncAllGroupsJobData)

/-! ### The course of a sweep -/

/-- The groups that a page's query returns. -/
def Page.window (p : Page) (page : ℕ) : List Group :=
  match p.rows with
  | .error _ => []
  | .ok rows => find rows (page * data.size) data.size

/-- The loop stops at this page. -/
def Page.last (p : Page) (page : ℕ) : Bool :=
  (p.window data page).isEmpty || decide ((p.window data page).length < data.size)

/-- The pages that a sweep reads, with their numbers. -/
def turns : List Page → ℕ → List (ℕ × Page)
  | [], _ => []
  | p :: pages, page => (page, p) :: if p.last data page then [] else turns pages (page + 1)

/-- Everything that moves the queue during a sweep. -/
def sweepMoves (pages : List Page) : List (Move JobData) :=
  (turns data pages 0).flatMap fun t =>
    t.2.querying ++ (jobs data.chainId (t.2.window data t.1) ++ t.2.added)

/-- The page's query sees the group as active, with an address. -/
def Page.shows (p : Page) (g : Uuid) : Bool :=
  match p.rows with
  | .error _ => false
  | .ok rows => rows.any fun row =>
      row.id = g && row.status = .active && truthy row.contractAddress

/-- The group is active with an address **throughout** the sweep. -/
def activeThroughout (pages : List Page) (g : Uuid) : Bool :=
  (turns data pages 0).all fun t => t.2.shows g

/-- Each group that is active with an address throughout has a job that can still run when the sweep
has finished. -/
def Covered (pages : List Page) (q : Queue JobData) : Prop :=
  ∀ g, activeThroughout data pages g = true →
    (handleSyncAllGroups data pages 0 q).2.ready SYNC_GROUP_STATE g = true

/-! ### A sweep that finishes -/

variable {data}

/-- One turn of the loop whose query has been answered. -/
theorem handleSyncAllGroups_cons {p : Page} {rows : List Group} (hrows : p.rows = .ok rows)
    (pages : List Page) (page : ℕ) (q : Queue JobData) :
    handleSyncAllGroups data (p :: pages) page q =
      let moves := jobs data.chainId (p.window data page)
      if (p.window data page).length = 0 then (some (.ok ()), (q.run p.querying).run p.added)
      else
        match if moves.length > 0 then p.reply else .done with
        | .fails e => (some (.error e), q.run p.querying)
        | .lost e => (some (.error e), (q.run p.querying).run moves)
        | .done =>
            let q' := ((q.run p.querying).run moves).run p.added
            if (p.window data page).length < data.size then (some (.ok ()), q')
            else handleSyncAllGroups data pages (page + 1) q' := by
  obtain ⟨_, querying, reply, added⟩ := p
  obtain rfl := hrows
  rfl

/-- **A sweep that finishes** has moved the queue page by page. -/
theorem run_of_finished {pages : List Page} {page : ℕ} {q : Queue JobData}
    (h : (handleSyncAllGroups data pages page q).1 = some (.ok ())) :
    (handleSyncAllGroups data pages page q).2 = q.run ((turns data pages page).flatMap fun t =>
      t.2.querying ++ (jobs data.chainId (t.2.window data t.1) ++ t.2.added)) := by
  induction pages generalizing page q with
  | nil => simp [handleSyncAllGroups] at h
  | cons p pages ih =>
    cases hrows : p.rows with
    | error e => simp [handleSyncAllGroups, hrows] at h
    | ok rows =>
      rw [handleSyncAllGroups_cons hrows] at h ⊢
      simp only [turns, List.flatMap_cons, run_append] at h ⊢
      by_cases hempty : (p.window data page).length = 0
      · have hnil : p.window data page = [] := List.length_eq_zero_iff.mp hempty
        have hlast : p.last data page = true := by simp [Page.last, hnil]
        rw [if_pos hempty, if_pos hlast, hnil]
        rfl
      · rw [if_neg hempty] at h ⊢
        -- the jobs have been added, or the sweep would have thrown
        cases hbulk : (if (jobs data.chainId (p.window data page)).length > 0 then p.reply
          else .done) with
        | fails e => simp [hbulk] at h
        | lost e => simp [hbulk] at h
        | done =>
          simp only [hbulk] at h ⊢
          by_cases hshort : (p.window data page).length < data.size
          · have hlast : p.last data page = true := by simp [Page.last, hshort]
            rw [if_pos hshort, if_pos hlast]
            rfl
          · have hlast : p.last data page = false := by
              simp only [Page.last, hshort, decide_false, Bool.or_false, List.isEmpty_eq_false_iff]
              exact fun hnil => hempty (List.length_eq_zero_iff.mpr hnil)
            rw [if_neg hshort] at h ⊢
            rw [hlast, if_neg (by decide), ih h]

/-! ### What the sweep itself gives -/

/-- The page's query returns the group, with an address. -/
def Page.reads (data : SyncAllGroupsJobData) (page : ℕ) (p : Page) (g : Uuid) : Bool :=
  (p.window data page).any fun row => row.id = g && truthy row.contractAddress

theorem jobs_additions {groups : List Group} {m : Move JobData}
    (h : m ∈ jobs data.chainId groups) :
    ∃ i job, m = .add i job ∧ job.name = SYNC_GROUP_STATE ∧ job.state.live = true := by
  obtain ⟨g, -, hm⟩ := List.mem_filterMap.mp h
  obtain ⟨address, -, rfl⟩ := Option.map_eq_some_iff.mp hm
  exact ⟨_, _, rfl, rfl, rfl⟩

theorem any_jobs (groups : List Group) (g : Uuid) :
    (jobs data.chainId groups).any (fun m => target m = g) =
      groups.any fun row => row.id = g && truthy row.contractAddress := by
  rw [jobs, List.any_filterMap]
  refine congrArg (List.any groups) (funext fun row => ?_)
  cases row.contractAddress with
  | none => simp
  | some address =>
    cases haddress : address != "" with
    | true =>
      simp [Option.filter, haddress]
      rfl
    | false => simp [Option.filter, haddress]

/-- **A sweep that nobody disturbs** leaves a job that can run under a group's id exactly when no
finished job is kept there and some page reads the group, unless such a job was there before. -/
theorem ready_undisturbed {pages : List Page} {q : Queue JobData}
    (hquiet : ∀ t ∈ turns data pages 0, t.2.querying = [] ∧ t.2.added = [])
    (h : (handleSyncAllGroups data pages 0 q).1 = some (.ok ())) (g : Uuid) :
    (handleSyncAllGroups data pages 0 q).2.ready SYNC_GROUP_STATE g =
      (q.ready SYNC_GROUP_STATE g || !q.blocked SYNC_GROUP_STATE g &&
        (turns data pages 0).any fun t => t.2.reads data t.1 g) := by
  have hmoves : ((turns data pages 0).flatMap fun t =>
      t.2.querying ++ (jobs data.chainId (t.2.window data t.1) ++ t.2.added)) =
      (turns data pages 0).flatMap fun t => jobs data.chainId (t.2.window data t.1) :=
    List.flatMap_congr fun t ht => by
      rw [(hquiet t ht).1, (hquiet t ht).2, List.nil_append, List.append_nil]
  have hadditions : ∀ m ∈ (turns data pages 0).flatMap fun t =>
      jobs data.chainId (t.2.window data t.1), ∃ i job, m = .add i job ∧
        job.name = SYNC_GROUP_STATE ∧ job.state.live = true := by
    intro m hm
    obtain ⟨t, -, hm⟩ := List.mem_flatMap.mp hm
    exact jobs_additions hm
  rw [run_of_finished h, hmoves, ready_additions hadditions, List.any_flatMap]
  simp only [any_jobs, Page.reads]

/-! ### Whether it finishes -/

section Finishing

variable {pages : ℕ → Page} {bound : ℕ}

/-- Behind the end of the table a page is empty. -/
theorem window_eq_nil (hsize : 0 < data.size) {p : Page} {rows : List Group} {page : ℕ}
    (hrows : p.rows = .ok rows) (hlength : rows.length ≤ page) : p.window data page = [] := by
  have hskip : (rows.filter fun g => g.status = .active).length ≤ page * data.size :=
    calc (rows.filter fun g => g.status = .active).length
      _ ≤ rows.length := List.length_filter_le _ _
      _ ≤ page := hlength
      _ ≤ page * data.size := Nat.le_mul_of_pos_right page hsize
  simp only [Page.window, hrows, find, List.drop_eq_nil_of_le hskip, List.take_nil]

theorem finished_from (hsize : 0 < data.size)
    (hrows : ∀ i, ∃ rows, (pages i).rows = .ok rows ∧ rows.length ≤ bound)
    (hreply : ∀ i, (pages i).reply = .done) {n page : ℕ} (hn : bound ≤ page + n)
    (q : Queue JobData) :
    (handleSyncAllGroups data ((List.range' page (n + 1)).map pages) page q).1 =
      some (.ok ()) := by
  induction n generalizing page q with
  | zero =>
    obtain ⟨rows, hok, hlength⟩ := hrows page
    have hnil : (pages page).window data page = [] :=
      window_eq_nil hsize hok (Nat.le_trans hlength hn)
    rw [List.range'_succ, List.map_cons, handleSyncAllGroups_cons hok, hnil]
    rfl
  | succ n ih =>
    obtain ⟨rows, hok, -⟩ := hrows page
    have hdone : (if (jobs data.chainId ((pages page).window data page)).length > 0
        then (pages page).reply else .done) = .done := by rw [hreply, ite_self]
    rw [List.range'_succ, List.map_cons, handleSyncAllGroups_cons hok]
    simp only [hdone]
    split
    · rfl
    · split
      · rfl
      · exact ih (by omega) _

/-- **A sweep over a bounded table finishes**, when its queries are answered and its additions
accepted. -/
theorem finished_of_bounded (hsize : 0 < data.size)
    (hrows : ∀ i, ∃ rows, (pages i).rows = .ok rows ∧ rows.length ≤ bound)
    (hreply : ∀ i, (pages i).reply = .done) (q : Queue JobData) :
    (handleSyncAllGroups data ((List.range (bound + 1)).map pages) 0 q).1 = some (.ok ()) := by
  rw [List.range_eq_range']
  exact finished_from hsize hrows hreply (by omega) q

end Finishing

/-! ### When it covers every group -/

/-- **A sweep covers the active groups** exactly when each of them has a job that lasts, or is given
one which lasts. -/
theorem covered_iff (data : SyncAllGroupsJobData) (pages : List Page) (q : Queue JobData)
    (h : (handleSyncAllGroups data pages 0 q).1 = some (.ok ())) :
    Covered data pages q ↔ ∀ g, activeThroughout data pages g = true →
      (q.ready SYNC_GROUP_STATE g && lasts g q (sweepMoves data pages) ||
        given SYNC_GROUP_STATE g q (sweepMoves data pages)) = true := by
  refine forall_congr' fun g => imp_congr_right fun _ => ?_
  rw [run_of_finished h, ← sweepMoves, ready_run]

/-! ### Sweeps of one group -/

namespace Sample

/-- An active group. -/
def group (id : Uuid) : Group where
  id := id
  name := "g"
  contractAddress := some "C"
  adminWallet := "G"
  contributionAmount := "1"
  status := .active
  totalRounds := 1

/-- A page that sees these groups. -/
def page (groups : List Group) : Page := { rows := .ok groups }

/-- A sweep one group at a time. -/
def single : SyncAllGroupsJobData := { chainId := 1, batchSize := some 1 }

/-- A sweep two groups at a time. -/
def paired : SyncAllGroupsJobData := { chainId := 1, batchSize := some 2 }

/-- Two pages of a sweep, while three groups are active. -/
def pages : List Page :=
  List.replicate 2 (page [group 7, group 8, group 9])

/-- Nothing has been queued. -/
def empty : Queue JobData := fun _ => none

/-- The queue after a sweep whose job a worker has finished. -/
def synced : Queue JobData :=
  (handleSyncAllGroups single [page [group 7], page [group 7]] 0 empty).2.run
    [.take 0 7, .finish 0 7 true]

end Sample

/-- The first sweep of three groups, two to a page, covers them. -/
theorem covered_sample :
    (handleSyncAllGroups Sample.paired Sample.pages 0 Sample.empty).1 = some (.ok ()) ∧
    (∀ g ∈ [7, 8, 9], Sample.pages.all (·.shows g) = true) ∧
    Covered Sample.paired Sample.pages Sample.empty := by
  refine ⟨by decide, by decide, (covered_iff _ _ _ (by decide)).mpr fun g hg => ?_⟩
  have hshown : (Sample.page [Sample.group 7, Sample.group 8, Sample.group 9]).shows g = true :=
    List.all_eq_true.mp hg (0, _) List.mem_cons_self
  have hgroup : 7 = g ∨ 8 = g ∨ 9 = g := by
    simpa [Page.shows, Sample.page, Sample.group] using hshown
  obtain rfl | rfl | rfl := hgroup <;> decide

/-- **A group that has been synchronised before** gets no job that can run: the sweep finishes, the
completed job is kept, and the new one is ignored. -/
theorem not_covered :
    (handleSyncAllGroups Sample.single [Sample.page [Sample.group 7], Sample.page [Sample.group 7]] 0
      Sample.synced).1 = some (.ok ()) ∧
    ¬ Covered Sample.single [Sample.page [Sample.group 7], Sample.page [Sample.group 7]]
      Sample.synced :=
  ⟨by decide, fun h => absurd (h 7 (by decide)) (by decide)⟩

/-- A group is left out when another one leaves the active ones between two pages. -/
example : (handleSyncAllGroups Sample.single [Sample.page [Sample.group 7, Sample.group 8],
    Sample.page [Sample.group 8]] 0 Sample.empty).2 8 = none := by decide

end Ahjoor.GroupSync
