import Ahjoor.Encryption.Batches

/-!
# Campaigns

Runs of the rotation, one after another and each stopped anywhere, keep the tables *consistent*:
the stored progress counts the rows that the campaign towards its version has rewritten, each once,
none of them beyond the cursor; and as long as it counts no failure, no stale value is left behind
the cursor, nor anywhere once it says `completed`. The progress changes in the database only
together with the rows it speaks of, so that no crash can come between them.
-/

namespace Ahjoor.KeyRotation

open Async

variable {ι : Type} [LinearOrder ι]

/-! ### Consistent tables -/

/-- The rows that the campaign towards the version has rewritten so far, newest first. -/
def rewritten (version : ℕ) : List (Write ι) → List ι
  | [] => []
  | .update id _ :: log => id :: rewritten version log
  | .enter _ _ _ :: log => rewritten version log
  | .upsertProgress p :: log => if p.targetKeyVersion = version then rewritten version log else []

section

variable (node : Node) (target : RotationTarget)

/-- No value of the target columns is stale. -/
def AllRotated (version : ℕ) (d : Tables ι) : Prop :=
  ∀ id, ∀ column ∈ target.columns, ∀ value, d.value id column = some value → ¬ Stale node version value

/-- The cursor has passed the row. -/
def Passed (p : StoredProgress ι) (id : ι) : Prop := ∃ last, p.lastProcessedId = some last ∧ id ≤ last

/-- What the stored progress says is so. -/
structure Tracked (d : Tables ι) (p : StoredProgress ι) : Prop where
  counted : p.rowsReencrypted = (rewritten p.targetKeyVersion d.log).length
  once : (rewritten p.targetKeyVersion d.log).Nodup
  passed : ∀ id ∈ rewritten p.targetKeyVersion d.log, Passed p id
  behind : p.rowsFailed = 0 → ∀ id, Passed p id → ∀ column ∈ target.columns, ∀ value,
    d.value id column = some value → ¬ Stale node p.targetKeyVersion value
  finished : p.status = .completed → p.rowsFailed = 0 → AllRotated node target p.targetKeyVersion d

/-- The ids are distinct, and the stored progress is the last thing written and tells the truth. -/
structure Consistent (d : Tables ι) : Prop where
  nodup : d.ids.Nodup
  logged : match d.progress with
    | none => d.log = []
    | some p => (∃ log, d.log = .upsertProgress p :: log) ∧ Tracked node target d p

/-- Decryption yields the same for every value. -/
def SamePlaintexts (registry : KeyRegistry) (d d' : Tables ι) : Prop :=
  ∀ id column, (d'.value id column).map (decrypt node registry) =
    (d.value id column).map (decrypt node registry)

/-- The stored progress counts no failure. -/
def NoFailures (d : Tables ι) : Prop := ∀ p, d.progress = some p → p.rowsFailed = 0

end

variable {node : Node} {target : RotationTarget} {d : Tables ι} {p q : StoredProgress ι}

theorem Consistent.tracked (hd : Consistent node target d) (hp : d.progress = some p) :
    Tracked node target d p := by
  have h := hd.logged
  rw [hp] at h
  exact h.2

omit [LinearOrder ι] in
theorem rewritten_upsert (hversion : q.targetKeyVersion = p.targetKeyVersion) :
    rewritten q.targetKeyVersion (.upsertProgress q :: d.log) = rewritten p.targetKeyVersion d.log := by
  rw [rewritten, if_pos rfl, hversion]

/-- Storing the same progress under another status: `completed` needs that every row is passed. -/
theorem Consistent.save (hd : Consistent node target d) (hp : d.progress = some p)
    {status : RotationStatus} (hq : q = { p with status })
    (hfinished : status = .completed → ∀ id ∈ d.ids, Passed p id) :
    Consistent node target (d.apply (.upsertProgress q)) := by
  have ht := hd.tracked hp
  have hlog := rewritten_upsert (d := d) (show q.targetKeyVersion = p.targetKeyVersion by rw [hq])
  refine ⟨by rw [Tables.ids_apply]; exact hd.nodup, ⟨d.log, rfl⟩, ?_⟩
  subst hq
  refine ⟨?_, ?_, ?_, ?_, ?_⟩
  · exact ht.counted.trans (congrArg List.length hlog.symm)
  · exact hlog.symm ▸ ht.once
  · intro id hid
    exact ht.passed id (hlog ▸ hid)
  · exact ht.behind
  · intro hstatus hfailed id column hcolumn value hvalue
    -- a row that has a value is in the table, and so it is behind the cursor
    have hid : id ∈ d.ids := by
      by_contra hid
      rw [Tables.value_upsertProgress, Tables.value_eq_none hid] at hvalue
      cases hvalue
    exact ht.behind hfailed id (hfinished hstatus id hid) column hcolumn value hvalue

/-- A new campaign. -/
theorem Consistent.begin (hd : Consistent node target d)
    (hnew : ∀ p, d.progress = some p → p.targetKeyVersion ≠ q.targetKeyVersion)
    (hq : q.rowsReencrypted = 0) (hlast : q.lastProcessedId = none) (hstatus : q.status = .running) :
    Consistent node target (d.apply (.upsertProgress q)) := by
  have hlog : rewritten q.targetKeyVersion (.upsertProgress q :: d.log) = [] := by
    rw [rewritten, if_pos rfl]
    have h := hd.logged
    cases hp : d.progress with
    | none =>
      rw [hp] at h
      rw [h, rewritten]
    | some p =>
      rw [hp] at h
      obtain ⟨⟨log, hlog⟩, -⟩ := h
      rw [hlog, rewritten, if_neg (hnew p hp)]
  refine ⟨by rw [Tables.ids_apply]; exact hd.nodup, ⟨d.log, rfl⟩, ?_⟩
  have hnone : ∀ id, ¬ Passed q id := by
    rintro id ⟨last, h, -⟩
    rw [hlast] at h
    cases h
  refine ⟨?_, ?_, ?_, ?_, ?_⟩
  · exact hq.trans (congrArg List.length hlog.symm)
  · exact hlog.symm ▸ List.nodup_nil
  · intro id hid
    exact absurd (hlog ▸ hid) List.not_mem_nil
  · exact fun _ id hpassed => absurd hpassed (hnone id)
  · intro h
    rw [hstatus] at h
    cases h

/-! ### One batch -/

/-- The updates of a batch as writes. -/
def updates (us : List (ι × List (String × String))) : List (Write ι) :=
  us.map fun u => .update u.1 u.2

@[simp] theorem Tables.ids_foldl (xs : List (Write ι)) : (xs.foldl Tables.apply d).ids = d.ids := by
  induction xs generalizing d with
  | nil => rfl
  | cons x xs ih => rw [List.foldl_cons, ih, Tables.ids_apply]

theorem Tables.log_foldl (xs : List (Write ι)) :
    (xs.foldl Tables.apply d).log = xs.reverse ++ d.log := by
  induction xs generalizing d with
  | nil => rfl
  | cons x xs ih =>
    rw [List.foldl_cons, ih, List.reverse_cons, List.append_assoc]
    rfl

theorem Tables.value_foldl_of_ne {xs : List (Write ι)} {id : ι}
    (h : ∀ x ∈ xs, x.resource ≠ some id) (column : String) :
    (xs.foldl Tables.apply d).value id column = d.value id column := by
  induction xs generalizing d with
  | nil => rfl
  | cons x xs ih =>
    rw [List.foldl_cons, ih fun x' hx' => h x' (List.mem_cons_of_mem _ hx')]
    exact Tables.value_apply_of_ne (h x List.mem_cons_self) column

omit [LinearOrder ι] in
theorem rewritten_updates (version : ℕ) (us : List (ι × List (String × String)))
    (log : List (Write ι)) :
    rewritten version ((updates us).reverse ++ log) =
      (us.map (·.1)).reverse ++ rewritten version log := by
  induction us generalizing log with
  | nil => rfl
  | cons u us ih =>
    have hsplit : (updates (u :: us)).reverse ++ log =
        (updates us).reverse ++ (.update u.1 u.2 :: log) := by
      simp [updates]
    rw [hsplit, ih, List.map_cons, List.reverse_cons, List.append_assoc]
    rfl

/-- What the updates of a batch leave in a row that they name. -/
theorem value_updates {us : List (ι × List (String × String))} (hus : (us.map (·.1)).Nodup) {id : ι}
    {values : List (String × String)} (hmem : (id, values) ∈ us) (hid : id ∈ d.ids) (column : String) :
    ((updates us).foldl Tables.apply d).value id column =
      (values.lookup column).or (d.value id column) := by
  induction us generalizing d with
  | nil => cases hmem
  | cons u us ih =>
    rw [List.map_cons, List.nodup_cons] at hus
    rcases List.mem_cons.mp hmem with rfl | hmem
    · -- the rest names other rows
      have hrest : ∀ x ∈ updates us, x.resource ≠ some id := by
        intro x hx heq
        obtain ⟨u, hu, rfl⟩ := List.mem_map.mp hx
        exact hus.1 (List.mem_map.mpr ⟨u, hu, Option.some.inj heq⟩)
      exact (Tables.value_foldl_of_ne hrest column).trans (Tables.value_update hid values column)
    · have hne : u.1 ≠ id := by
        rintro rfl
        exact hus.1 (List.mem_map.mpr ⟨_, hmem, rfl⟩)
      have hstep := ih (d := d.apply (.update u.1 u.2)) hus.2 hmem (by rwa [Tables.ids_apply])
      have hkeep : (d.apply (.update u.1 u.2)).value id column = d.value id column :=
        Tables.value_apply_of_ne (x := .update u.1 u.2) (fun heq => hne (Option.some.inj heq)) column
      rw [hkeep] at hstep
      exact hstep

section Batch

variable {registry : KeyRegistry} {env : RegistryEnv} {iv : ι → String → List UInt8} {limit : ℕ}

/-- The progress that is stored with a batch. -/
def batchProgress (node : Node) (registry : KeyRegistry) (target : RotationTarget)
    (activeVersion : ℕ) (iv : ι → String → List UInt8) (rows : List (RotationRow ι))
    (p : StoredProgress ι) : StoredProgress ι :=
  { scannedProgress node registry target activeVersion iv rows p with
    rowsReencrypted :=
      p.rowsReencrypted + (rowUpdates node registry target activeVersion iv rows).length }

/-- The writes of a batch's transaction. -/
def batchWrites (node : Node) (registry : KeyRegistry) (target : RotationTarget)
    (activeVersion : ℕ) (iv : ι → String → List UInt8) (rows : List (RotationRow ι))
    (p : StoredProgress ι) : List (Write ι) :=
  updates (rowUpdates node registry target activeVersion iv rows) ++
    [.upsertProgress (batchProgress node registry target activeVersion iv rows p)]

variable {activeVersion : ℕ}

/-- What a batch leaves in a row that it has read. -/
theorem value_batch (hd : d.ids.Nodup) {afterId : Option ι} {row : RotationRow ι}
    (hrow : row ∈ d.batch target.columns afterId limit) (column : String) :
    ((batchWrites node registry target activeVersion iv (d.batch target.columns afterId limit)
        p).foldl Tables.apply d).value row.id column =
      ((scanned node registry target activeVersion iv row).2.lookup column).or
        (d.value row.id column) := by
  have hsorted := Tables.pairwise_batch target.columns afterId limit hd
  have hnodup : ((d.batch target.columns afterId limit).map (·.id)).Nodup :=
    List.pairwise_map.mpr (hsorted.imp fun h => ne_of_lt h)
  have hus : ((rowUpdates node registry target activeVersion iv
      (d.batch target.columns afterId limit)).map (·.1)).Nodup :=
    hnodup.sublist (rowUpdates_sublist _)
  rw [batchWrites, List.foldl_append]
  refine (Tables.value_upsertProgress ..).trans ?_
  by_cases hempty : (scanned node registry target activeVersion iv row).2 = []
  · rw [hempty, List.lookup_nil, Option.none_or]
    refine Tables.value_foldl_of_ne (fun x hx heq => ?_) column
    obtain ⟨⟨id, values⟩, hu, rfl⟩ := List.mem_map.mp hx
    obtain ⟨hne, r, hr, hid, hvalues⟩ := mem_rowUpdates.mp hu
    have hsame : r = row := List.inj_on_of_nodup_map hnodup hr hrow
      (hid.trans (Option.some.inj heq))
    rw [← hvalues, hsame] at hne
    exact hne hempty
  · exact value_updates hus (mem_rowUpdates.mpr ⟨hempty, row, hrow, rfl, rfl⟩)
      (Tables.of_mem_batch hd hrow).1 column

/-- A batch leaves the other rows alone. -/
theorem value_batch_of_not_mem {rows : List (RotationRow ι)} {id : ι} (h : ∀ row ∈ rows, row.id ≠ id)
    (column : String) :
    ((batchWrites node registry target activeVersion iv rows p).foldl Tables.apply d).value id column =
      d.value id column := by
  refine Tables.value_foldl_of_ne (fun x hx heq => ?_) column
  rcases List.mem_append.mp hx with hx | hx
  · obtain ⟨⟨id', values⟩, hu, rfl⟩ := List.mem_map.mp hx
    obtain ⟨-, row, hrow, hid, -⟩ := mem_rowUpdates.mp hu
    exact h row hrow (hid.trans (Option.some.inj heq))
  · obtain rfl := List.mem_singleton.mp hx
    cases heq

/-- **A batch keeps the plaintexts.** -/
theorem samePlaintexts_batch (hbuild : buildRegistry node env = .ok registry)
    (hdigits : registry.LabelsInDigits) (hd : d.ids.Nodup) {afterId : Option ι} :
    SamePlaintexts node registry d
      ((batchWrites node registry target activeVersion iv (d.batch target.columns afterId limit)
        p).foldl Tables.apply d) := by
  intro id column
  by_cases hmem : ∃ row ∈ d.batch target.columns afterId limit, row.id = id
  · obtain ⟨row, hrow, rfl⟩ := hmem
    rw [value_batch hd hrow column]
    cases hlookup : (scanned node registry target activeVersion iv row).2.lookup column with
    | none => rw [Option.none_or]
    | some c =>
      obtain ⟨l₁, l₂, hsplit, -⟩ := List.lookup_eq_some_iff.mp hlookup
      have hc : (column, c) ∈ (scanned node registry target activeVersion iv row).2 :=
        hsplit ▸ List.mem_append_right _ List.mem_cons_self
      obtain ⟨hcolumn, value, hvalue, -, hre⟩ := of_mem_scanned hc
      have hold : d.value row.id column = some value :=
        ((Tables.of_mem_batch hd hrow).2.2 column hcolumn).symm.trans hvalue
      rw [hold, Option.some_or, Option.map_some, Option.map_some,
        decrypt_reencrypt hbuild hdigits hre]
  · rw [value_batch_of_not_mem fun row hrow hid => hmem ⟨row, hrow, hid⟩]

variable (node registry target activeVersion iv) in
/-- The last row of a batch is its greatest. -/
theorem passed_batch (hd : d.ids.Nodup) {row : RotationRow ι}
    (hrow : row ∈ d.batch target.columns p.lastProcessedId limit) :
    Passed (batchProgress node registry target activeVersion iv
      (d.batch target.columns p.lastProcessedId limit) p) row.id := by
  have hsorted := Tables.pairwise_batch target.columns p.lastProcessedId limit hd
  have hlast := List.getLast?_eq_some_getLast (List.ne_nil_of_mem hrow)
  refine ⟨_, by rw [batchProgress, scannedProgress, hlast]; rfl, ?_⟩
  -- the row is the last one, or it comes before it
  rcases List.mem_append.mp ((List.dropLast_append_getLast (List.ne_nil_of_mem hrow)).symm ▸ hrow)
    with hbefore | hsame
  · have hpair := (List.dropLast_append_getLast (List.ne_nil_of_mem hrow)).symm ▸ hsorted
    exact ((List.pairwise_append.mp hpair).2.2 row hbefore _ (List.mem_singleton_self _)).le
  · exact (congrArg (·.id) (List.mem_singleton.mp hsame)).le

/-- The cursor only moves on. -/
theorem passed_batch_of_passed (hd : d.ids.Nodup) {id : ι} (h : Passed p id) :
    Passed (batchProgress node registry target activeVersion iv
      (d.batch target.columns p.lastProcessedId limit) p) id := by
  obtain ⟨last, hlast, hle⟩ := h
  cases hbatch : (d.batch target.columns p.lastProcessedId limit).getLast? with
  | none =>
    refine ⟨last, ?_, hle⟩
    rw [batchProgress, scannedProgress, hbatch]
    exact hlast
  | some row =>
    have hrow := List.mem_of_getLast? hbatch
    obtain ⟨last', hlast', hle'⟩ := passed_batch node target registry iv activeVersion hd hrow
    have hlt := (Tables.of_mem_batch hd hrow).2.1 last hlast
    exact ⟨last', hlast', hle.trans (hlt.le.trans hle')⟩

/-- The progress that a batch stores. -/
theorem progress_batch (rows : List (RotationRow ι)) :
    ((batchWrites node registry target activeVersion iv rows p).foldl Tables.apply d).progress =
      some (batchProgress node registry target activeVersion iv rows p) := by
  rw [batchWrites, List.foldl_append]
  rfl

/-- A row that the batch has not read is behind the new cursor only if it was behind the old one. -/
theorem passed_of_not_mem (hd : d.ids.Nodup) {id : ι} (hid : id ∈ d.ids)
    (hpassed : Passed (batchProgress node registry target activeVersion iv
      (d.batch target.columns p.lastProcessedId limit) p) id)
    (hmem : ¬ ∃ row ∈ d.batch target.columns p.lastProcessedId limit, row.id = id) : Passed p id := by
  obtain ⟨last, hlast, hle⟩ := hpassed
  by_contra hnot
  have hafter : ∀ last ∈ p.lastProcessedId, last < id := fun last hlast =>
    not_le.mp fun hle => hnot ⟨last, hlast, hle⟩
  rw [batchProgress, scannedProgress] at hlast
  cases hbatch : (d.batch target.columns p.lastProcessedId limit).getLast? with
  | none =>
    rw [hbatch] at hlast
    exact hnot ⟨last, hlast, hle⟩
  | some row =>
    rw [hbatch] at hlast
    have hrow : row.id = last := Option.some.inj hlast
    exact hmem (Tables.exists_mem_batch hd hid hafter (List.mem_of_getLast? hbatch) (hrow ▸ hle))

/-- Without failures, no stale value is left behind the new cursor. -/
theorem behind_batch (hbuild : buildRegistry node env = .ok registry)
    (hmode : registry.mode = .versioned) (hdigits : registry.LabelsInDigits)
    (hd : Consistent node target d) (hp : d.progress = some p)
    (hversion : p.targetKeyVersion = registry.activeVersion)
    (hfailed : (batchProgress node registry target registry.activeVersion iv
      (d.batch target.columns p.lastProcessedId limit) p).rowsFailed = 0) {id : ι}
    (hpassed : Passed (batchProgress node registry target registry.activeVersion iv
      (d.batch target.columns p.lastProcessedId limit) p) id) {column value : String}
    (hcolumn : column ∈ target.columns)
    (hvalue : ((batchWrites node registry target registry.activeVersion iv
      (d.batch target.columns p.lastProcessedId limit) p).foldl Tables.apply d).value id column =
        some value) : ¬ Stale node registry.activeVersion value := by
  intro hstale
  obtain ⟨hp₀, hsum⟩ := Nat.add_eq_zero_iff.mp hfailed
  by_cases hmem : ∃ row ∈ d.batch target.columns p.lastProcessedId limit, row.id = id
  · obtain ⟨row, hrow, rfl⟩ := hmem
    rw [value_batch hd.nodup hrow column] at hvalue
    cases hlookup : (scanned node registry target registry.activeVersion iv row).2.lookup column with
    | some c =>
      -- a new value is at the active version
      rw [hlookup, Option.some_or] at hvalue
      obtain ⟨l₁, l₂, hsplit, -⟩ := List.lookup_eq_some_iff.mp hlookup
      obtain ⟨-, _, -, -, hre⟩ := of_mem_scanned
        (show (column, c) ∈ _ from hsplit ▸ List.mem_append_right _ List.mem_cons_self)
      rw [← Option.some.inj hvalue] at hstale
      exact hstale.2 (version_reencrypt hbuild hmode hdigits hre)
    | none =>
      -- a value that is kept is not stale, or it has failed
      rw [hlookup, Option.none_or] at hvalue
      have hread := ((Tables.of_mem_batch hd.nodup hrow).2.2 column hcolumn).trans hvalue
      rcases scanned_complete registry iv hcolumn hread hstale with h | ⟨h, -⟩
      · rw [hlookup] at h
        cases h
      · have hzero := List.sum_eq_zero_iff.mp hsum _ (List.mem_map_of_mem hrow)
        exact absurd hzero h.ne'
  · rw [value_batch_of_not_mem fun row hrow hid => hmem ⟨row, hrow, hid⟩] at hvalue
    have hid : id ∈ d.ids := by
      by_contra hid
      rw [Tables.value_eq_none hid] at hvalue
      cases hvalue
    have hbehind := (hd.tracked hp).behind hp₀ id (passed_of_not_mem hd.nodup hid hpassed hmem)
      column hcolumn value hvalue
    rw [hversion] at hbehind
    exact hbehind hstale

/-- **A batch keeps the tables consistent.** -/
theorem Consistent.batch (hbuild : buildRegistry node env = .ok registry)
    (hmode : registry.mode = .versioned) (hdigits : registry.LabelsInDigits)
    (hd : Consistent node target d) (hp : d.progress = some p)
    (hversion : p.targetKeyVersion = registry.activeVersion) (hstatus : p.status ≠ .completed) :
    Consistent node target
      ((batchWrites node registry target registry.activeVersion iv
        (d.batch target.columns p.lastProcessedId limit) p).foldl Tables.apply d) := by
  have ht := hd.tracked hp
  generalize hq : batchProgress node registry target registry.activeVersion iv
    (d.batch target.columns p.lastProcessedId limit) p = q
  have hqversion : q.targetKeyVersion = p.targetKeyVersion := by rw [← hq]; rfl
  have hlog : ((batchWrites node registry target registry.activeVersion iv
      (d.batch target.columns p.lastProcessedId limit) p).foldl Tables.apply d).log =
      .upsertProgress q :: ((updates (rowUpdates node registry target registry.activeVersion iv
        (d.batch target.columns p.lastProcessedId limit))).reverse ++ d.log) := by
    rw [Tables.log_foldl, batchWrites, hq, List.reverse_append]
    rfl
  have hrewritten : rewritten q.targetKeyVersion ((batchWrites node registry target
      registry.activeVersion iv (d.batch target.columns p.lastProcessedId limit) p).foldl
        Tables.apply d).log =
      ((rowUpdates node registry target registry.activeVersion iv
        (d.batch target.columns p.lastProcessedId limit)).map (·.1)).reverse ++
        rewritten p.targetKeyVersion d.log := by
    rw [hlog, rewritten, if_pos rfl, rewritten_updates, hqversion]
  -- the ids of the updates are ids of the batch, and those come after the cursor
  have hupdated : ∀ u ∈ rowUpdates node registry target registry.activeVersion iv
      (d.batch target.columns p.lastProcessedId limit),
      ∃ row ∈ d.batch target.columns p.lastProcessedId limit, row.id = u.1 := by
    intro u hu
    obtain ⟨-, row, hrow, hid, -⟩ := mem_rowUpdates.mp (show (u.1, u.2) ∈ _ from hu)
    exact ⟨row, hrow, hid⟩
  refine ⟨by rw [Tables.ids_foldl]; exact hd.nodup, ?_⟩
  rw [progress_batch, hq]
  refine ⟨⟨_, hlog⟩, ?_, ?_, ?_, ?_, ?_⟩
  · rw [hrewritten, List.length_append, List.length_reverse, List.length_map, ← ht.counted, ← hq]
    exact Nat.add_comm ..
  · rw [hrewritten]
    have hnodup : ((d.batch target.columns p.lastProcessedId limit).map (·.id)).Nodup :=
      List.pairwise_map.mpr ((Tables.pairwise_batch _ _ _ hd.nodup).imp fun h => ne_of_lt h)
    refine List.nodup_append.mpr
      ⟨List.nodup_reverse.mpr (hnodup.sublist (rowUpdates_sublist _)), ht.once, ?_⟩
    rintro id hid id' hid' rfl
    obtain ⟨u, hu, rfl⟩ := List.mem_map.mp (List.mem_reverse.mp hid)
    obtain ⟨row, hrow, hrowid⟩ := hupdated u hu
    obtain ⟨last, hlast, hle⟩ := ht.passed _ hid'
    have hlt := (Tables.of_mem_batch hd.nodup hrow).2.1 last hlast
    rw [hrowid] at hlt
    exact absurd hle (not_le.mpr hlt)
  · intro id hid
    rw [hrewritten] at hid
    rw [← hq]
    rcases List.mem_append.mp hid with hid | hid
    · obtain ⟨u, hu, rfl⟩ := List.mem_map.mp (List.mem_reverse.mp hid)
      obtain ⟨row, hrow, hrowid⟩ := hupdated u hu
      exact hrowid ▸ passed_batch _ _ _ _ _ hd.nodup hrow
    · exact passed_batch_of_passed hd.nodup (ht.passed id hid)
  · intro hfailed id hpassed column hcolumn value hvalue
    rw [hqversion, hversion]
    rw [← hq] at hfailed hpassed
    exact behind_batch hbuild hmode hdigits hd hp hversion hfailed hpassed hcolumn hvalue
  · intro h
    rw [← hq] at h
    exact absurd h hstatus

/-- An empty batch means that every row is passed. -/
theorem passed_of_empty (hlimit : 1 ≤ limit)
    (hempty : d.batch target.columns p.lastProcessedId limit = []) : ∀ id ∈ d.ids, Passed p id := by
  intro id hid
  by_contra hnot
  have hafter : ∀ last ∈ p.lastProcessedId, last < id := fun last hlast =>
    not_le.mp fun hle => hnot ⟨last, hlast, hle⟩
  obtain ⟨r, hr, -⟩ := Tables.exists_mem_batch_of_lt target.columns limit
    hid hafter (by rw [hempty, List.length_nil]; omega)
  rw [hempty] at hr
  cases hr

/-- After a batch that is not full, every row is passed. -/
theorem passed_of_short (hd : d.ids.Nodup)
    (hshort : (d.batch target.columns p.lastProcessedId limit).length < limit) :
    ∀ id ∈ d.ids, Passed (batchProgress node registry target activeVersion iv
      (d.batch target.columns p.lastProcessedId limit) p) id := by
  intro id hid
  by_cases hpassed : Passed p id
  · exact passed_batch_of_passed hd hpassed
  · have hafter : ∀ last ∈ p.lastProcessedId, last < id := fun last hlast =>
      not_le.mp fun hle => hpassed ⟨last, hlast, hle⟩
    obtain ⟨r, hr, rfl⟩ := Tables.exists_mem_batch_of_lt _ _ hid hafter hshort
    exact passed_batch _ _ _ _ _ hd hr

/-- Every stale value up to the cursor can be decrypted. -/
def ReadsBatch (node : Node) (target : RotationTarget) (registry : KeyRegistry) (d : Tables ι)
    (p : StoredProgress ι) : Prop :=
  ∀ id, Passed p id → ∀ column ∈ target.columns, ∀ value, d.value id column = some value →
    Stale node registry.activeVersion value → ∃ plaintext, decrypt node registry value = .ok plaintext

/-- A batch whose stale values can all be decrypted adds no failure. -/
theorem rowsFailed_batch (hbuild : buildRegistry node env = .ok registry) (hd : d.ids.Nodup)
    (hreads : ReadsBatch node target registry d (batchProgress node registry target
      registry.activeVersion iv (d.batch target.columns p.lastProcessedId limit) p)) :
    (batchProgress node registry target registry.activeVersion iv
      (d.batch target.columns p.lastProcessedId limit) p).rowsFailed = p.rowsFailed := by
  refine Nat.add_eq_left.mpr (List.sum_eq_zero_iff.mpr fun n hn => ?_)
  obtain ⟨row, hrow, rfl⟩ := List.mem_map.mp hn
  by_contra hpos
  obtain ⟨column, hcolumn, value, hvalue, hstale, e, he⟩ :=
    exists_of_scanned_failure (Nat.pos_of_ne_zero hpos)
  have htable := ((Tables.of_mem_batch hd hrow).2.2 column hcolumn).symm.trans hvalue
  obtain ⟨plaintext, hplaintext⟩ :=
    hreads row.id (passed_batch _ _ _ _ _ hd hrow) column hcolumn value htable hstale
  obtain ⟨c, hc⟩ := reencrypt_of_decrypt hbuild (iv row.id column) hplaintext
  rw [hc] at he
  cases he

end Batch

end Ahjoor.KeyRotation
