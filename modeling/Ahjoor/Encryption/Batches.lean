import Ahjoor.Encryption.KeyRotation
import Ahjoor.Encryption.Readable

/-!
# One batch of a rotation

What a batch reads, what it makes of it and what it writes, apart from the database's transactions:

* the rows of a batch are those right after the cursor, in the order of their ids, so that nothing
  is left out between the cursor and the last row of the batch;
* the scan re-encrypts, in each row, the values that are not at the active version and can be
  decrypted, and it counts the others;
* an update changes the columns that it sets in the row that it names, and nothing else.
-/

namespace Ahjoor.KeyRotation

variable {ι : Type}

/-! ### Values in the table -/

section Values

variable [LinearOrder ι]

/-- The value of a column in the row with the given id. -/
def Tables.value (d : Tables ι) (id : ι) (column : String) : Option String :=
  (d.rows.find? fun row => row.id = id).bind fun row => row.value column

/-- The ids of the rows. -/
def Tables.ids (d : Tables ι) : List ι := d.rows.map (·.id)

theorem Tables.value_of_mem {d : Tables ι} (hd : d.ids.Nodup) {row : RotationRow ι}
    (hrow : row ∈ d.rows) (column : String) : d.value row.id column = row.value column := by
  have hfind : d.rows.find? (fun r => r.id = row.id) = some row := by
    unfold Tables.ids at hd
    generalize d.rows = rows at hd hrow
    induction rows with
    | nil => cases hrow
    | cons r rows ih =>
      rw [List.map_cons, List.nodup_cons] at hd
      rcases List.mem_cons.mp hrow with rfl | hrow
      · rw [List.find?_cons_of_pos (by simp)]
      · have hne : r.id ≠ row.id := fun h => hd.1 (h ▸ List.mem_map_of_mem hrow)
        rw [List.find?_cons_of_neg (by simpa using hne)]
        exact ih hd.2 hrow
  rw [Tables.value, hfind]
  rfl

theorem Tables.mem_of_value {d : Tables ι} {id : ι} {column value : String}
    (h : d.value id column = some value) :
    ∃ row ∈ d.rows, row.id = id ∧ row.value column = some value := by
  obtain ⟨row, hfind, hvalue⟩ := Option.bind_eq_some_iff.mp h
  exact ⟨row, List.mem_of_find?_eq_some hfind, by simpa using List.find?_some hfind, hvalue⟩

theorem Tables.value_eq_none {d : Tables ι} {id : ι} (h : id ∉ d.ids) (column : String) :
    d.value id column = none := by
  have hfind : d.rows.find? (fun row => row.id = id) = none := by
    rw [List.find?_eq_none]
    intro row hrow heq
    exact h (List.mem_map.mpr ⟨row, hrow, by simpa using heq⟩)
  rw [Tables.value, hfind]
  rfl

/-- What a change of the row with the given id does to the values. -/
theorem value_map_row (rows : List (RotationRow ι)) {f : RotationRow ι → RotationRow ι}
    (hf : ∀ row, (f row).id = row.id) (id id' : ι) (column : String) :
    ((rows.map fun row => if row.id = id then f row else row).find? fun row => row.id = id').bind
        (fun row => row.value column) =
      (rows.find? fun row => row.id = id').bind fun row =>
        if id' = id then (f row).value column else row.value column := by
  have hcongr : ((fun row => decide (row.id = id')) ∘ fun row => if row.id = id then f row else row) =
      fun row : RotationRow ι => decide (row.id = id') := by
    funext row
    by_cases h : row.id = id <;> simp [h, hf]
  rw [List.find?_map, hcongr]
  cases hrow : rows.find? fun row => row.id = id' with
  | none => rfl
  | some row =>
    have hid : row.id = id' := by simpa using List.find?_some hrow
    rw [Option.map_some, Option.bind_some, Option.bind_some, hid]
    by_cases h : id' = id <;> simp [h]

@[simp] theorem Tables.ids_apply (d : Tables ι) (x : Write ι) : (d.apply x).ids = d.ids := by
  cases x with
  | update id values =>
    simp only [Tables.ids, Tables.apply, List.map_map]
    refine List.map_congr_left fun row _ => ?_
    by_cases h : row.id = id <;> simp [h, RotationRow.set]
  | enter id column value =>
    simp only [Tables.ids, Tables.apply, List.map_map]
    refine List.map_congr_left fun row _ => ?_
    by_cases h : row.id = id <;> simp [h]
  | upsertProgress p => rfl

@[simp] theorem Tables.value_upsertProgress (d : Tables ι) (p : StoredProgress ι) (id : ι)
    (column : String) : (d.apply (.upsertProgress p)).value id column = d.value id column := rfl

/-- An update changes the columns that it sets, in its row. -/
theorem Tables.value_update {d : Tables ι} {id : ι} (hid : id ∈ d.ids)
    (values : List (String × String)) (column : String) :
    (d.apply (.update id values)).value id column = (values.lookup column).or (d.value id column) := by
  obtain ⟨row, hrow⟩ : ∃ row, d.rows.find? (fun row => row.id = id) = some row := by
    rw [← Option.isSome_iff_exists, List.find?_isSome]
    obtain ⟨row, hmem, heq⟩ := List.mem_map.mp hid
    exact ⟨row, hmem, by simpa using heq⟩
  have hmap := value_map_row d.rows (f := RotationRow.set values) (fun _ => rfl) id id column
  rw [hrow] at hmap
  simpa [Tables.value, hrow, Tables.apply, RotationRow.set] using hmap

/-- The application's write sets one value. -/
theorem Tables.value_enter {d : Tables ι} {id : ι} (hid : id ∈ d.ids) (column : String)
    (value : Option String) (column' : String) :
    (d.apply (.enter id column value)).value id column' =
      if column' = column then value else d.value id column' := by
  obtain ⟨row, hrow⟩ : ∃ row, d.rows.find? (fun row => row.id = id) = some row := by
    rw [← Option.isSome_iff_exists, List.find?_isSome]
    obtain ⟨row, hmem, heq⟩ := List.mem_map.mp hid
    exact ⟨row, hmem, by simpa using heq⟩
  have hmap := value_map_row d.rows
    (f := fun row => { row with value := Function.update row.value column value })
    (fun _ => rfl) id id column'
  rw [hrow] at hmap
  simpa [Tables.value, hrow, Tables.apply, Function.update_apply] using hmap

/-- A write changes nothing in another row. -/
theorem Tables.value_apply_of_ne {d : Tables ι} {x : Write ι} {id : ι}
    (h : x.resource ≠ some id) (column : String) : (d.apply x).value id column = d.value id column := by
  cases x with
  | update id' values =>
    have hne : id ≠ id' := fun heq => h (by rw [heq]; rfl)
    have hmap := value_map_row d.rows (f := RotationRow.set values) (fun _ => rfl) id' id column
    simp only [if_neg hne] at hmap
    exact hmap
  | enter id' column' value =>
    have hne : id ≠ id' := fun heq => h (by rw [heq]; rfl)
    have hmap := value_map_row d.rows
      (f := fun row => { row with value := Function.update row.value column' value })
      (fun _ => rfl) id' id column
    simp only [if_neg hne] at hmap
    exact hmap
  | upsertProgress p => rfl

end Values

/-! ### The rows of a batch -/

section Batch

variable [LinearOrder ι] {d : Tables ι} {columns : List String} {afterId : Option ι} {limit : ℕ}

/-- The rows after the cursor, in order. -/
def Tables.after (d : Tables ι) (afterId : Option ι) : List (RotationRow ι) :=
  (d.rows.filter fun row => afterId.all (· < row.id)).mergeSort fun a b => a.id ≤ b.id

theorem Tables.batch_eq : d.batch columns afterId limit =
    ((d.after afterId).take limit).map (·.select columns) := rfl

theorem Tables.mem_after {row : RotationRow ι} :
    row ∈ d.after afterId ↔ row ∈ d.rows ∧ ∀ last ∈ afterId, last < row.id := by
  rw [Tables.after, List.mem_mergeSort, List.mem_filter]
  cases afterId <;> simp

variable (afterId) in
theorem Tables.pairwise_after (hd : d.ids.Nodup) :
    (d.after afterId).Pairwise fun a b => a.id < b.id := by
  have hsorted : (d.after afterId).Pairwise fun a b => a.id ≤ b.id := by
    have h : (d.after afterId).Pairwise fun a b => decide (a.id ≤ b.id) = true :=
      List.pairwise_mergeSort
        (fun a b c hab hbc => by simp only [decide_eq_true_eq] at hab hbc ⊢; exact hab.trans hbc)
        (fun a b => by simpa using le_total a.id b.id) _
    exact h.imp fun hab => by simpa using hab
  have hne : (d.after afterId).Pairwise fun a b => a.id ≠ b.id := by
    have hperm : (d.after afterId).Perm (d.rows.filter fun row => afterId.all (· < row.id)) :=
      List.mergeSort_perm ..
    have hnodup : ((d.rows.filter fun row => afterId.all (· < row.id)).map (·.id)).Nodup :=
      hd.sublist (List.filter_sublist.map _)
    exact List.pairwise_map.mp ((hperm.map _).nodup_iff.mpr hnodup)
  exact (hsorted.and hne).imp fun h => lt_of_le_of_ne h.1 h.2

/-- The rows of a batch are rows of the table after the cursor. -/
theorem Tables.of_mem_batch (hd : d.ids.Nodup) {row : RotationRow ι}
    (h : row ∈ d.batch columns afterId limit) :
    row.id ∈ d.ids ∧ (∀ last ∈ afterId, last < row.id) ∧
      ∀ column ∈ columns, row.value column = d.value row.id column := by
  obtain ⟨r, hr, rfl⟩ := List.mem_map.mp h
  obtain ⟨hmem, hlast⟩ := Tables.mem_after.mp (List.mem_of_mem_take hr)
  refine ⟨List.mem_map.mpr ⟨r, hmem, rfl⟩, hlast, fun column hcolumn => ?_⟩
  have hvalue := Tables.value_of_mem hd hmem column
  simpa [RotationRow.select, hcolumn] using hvalue.symm

variable (columns afterId limit) in
theorem Tables.pairwise_batch (hd : d.ids.Nodup) :
    (d.batch columns afterId limit).Pairwise fun a b => a.id < b.id := by
  rw [Tables.batch_eq, List.pairwise_map]
  exact (Tables.pairwise_after afterId hd).sublist (List.take_sublist ..)

/-- Nothing is left out between the cursor and a row of the batch. -/
theorem Tables.exists_mem_batch (hd : d.ids.Nodup) {id : ι} (hid : id ∈ d.ids)
    (hlast : ∀ last ∈ afterId, last < id) {row : RotationRow ι}
    (hrow : row ∈ d.batch columns afterId limit) (hle : id ≤ row.id) :
    ∃ r ∈ d.batch columns afterId limit, r.id = id := by
  obtain ⟨r, hmem, rfl⟩ := List.mem_map.mp hid
  have hr : r ∈ d.after afterId := Tables.mem_after.mpr ⟨hmem, hlast⟩
  have hpairwise := Tables.pairwise_after afterId hd
  rw [Tables.batch_eq] at hrow ⊢
  obtain ⟨r', hr', rfl⟩ := List.mem_map.mp hrow
  rw [← List.take_append_drop limit (d.after afterId)] at hr hpairwise
  rcases List.mem_append.mp hr with hr | hr
  · exact ⟨_, List.mem_map_of_mem hr, rfl⟩
  · -- a row that was cut off comes after every row of the batch
    have hlt := (List.pairwise_append.mp hpairwise).2.2 r' hr' r hr
    exact absurd hle (not_le.mpr hlt)

variable (columns limit) in
/-- A batch that is not full ends the table. -/
theorem Tables.exists_mem_batch_of_lt {id : ι} (hid : id ∈ d.ids)
    (hlast : ∀ last ∈ afterId, last < id) (hshort : (d.batch columns afterId limit).length < limit) :
    ∃ r ∈ d.batch columns afterId limit, r.id = id := by
  obtain ⟨r, hmem, rfl⟩ := List.mem_map.mp hid
  have hr : r ∈ d.after afterId := Tables.mem_after.mpr ⟨hmem, hlast⟩
  rw [Tables.batch_eq, List.length_map, List.length_take] at hshort
  have hall : (d.after afterId).take limit = d.after afterId :=
    List.take_of_length_le (by omega)
  rw [Tables.batch_eq, hall]
  exact ⟨_, List.mem_map_of_mem hr, rfl⟩

end Batch

/-! ### The scan -/

section Scan

variable (node : Node) (registry : KeyRegistry) (target : RotationTarget) (activeVersion : ℕ)
  (iv : ι → String → List UInt8)

/-- The value has to be brought to the version. -/
def Stale (value : String) : Prop :=
  value ≠ "" ∧ getCiphertextKeyVersion node value ≠ some activeVersion

/-- What the scan of a row yields: the number of failures and the new values. -/
def scanned (row : RotationRow ι) : ℕ × List (String × String) :=
  target.columns.foldl (scanColumn node registry activeVersion (iv row.id) row) (0, [])

/-- The updates of a batch. -/
def rowUpdates (rows : List (RotationRow ι)) : List (ι × List (String × String)) :=
  (rows.map fun row => (row.id, (scanned node registry target activeVersion iv row).2)).filter
    fun u => !u.2.isEmpty

/-- The progress after the scan of a batch. -/
def scannedProgress (rows : List (RotationRow ι)) (progress : StoredProgress ι) :
    StoredProgress ι :=
  { progress with
    rowsScanned := progress.rowsScanned + rows.length
    rowsFailed := progress.rowsFailed +
      (rows.map fun row => (scanned node registry target activeVersion iv row).1).sum
    lastProcessedId := (rows.getLast?.map (·.id)).or progress.lastProcessedId }

variable {node registry target activeVersion iv}

/-- The failures only count. -/
theorem foldl_scanColumn (columns : List String) (iv : String → List UInt8) (row : RotationRow ι)
    (n : ℕ) (values : List (String × String)) :
    columns.foldl (scanColumn node registry activeVersion iv row) (n, values) =
      (n + (columns.foldl (scanColumn node registry activeVersion iv row) (0, values)).1,
        (columns.foldl (scanColumn node registry activeVersion iv row) (0, values)).2) := by
  induction columns generalizing n values with
  | nil => rfl
  | cons column columns ih =>
    have hone : ∀ m, scanColumn node registry activeVersion iv row (m, values) column =
        (m + (scanColumn node registry activeVersion iv row (0, values) column).1,
          (scanColumn node registry activeVersion iv row (0, values) column).2) := by
      intro m
      unfold scanColumn
      split
      · rfl
      · split
        · rfl
        · split
          · rfl
          · split
            · rfl
            · simp
    simp only [List.foldl_cons]
    rw [hone n, ih, ih (scanColumn node registry activeVersion iv row (0, values) column).1]
    simp only [Nat.add_assoc]

/-- **The scan of a batch**, in closed form. -/
theorem foldl_scanRow (rows : List (RotationRow ι)) (progress : StoredProgress ι)
    (acc : List (ι × List (String × String))) :
    rows.foldl (scanRow node registry target activeVersion iv) (progress, acc) =
      (scannedProgress node registry target activeVersion iv rows progress,
        acc ++ rowUpdates node registry target activeVersion iv rows) := by
  induction rows generalizing progress acc with
  | nil => simp [scannedProgress, rowUpdates]
  | cons row rows ih =>
    have hone : scanRow node registry target activeVersion iv (progress, acc) row =
        (scannedProgress node registry target activeVersion iv [row] progress,
          acc ++ rowUpdates node registry target activeVersion iv [row]) := by
      simp only [scanRow, foldl_scanColumn _ _ _ progress.rowsFailed]
      cases h : (scanned node registry target activeVersion iv row).2.isEmpty <;>
        simp_all [scannedProgress, rowUpdates, scanned]
    rw [List.foldl_cons, hone, ih]
    refine Prod.ext ?_ ?_
    · cases rows with
      | nil => simp [scannedProgress]
      | cons r rows =>
        have hlast : (r :: rows).getLast? = some ((r :: rows).getLast (by simp)) :=
          List.getLast?_eq_some_getLast (by simp)
        simp [scannedProgress, Nat.add_assoc, Nat.add_comm 1, hlast]
    · have happend : rowUpdates node registry target activeVersion iv (row :: rows) =
          rowUpdates node registry target activeVersion iv [row] ++
            rowUpdates node registry target activeVersion iv rows := by
        rw [rowUpdates, rowUpdates, rowUpdates, ← List.filter_append, ← List.map_append]
        rfl
      rw [happend, List.append_assoc]

/-- A new value is the re-encryption of the stale value in its column. -/
theorem of_mem_scanned {row : RotationRow ι} {column c : String}
    (h : (column, c) ∈ (scanned node registry target activeVersion iv row).2) :
    column ∈ target.columns ∧ ∃ value, row.value column = some value ∧
      Stale node activeVersion value ∧ reencrypt node registry (iv row.id column) value = .ok c := by
  unfold scanned at h
  -- every value that the fold has set so far is such a re-encryption
  have hfold : ∀ (columns : List String) (acc : ℕ × List (String × String)),
      (∀ e ∈ acc.2, e.1 ∈ target.columns ∧ ∃ value, row.value e.1 = some value ∧
        Stale node activeVersion value ∧ reencrypt node registry (iv row.id e.1) value = .ok e.2) →
      (∀ column ∈ columns, column ∈ target.columns) →
      ∀ e ∈ (columns.foldl (scanColumn node registry activeVersion (iv row.id) row) acc).2,
        e.1 ∈ target.columns ∧ ∃ value, row.value e.1 = some value ∧
          Stale node activeVersion value ∧ reencrypt node registry (iv row.id e.1) value = .ok e.2 := by
    intro columns
    induction columns with
    | nil => exact fun _ hacc _ => hacc
    | cons column columns ih =>
      intro acc hacc hcolumns
      refine ih _ (fun e he => ?_) fun c hc => hcolumns c (List.mem_cons_of_mem _ hc)
      unfold scanColumn at he
      split at he
      · exact hacc e he
      next value hvalue =>
        split at he
        · exact hacc e he
        next hne =>
          split at he
          · exact hacc e he
          next hversion =>
            split at he
            next ciphertext hok =>
              rcases List.mem_append.mp he with he | he
              · exact hacc e (List.mem_of_mem_filter he)
              · obtain rfl := List.mem_singleton.mp he
                exact ⟨hcolumns _ List.mem_cons_self, value, hvalue, ⟨hne, hversion⟩, hok⟩
            next => exact hacc e he
  exact hfold target.columns (0, []) (by simp) (fun _ h => h) _ h

/-- Setting another value keeps a column set. -/
theorem lookup_setValue {values : List (String × String)} {column' : String}
    (h : (values.lookup column').isSome) (column c : String) :
    ((setValue values column c).lookup column').isSome := by
  obtain ⟨e, he, heq⟩ := List.lookup_isSome_iff.mp h
  refine List.lookup_isSome_iff.mpr ?_
  by_cases hne : e.1 = column
  · exact ⟨(column, c), List.mem_append_right _ (List.mem_singleton_self _), by rwa [← hne]⟩
  · exact ⟨e, List.mem_append_left _ (List.mem_filter.mpr ⟨he, by simpa using hne⟩), heq⟩

variable (registry iv) in
/-- **A stale value gets a new value, or it counts as a failure.** -/
theorem scanned_complete {row : RotationRow ι} {column value : String}
    (hcolumn : column ∈ target.columns) (hvalue : row.value column = some value)
    (hstale : Stale node activeVersion value) :
    ((scanned node registry target activeVersion iv row).2.lookup column).isSome ∨
      (0 < (scanned node registry target activeVersion iv row).1 ∧
        ∃ e, reencrypt node registry (iv row.id column) value = .error e) := by
  unfold scanned
  generalize hscan : scanColumn node registry activeVersion (iv row.id) row = scan
  -- what one column adds stays
  have hmono : ∀ (acc : ℕ × List (String × String)) (c : String), acc.1 ≤ (scan acc c).1 ∧
      ∀ c', (acc.2.lookup c').isSome → ((scan acc c).2.lookup c').isSome := by
    intro acc c
    rw [← hscan]
    unfold scanColumn
    split
    · exact ⟨le_rfl, fun _ h => h⟩
    · split
      · exact ⟨le_rfl, fun _ h => h⟩
      · split
        · exact ⟨le_rfl, fun _ h => h⟩
        · split
          · exact ⟨le_rfl, fun c' h => lookup_setValue h _ _⟩
          · exact ⟨Nat.le_succ _, fun _ h => h⟩
  have hstays : ∀ (columns : List String) (acc : ℕ × List (String × String)),
      acc.1 ≤ (columns.foldl scan acc).1 ∧
      ∀ c', (acc.2.lookup c').isSome → ((columns.foldl scan acc).2.lookup c').isSome := by
    intro columns
    induction columns with
    | nil => exact fun acc => ⟨le_rfl, fun _ h => h⟩
    | cons c columns ih =>
      intro acc
      refine ⟨(hmono acc c).1.trans (ih _).1, fun c' h => (ih _).2 c' ((hmono acc c).2 c' h)⟩
  obtain ⟨before, after, hsplit⟩ := List.append_of_mem hcolumn
  rw [hsplit, List.foldl_append, List.foldl_cons]
  generalize before.foldl scan (0, []) = acc
  -- the step at the column itself
  have hstep : ((scan acc column).2.lookup column).isSome ∨
      (0 < (scan acc column).1 ∧ ∃ e, reencrypt node registry (iv row.id column) value = .error e) := by
    rw [← hscan, scanColumn, hvalue]
    simp only [if_neg hstale.1, if_neg hstale.2]
    cases hre : reencrypt node registry (iv row.id column) value with
    | ok c =>
      left
      exact List.lookup_isSome_iff.mpr
        ⟨(column, c), List.mem_append_right _ (List.mem_singleton_self _), by simp⟩
    | error e => exact .inr ⟨Nat.succ_pos _, e, rfl⟩
  rcases hstep with h | ⟨h, he⟩
  · exact .inl ((hstays after _).2 column h)
  · exact .inr ⟨h.trans_le (hstays after _).1, he⟩

/-- A failure is counted for a stale value that cannot be re-encrypted. -/
theorem exists_of_scanned_failure {row : RotationRow ι}
    (h : 0 < (scanned node registry target activeVersion iv row).1) :
    ∃ column ∈ target.columns, ∃ value, row.value column = some value ∧
      Stale node activeVersion value ∧
        ∃ e, reencrypt node registry (iv row.id column) value = .error e := by
  unfold scanned at h
  have hfold : ∀ (columns : List String) (values : List (String × String)),
      0 < (columns.foldl (scanColumn node registry activeVersion (iv row.id) row) (0, values)).1 →
        ∃ column ∈ columns, ∃ value, row.value column = some value ∧
          Stale node activeVersion value ∧
            ∃ e, reencrypt node registry (iv row.id column) value = .error e := by
    intro columns
    induction columns with
    | nil => exact fun _ h => absurd h (Nat.lt_irrefl 0)
    | cons column columns ih =>
      intro values h
      rw [List.foldl_cons, foldl_scanColumn] at h
      have hnext : ∀ values', 0 < (columns.foldl
          (scanColumn node registry activeVersion (iv row.id) row) (0, values')).1 →
          ∃ c ∈ column :: columns, ∃ value, row.value c = some value ∧
            Stale node activeVersion value ∧
              ∃ e, reencrypt node registry (iv row.id c) value = .error e := by
        intro values' h
        obtain ⟨c, hc, hrest⟩ := ih values' h
        exact ⟨c, List.mem_cons_of_mem _ hc, hrest⟩
      rcases Nat.add_pos_iff_pos_or_pos.mp h with h | h
      · unfold scanColumn at h
        split at h
        · exact absurd h (Nat.lt_irrefl 0)
        next value hvalue =>
          split at h
          · exact absurd h (Nat.lt_irrefl 0)
          next hne =>
            split at h
            · exact absurd h (Nat.lt_irrefl 0)
            next hversion =>
              split at h
              · exact absurd h (Nat.lt_irrefl 0)
              next e he => exact ⟨column, List.mem_cons_self, value, hvalue, ⟨hne, hversion⟩, e, he⟩
      · exact hnext _ h
  exact hfold target.columns [] h

theorem mem_rowUpdates {rows : List (RotationRow ι)} {id : ι} {values : List (String × String)} :
    (id, values) ∈ rowUpdates node registry target activeVersion iv rows ↔
      values ≠ [] ∧ ∃ row ∈ rows, row.id = id ∧
        (scanned node registry target activeVersion iv row).2 = values := by
  simp only [rowUpdates, List.mem_filter, List.mem_map, Prod.mk.injEq, Bool.not_eq_true',
    List.isEmpty_eq_false_iff]
  constructor
  · rintro ⟨⟨row, hrow, rfl, rfl⟩, hne⟩
    exact ⟨hne, row, hrow, rfl, rfl⟩
  · rintro ⟨hne, row, hrow, rfl, rfl⟩
    exact ⟨⟨row, hrow, rfl, rfl⟩, hne⟩

/-- The rows that a batch updates are rows of it, in order. -/
theorem rowUpdates_sublist (rows : List (RotationRow ι)) :
    ((rowUpdates node registry target activeVersion iv rows).map (·.1)).Sublist
      (rows.map (·.id)) := by
  have h := (List.filter_sublist (p := fun u : ι × List (String × String) => !u.2.isEmpty)
    (l := rows.map fun row => (row.id, (scanned node registry target activeVersion iv row).2))).map
      (·.1)
  rwa [List.map_map] at h

end Scan

/-! ### Re-encryption -/

section Reencryption

variable {node : Node} {registry : KeyRegistry} {env : RegistryEnv}

theorem parsed_of_parseVersion {raw label : String} {version : ℕ}
    (h : parseVersion node raw label = .ok version) : ∃ s, node.toNumber s = some version := by
  unfold parseVersion at h
  split at h
  next v hv =>
    obtain rfl := Except.ok.inj h
    exact ⟨raw, hv⟩
  next => cases h

theorem parsed_of_readKeys {entries : List (String × String)} {keys keys' : List (ℕ × Key)}
    (h : readKeys node keys entries = .ok keys')
    (hkeys : ∀ e ∈ keys, ∃ s, node.toNumber s = some e.1) :
    ∀ e ∈ keys', ∃ s, node.toNumber s = some e.1 := by
  induction entries generalizing keys with
  | nil =>
    obtain rfl := Except.ok.inj h
    exact hkeys
  | cons entry entries ih =>
    obtain ⟨version, hversion, h⟩ := ok_of_bind h
    obtain ⟨key, -, h⟩ := ok_of_bind h
    refine ih h fun e he => ?_
    unfold setKey at he
    split at he
    · obtain ⟨e', he', rfl⟩ := List.mem_map.mp he
      split
      · exact parsed_of_parseVersion hversion
      · exact hkeys e' he'
    · rcases List.mem_append.mp he with he | he
      · exact hkeys e he
      · obtain rfl := List.mem_singleton.mp he
        exact parsed_of_parseVersion hversion

/-- **The active version of a registry has been parsed.** -/
theorem parsed_activeVersion (h : buildRegistry node env = .ok registry)
    (hmode : registry.mode = .versioned) : ∃ s, node.toNumber s = some registry.activeVersion := by
  unfold buildRegistry at h
  split at h
  · unfold buildRing at h
    split at h
    next parsed _ =>
      obtain ⟨keys, hkeys, h⟩ := ok_of_bind h
      split at h
      · cases h
      obtain ⟨activeVersion, -, h⟩ := ok_of_bind h
      split at h
      next active hactive =>
        obtain rfl := Except.ok.inj h
        exact parsed_of_readKeys hkeys (by simp) _ (mem_of_lookup hactive)
      next => cases h
    next => cases h
  · split at h
    · unfold buildPair at h
      split at h
      next =>
        obtain ⟨activeVersion, hversion, h⟩ := ok_of_bind h
        obtain ⟨current, -, h⟩ := ok_of_bind h
        split at h
        · obtain ⟨previous, -, h⟩ := ok_of_bind h
          split at h
          · cases h
          next =>
            obtain ⟨key, -, h⟩ := ok_of_bind h
            obtain rfl := Except.ok.inj h
            exact parsed_of_parseVersion hversion
        · obtain rfl := Except.ok.inj h
          exact parsed_of_parseVersion hversion
      next => cases h
    · unfold buildLegacy at h
      split at h
      next =>
        obtain ⟨current, -, h⟩ := ok_of_bind h
        obtain rfl := Except.ok.inj h
        cases hmode
      next => cases h

theorem activeVersion_of_getActiveKeyVersion {v : ℕ} (h : getActiveKeyVersion registry = some v) :
    registry.mode = .versioned ∧ registry.activeVersion = v := by
  unfold getActiveKeyVersion at h
  split at h
  next hmode => exact ⟨hmode, Option.some.inj h⟩
  next => cases h

theorem hasKey_encryptionKey {key : Key} (h : encryptionKey registry = some key) :
    registry.HasKey key := by
  unfold encryptionKey at h
  unfold KeyRegistry.HasKey
  split at h
  next hmode =>
    rw [hmode]
    exact ⟨_, mem_of_lookup h⟩
  next hmode =>
    rw [hmode]
    exact .inl (Option.some.inj h).symm

/-- **Re-encryption keeps the plaintext.** -/
theorem decrypt_reencrypt (h : buildRegistry node env = .ok registry)
    (hdigits : registry.LabelsInDigits) {iv : List UInt8} {value c : String}
    (hre : reencrypt node registry iv value = .ok c) :
    decrypt node registry c = decrypt node registry value := by
  have hr := wellformed_of_buildRegistry h
  obtain ⟨p, hp, hc⟩ := ok_of_bind hre
  obtain ⟨key, c', hkey, hc', hpayload, -⟩ := encrypt_cases node hr iv p
  obtain rfl : c' = c := Except.ok.inj (hc'.symm.trans hc)
  rw [hp]
  exact decrypt_of_hasKey hr (hpayload hdigits) (hasKey_encryptionKey hkey)

/-- **Re-encryption reaches the active version.** -/
theorem version_reencrypt (h : buildRegistry node env = .ok registry)
    (hmode : registry.mode = .versioned) (hdigits : registry.LabelsInDigits) {iv : List UInt8}
    {value c : String} (hre : reencrypt node registry iv value = .ok c) :
    getCiphertextKeyVersion node c = some registry.activeVersion := by
  obtain ⟨p, -, hc⟩ := ok_of_bind hre
  obtain ⟨key, hkey⟩ := (wellformed_of_buildRegistry h).active hmode
  obtain ⟨s, hs⟩ := parsed_activeVersion h hmode
  obtain ⟨hne, hlabel⟩ := node.toText_digits _ (hdigits hmode)
  have hcipher : c = "v" ++ node.toText registry.activeVersion ++ ":" ++ node.encipher key iv p := by
    simpa [encrypt, encryptionKey, hmode, hkey] using hc.symm
  rw [getCiphertextKeyVersion, hcipher, versionPrefix?_label hne hlabel, Option.bind_some]
  exact node.toNumber_toText s _ hs

/-- What can be decrypted can be re-encrypted. -/
theorem reencrypt_of_decrypt (h : buildRegistry node env = .ok registry) (iv : List UInt8)
    {value p : String} (hp : decrypt node registry value = .ok p) :
    ∃ c, reencrypt node registry iv value = .ok c := by
  obtain ⟨key, c, -, hc, -, -⟩ := encrypt_cases node (wellformed_of_buildRegistry h) iv p
  refine ⟨c, ?_⟩
  rw [reencrypt, hp]
  exact hc

end Reencryption

end Ahjoor.KeyRotation
