import Ahjoor.Encryption.Schedules

/-!
# Writes of the application during a rotation

A batch is read outside the transaction that writes it, and an update names its row by the id only.
What the application writes to the row in between is overwritten by the re-encryption of what was
there before. As long as no committed batch sets a value whose plaintext has changed since the
batch was read, every value keeps the plaintext that the application has last given it.
-/

namespace Ahjoor.KeyRotation

open Async

variable {ι : Type}

/-! ### What the application has written -/

/-- The value that the application has last written, or the original one. -/
def entered [LinearOrder ι] (d₀ : Tables ι) : List (Write ι) → ι → String → Option String
  | [], id, column => d₀.value id column
  | .enter id' column' value :: log, id, column =>
      if id = id' ∧ column = column' then value else entered d₀ log id column
  | .update _ _ :: log, id, column | .upsertProgress _ :: log, id, column =>
      entered d₀ log id column

/-- A world with any rows and any progress. -/
def started (rows : List (RotationRow ι)) (progress : Option (StoredProgress ι)) : World ι where
  tables := { rows, progress }

section

variable (node : Node) (registry : KeyRegistry)

/-- Every value has the plaintext that the application has last written. -/
def NothingLost [LinearOrder ι] (d₀ d : Tables ι) : Prop :=
  ∀ id ∈ d.ids, ∀ column, (d.value id column).map (decrypt node registry) =
    (entered d₀ d.log id column).map (decrypt node registry)

/-- The rows in the reply of an operation. -/
def fetchedBy : Entry (fun o : Op ι => o.Ret) → List (RotationRow ι)
  | ⟨.db (.selectBatch _ _ _), .ok rows⟩ => rows
  | _ => []

/-- The rows that a call has fetched. -/
def fetched (L : Log fun o : Op ι => o.Ret) : List (RotationRow ι) := L.flatMap fetchedBy

/-- The columns that the write sets have the plaintexts that they had in the rows. -/
def Fresh [LinearOrder ι] (d : Tables ι) (rows : List (RotationRow ι)) : Write ι → Prop
  | .update id values => ∀ row ∈ rows, row.id = id → ∀ e ∈ values,
      (d.value id e.1).map (decrypt node registry) = (row.value e.1).map (decrypt node registry)
  | _ => True

/-- When a transaction commits, the columns that it updates still have the plaintexts that the call
has fetched. -/
def BatchesFresh [LinearOrder ι] (h h' : RotationHist ι) : Prop :=
  match h'.trace with
  | .did pid .commitTransaction _ w :: _ =>
      ∀ xs ∈ w.pending pid, ∀ x ∈ xs, Fresh node registry w.tables (fetched (log pid h.trace)) x
  | _ => True

/-- Runs under the registry that commit only batches that are still fresh. -/
def FreshSchedule [LinearOrder ι] (h h' : RotationHist ι) : Prop :=
  Under node registry h' ∧ BatchesFresh node registry h h'

end

/-! ### What a call writes -/

section

variable (node : Node)

/-- The call has stored a progress towards the active version. -/
def Announced (registry : KeyRegistry) (L : Log fun o : Op ι => o.Ret) : Prop :=
  ∃ p, ⟨.db (.write (.upsertProgress p)), .ok ()⟩ ∈ L ∧ p.targetKeyVersion = registry.activeVersion

/-- Each value is the re-encryption of a value that the call has fetched in its row. -/
def Reread (registry : KeyRegistry) (L : Log fun o : Op ι => o.Ret) (id : ι)
    (values : List (String × String)) : Prop :=
  ∀ e ∈ values, ∃ row ∈ fetched L, row.id = id ∧ ∃ value iv, row.value e.1 = some value ∧
    reencrypt node registry iv value = .ok e.2

/-- What a call may do: outside of transactions only a run writes, and it writes its progress; its
updates re-encrypt what it has fetched, and only the application enters values. -/
def Allowed : Call ι → Log (fun o : Op ι => o.Ret) → Op ι → Prop
  | .rotate _, _, .db (.write x) => ∃ p, x = .upsertProgress p
  | .rotate run, L, .tx (.update id values) => ∀ registry, buildRegistry node run.env = .ok registry →
      registry.mode = .versioned ∧ Announced registry L ∧ Reread node registry L id values
  | .rotate _, _, .tx (.enter _ _ _) => False
  | .application _, _, .db (.write _) => False
  | .application _, _, .tx x => ∃ id column value, x = .enter id column value
  | .dropSession _, _, o => ∃ p, o = .dropSession p
  | _, _, _ => True

end

section Bodies

variable {node : Node} {registry : KeyRegistry} {target : RotationTarget} {run : Run ι}
  {L : Log fun o : Op ι => o.Ret}

theorem fetched_cons {e : Entry fun o : Op ι => o.Ret} {row : RotationRow ι}
    (h : row ∈ fetched L) : row ∈ fetched (e :: L) := by
  rw [fetched, List.flatMap_cons]
  exact List.mem_append_right _ h

theorem Announced.cons {e : Entry fun o : Op ι => o.Ret} (h : Announced registry L) :
    Announced registry (e :: L) := by
  obtain ⟨p, hp, hversion⟩ := h
  exact ⟨p, List.mem_cons_of_mem _ hp, hversion⟩

theorem Reread.cons {e : Entry fun o : Op ι => o.Ret} {id : ι} {values : List (String × String)}
    (h : Reread node registry L id values) : Reread node registry (e :: L) id values := by
  intro x hx
  obtain ⟨row, hrow, hrest⟩ := h x hx
  exact ⟨row, fetched_cons hrow, hrest⟩

/-- Nothing is left to say of a run that has ended or failed. -/
abbrev Anything {α : Type} : α → Unit → Log (fun o : Op ι => o.Ret) → Prop := fun _ _ _ => True

theorem obeys_saveProgress {p : StoredProgress ι} {Q : Unit → Unit → Log (fun o : Op ι => o.Ret) → Prop}
    (hQ : Q () () (⟨.db (.write (.upsertProgress p)), .ok ()⟩ :: L)) :
    Obeys (Allowed node (.rotate run)) (saveProgress .idle p) Q Anything () L := by
  refine Obeys.call ⟨p, rfl⟩ fun r => ?_
  cases r with
  | ok u => exact hQ
  | error e => trivial

theorem obeys_complete {p : StoredProgress ι} {n : ℕ} :
    Obeys (Allowed node (.rotate run)) (complete p n) Anything Anything () L :=
  Obeys.bind (obeys_saveProgress (Obeys.pure trivial))

theorem obeys_writeBatch {us : List (ι × List (String × String))} {p : StoredProgress ι}
    (hbuild : buildRegistry node run.env = .ok registry) (hmode : registry.mode = .versioned)
    (hL : Announced registry L) (hus : ∀ u ∈ us, Reread node registry L u.1 u.2) :
    Obeys (Allowed node (.rotate run)) (writeBatch p us)
      (fun _ _ L' => Announced registry L') Anything () L := by
  induction us generalizing p L with
  | nil =>
    refine Obeys.bind (Obeys.call trivial fun r => ?_)
    cases r with
    | ok u => exact Obeys.pure hL.cons
    | error e => trivial
  | cons u us ih =>
    refine Obeys.bind (Obeys.call (fun registry' h => ?_) fun r => ?_)
    · obtain rfl := Except.ok.inj (hbuild.symm.trans h)
      exact ⟨hmode, hL, hus u List.mem_cons_self⟩
    · cases r with
      | ok _ => exact ih hL.cons fun u' hu' => (hus u' (List.mem_cons_of_mem _ hu')).cons
      | error e => trivial

/-- A transaction whose body obeys. -/
theorem obeys_transaction {α : Type} {c : Call ι} {fn : Rotation ι α}
    {A : Log (fun o : Op ι => o.Ret) → Prop}
    (hc : ∀ L o, (o = .startTransaction ∨ o = .commitTransaction ∨ o = .rollbackTransaction) →
      Allowed node c L o) (hA : ∀ e L, A L → A (e :: L))
    (hfn : Obeys (Allowed node c) fn (fun _ _ L' => A L') Anything ()
      (⟨.startTransaction, .ok ()⟩ :: L)) :
    Obeys (Allowed node c) (transaction fn) (fun _ _ L' => A L') Anything () L := by
  have hrollback : ∀ (e : Exc) (L : Log fun o : Op ι => o.Ret),
      Obeys (Allowed node c) (do
        Routine.call .rollbackTransaction fun r => r
        throw e : Rotation ι α) (fun _ _ L' => A L') Anything () L := by
    intro e L
    refine Obeys.bind (Obeys.call (hc _ _ (.inr (.inr rfl))) fun r => ?_)
    cases r with
    | ok u => exact Obeys.throw trivial
    | error e => trivial
  refine Obeys.bind (Obeys.call (hc _ _ (.inl rfl)) fun r => ?_)
  cases r with
  | error e => trivial
  | ok u =>
    refine Obeys.tryCatch (Obeys.bind (hfn.mono (fun a t L' hL' => ?_)
      fun e t L' _ => hrollback e L'))
    refine Obeys.bind (Obeys.call (hc _ _ (.inr (.inl rfl))) fun r => ?_)
    cases r with
    | ok u => exact Obeys.pure (hA _ _ hL')
    | error e => exact hrollback e _

theorem obeys_fetchBatch {afterId : Option ι} {limit : ℕ}
    {Q : List (RotationRow ι) → Unit → Log (fun o : Op ι => o.Ret) → Prop}
    (hQ : ∀ rows : List (RotationRow ι),
      Q rows () (⟨.db (.selectBatch target.columns afterId limit), .ok rows⟩ :: L)) :
    Obeys (Allowed node (.rotate run)) (fetchBatch target afterId limit) Q Anything () L :=
  Obeys.call trivial fun r => by
    cases r with
    | ok rows => exact hQ rows
    | error e => trivial

/-- What a batch writes re-encrypts what has been fetched. -/
theorem reread_of_mem_rowUpdates {iv : ι → String → List UInt8} {rows : List (RotationRow ι)}
    (hrows : ∀ row ∈ rows, row ∈ fetched L) {u : ι × List (String × String)}
    (hu : u ∈ rowUpdates node registry target registry.activeVersion iv rows) :
    Reread node registry L u.1 u.2 := by
  obtain ⟨-, row, hrow, hid, hvalues⟩ := mem_rowUpdates.mp (show (u.1, u.2) ∈ _ from hu)
  intro e he
  obtain ⟨-, value, hvalue, -, hre⟩ := of_mem_scanned (show (e.1, e.2) ∈ _ from hvalues ▸ he)
  exact ⟨row, hrows row hrow, hid, value, _, hvalue, hre⟩

theorem obeys_rotateBatches (hbuild : buildRegistry node run.env = .ok registry)
    (hmode : registry.mode = .versioned) (fuel n : ℕ) (p : StoredProgress ι)
    (hL : Announced registry L) :
    Obeys (Allowed node (.rotate run))
      (rotateBatches node registry target run.options registry.activeVersion run.iv fuel n p)
      Anything Anything () L := by
  induction fuel generalizing n p L with
  | zero => exact Obeys.throw trivial
  | succ fuel ih =>
    unfold rotateBatches
    split
    · exact Obeys.bind (obeys_saveProgress (Obeys.pure trivial))
    · refine Obeys.bind (obeys_fetchBatch fun rows => ?_)
      split
      · exact obeys_complete
      · simp only [foldl_scanRow, List.nil_append]
        refine Obeys.bind ((obeys_transaction (A := fun L' => Announced registry L') ?_
          (fun _ _ h => h.cons) (obeys_writeBatch hbuild hmode hL.cons.cons fun u hu => ?_)).mono
            (fun p' _ L' hL' => ?_) fun _ _ _ h => h)
        · rintro L o (rfl | rfl | rfl) <;> trivial
        · have hrows : ∀ row ∈ rows, row ∈ fetched
              (⟨.db (.selectBatch target.columns p.lastProcessedId run.options.batchSize),
                .ok rows⟩ :: L) := fun row hrow => List.mem_append_left _ hrow
          exact (reread_of_mem_rowUpdates hrows hu).cons
        · split
          · exact Obeys.bind (obeys_saveProgress (Obeys.throw trivial))
          · split
            · exact obeys_complete
            · unfold throttle
              split
              · exact Obeys.bind (Obeys.call trivial fun _ => ih _ _ hL'.cons)
              · exact Obeys.bind (Obeys.pure (ih _ _ hL'))

theorem obeys_rotateFrom (hbuild : buildRegistry node run.env = .ok registry)
    (hmode : registry.mode = .versioned) (loaded : Option (StoredProgress ι)) :
    Obeys (Allowed node (.rotate run))
      (rotateFrom node target run registry registry.activeVersion loaded) Anything Anything () L := by
  unfold rotateFrom
  split
  · exact Obeys.pure trivial
  · refine Obeys.bind (obeys_saveProgress (obeys_rotateBatches hbuild hmode _ _ _ ?_))
    exact ⟨_, List.mem_cons_self, version_startingProgress ..⟩

/-- **A run writes only what it has fetched and re-encrypted.** -/
theorem obeys_rotateTarget :
    Obeys (Allowed node (.rotate run)) (rotateTarget node target run) Anything Anything () L := by
  unfold rotateTarget
  split
  · exact Obeys.throw trivial
  next registry hbuild =>
    split
    · exact Obeys.throw trivial
    next activeVersion hactive =>
      obtain ⟨hmode, rfl⟩ := activeVersion_of_getActiveKeyVersion hactive
      refine Obeys.bind (Obeys.call trivial fun r => ?_)
      cases r with
      | error e => trivial
      | ok loaded => exact obeys_rotateFrom hbuild hmode loaded

/-- The application enters values and does nothing else. -/
theorem obeys_applicationWrite {writes : List (ι × String × Option String)} :
    Obeys (Allowed node (.application writes)) (applicationWrite writes) Anything Anything () L := by
  refine obeys_transaction (A := fun _ => True) ?_ (fun _ _ _ => trivial) ?_
  · rintro L o (rfl | rfl | rfl) <;> trivial
  · refine Obeys.forEach (J := fun _ _ _ => True) (fun x xs _ L _ => ?_) trivial
    refine Obeys.call ⟨_, _, _, rfl⟩ fun r => ?_
    cases r <;> trivial

/-- **Every call does only what it may do.** -/
theorem follows_body (c : Call ι) :
    Follows (Allowed node c) (fun _ _ => True)
      ((c.body node target ()).bind fun x => .ret x.1) [] := by
  have hbody : Obeys (Allowed node c) (c.body node target) Anything Anything () [] := by
    cases c with
    | rotate run => exact Obeys.bind (obeys_rotateTarget.mono (fun _ _ _ _ => Obeys.pure trivial)
        fun _ _ _ h => h)
    | application writes => exact Obeys.bind (obeys_applicationWrite.mono
        (fun _ _ _ _ => Obeys.pure trivial) fun _ _ _ h => h)
    | dropSession p => exact Obeys.call ⟨p, rfl⟩ fun _ => trivial
  exact hbody.follows.bind fun _ _ _ => trivial

end Bodies

/-! ### Nothing is lost -/

section Invariant

variable [LinearOrder ι] {node : Node} {registry : KeyRegistry} {target : RotationTarget}
  {d₀ d : Tables ι}

/-- A write of a run that changes no plaintext. -/
def Harmless (node : Node) (registry : KeyRegistry) (d : Tables ι) : Write ι → Prop
  | .update id values => ∀ e ∈ values,
      (d.value id e.1).map (decrypt node registry) = some (decrypt node registry e.2)
  | .upsertProgress _ => True
  | .enter _ _ _ => False

theorem samePlaintexts_of_harmless {x : Write ι} (hx : Harmless node registry d x) :
    SamePlaintexts node registry d (d.apply x) := by
  intro id column
  by_cases hresource : x.resource = some id
  · cases x with
    | update id' values =>
      obtain rfl : id' = id := Option.some.inj hresource
      by_cases hid : id' ∈ d.ids
      · rw [Tables.value_update hid]
        cases hlookup : values.lookup column with
        | none => rw [Option.none_or]
        | some c =>
          obtain ⟨l₁, l₂, hsplit, -⟩ := List.lookup_eq_some_iff.mp hlookup
          have hmem : (column, c) ∈ values := hsplit ▸ List.mem_append_right _ List.mem_cons_self
          rw [Option.some_or, Option.map_some]
          exact (hx _ hmem).symm
      · have hid' : id' ∉ (d.apply (.update id' values)).ids := by rwa [Tables.ids_apply]
        rw [Tables.value_eq_none hid, Tables.value_eq_none hid']
    | enter id' column' value => exact hx.elim
    | upsertProgress p => cases hresource
  · rw [Tables.value_apply_of_ne hresource]

/-- Harmless writes stay harmless when others are applied before them. -/
theorem Harmless.of_same {d' : Tables ι} (h : SamePlaintexts node registry d d') {x : Write ι}
    (hx : Harmless node registry d x) : Harmless node registry d' x := by
  cases x with
  | update id values => exact fun e he => (h id e.1).trans (hx e he)
  | enter id column value => exact hx
  | upsertProgress p => trivial

theorem samePlaintexts_foldl {xs : List (Write ι)} (hxs : ∀ x ∈ xs, Harmless node registry d x) :
    SamePlaintexts node registry d (xs.foldl Tables.apply d) := by
  induction xs generalizing d with
  | nil => exact fun _ _ => rfl
  | cons x xs ih =>
    have hfirst := samePlaintexts_of_harmless (hxs x List.mem_cons_self)
    have hrest := ih fun y hy => (hxs y (List.mem_cons_of_mem x hy)).of_same hfirst
    exact fun id column => (hrest id column).trans (hfirst id column)

/-- Harmless writes enter nothing. -/
theorem entered_foldl {xs : List (Write ι)} (hxs : ∀ x ∈ xs, Harmless node registry d x)
    (log : List (Write ι)) (id : ι) (column : String) :
    entered d₀ (xs.reverse ++ log) id column = entered d₀ log id column := by
  induction xs generalizing log with
  | nil => rfl
  | cons x xs ih =>
    rw [List.reverse_cons, List.append_assoc, ih fun y hy => hxs y (List.mem_cons_of_mem x hy)]
    cases x with
    | update id' values => rfl
    | enter id' column' value => exact (hxs _ List.mem_cons_self).elim
    | upsertProgress p => rfl

theorem NothingLost.harmless (hd : NothingLost node registry d₀ d) {xs : List (Write ι)}
    (hxs : ∀ x ∈ xs, Harmless node registry d x) :
    NothingLost node registry d₀ (xs.foldl Tables.apply d) := by
  intro id hid column
  rw [Tables.ids_foldl] at hid
  rw [Tables.log_foldl, entered_foldl hxs, samePlaintexts_foldl hxs id column]
  exact hd id hid column

theorem NothingLost.enter (hd : NothingLost node registry d₀ d) (id : ι) (column : String)
    (value : Option String) : NothingLost node registry d₀ (d.apply (.enter id column value)) := by
  intro id' hid' column'
  rw [Tables.ids_apply] at hid'
  change _ = (entered d₀ (.enter id column value :: d.log) id' column').map _
  rw [entered]
  by_cases hid : id' = id
  · subst hid
    rw [Tables.value_enter hid']
    by_cases hcolumn : column' = column
    · rw [if_pos hcolumn, if_pos ⟨rfl, hcolumn⟩]
    · rw [if_neg hcolumn, if_neg fun h => hcolumn h.2]
      exact hd id' hid' column'
  · have hne : (Write.enter id column value).resource ≠ some id' := fun h => hid (Option.some.inj h).symm
    rw [Tables.value_apply_of_ne hne, if_neg fun h => hid h.1]
    exact hd id' hid' column'

theorem NothingLost.enters (hd : NothingLost node registry d₀ d) {xs : List (Write ι)}
    (hxs : ∀ x ∈ xs, ∃ id column value, x = .enter id column value) :
    NothingLost node registry d₀ (xs.foldl Tables.apply d) := by
  induction xs generalizing d with
  | nil => exact hd
  | cons x xs ih =>
    obtain ⟨id, column, value, rfl⟩ := hxs x List.mem_cons_self
    exact ih (hd.enter id column value) fun y hy => hxs y (List.mem_cons_of_mem _ hy)

/-- What the transaction of a call holds back. -/
def Prepared (node : Node) (registry : KeyRegistry) (L : Log fun o : Op ι => o.Ret)
    (xs : List (Write ι)) : Call ι → Prop
  | .rotate _ => ∀ x ∈ xs, (∃ p, x = .upsertProgress p) ∨ ∃ id values, x = .update id values ∧
      ∀ e ∈ values, ∃ row ∈ fetched L, row.id = id ∧
        (row.value e.1).map (decrypt node registry) = some (decrypt node registry e.2)
  | .application _ => ∀ x ∈ xs, ∃ id column value, x = .enter id column value
  | .dropSession _ => False

omit [LinearOrder ι] in
theorem Prepared.cons {L : Log fun o : Op ι => o.Ret} {e : Entry fun o : Op ι => o.Ret}
    {xs : List (Write ι)} {c : Call ι} (h : Prepared node registry L xs c) :
    Prepared node registry (e :: L) xs c := by
  cases c with
  | rotate run =>
    intro x hx
    rcases h x hx with hp | ⟨id, values, rfl, hvalues⟩
    · exact .inl hp
    · refine .inr ⟨id, values, rfl, fun e he => ?_⟩
      obtain ⟨row, hrow, hrest⟩ := hvalues e he
      exact ⟨row, fetched_cons hrow, hrest⟩
  | application writes => exact h
  | dropSession p => exact h

/-- The invariant of the runs in which committed batches are fresh. -/
structure Guarded (node : Node) (registry : KeyRegistry) (d₀ : Tables ι) (h : RotationHist ι) :
    Prop where
  under : ∀ pid run, Event.start pid (.rotate run) ∈ h.trace →
    buildRegistry node run.env = .ok registry
  inRange : ∀ pid (x : Write ι) (r : Except Exc Unit) w,
    Event.did pid (.db (.write x)) r w ∈ h.trace → r = .ok () → x.inRange = true
  prepared : ∀ pid xs, h.world.pending pid = some xs →
    ∃ c, Event.start pid c ∈ h.trace ∧ Prepared node registry (log pid h.trace) xs c
  kept : NothingLost node registry d₀ h.world.tables

/-- An operation keeps the invariant when it keeps the plaintexts and what it adds to its own
transaction is prepared. -/
theorem Guarded.did {h : RotationHist ι} (hI : Guarded node registry d₀ h) {pid : ℕ} {c : Call ι}
    {o : Op ι} {r : o.Ret} {w : World ι} (hstart : Event.start pid c ∈ h.trace)
    (hrange : ∀ (x : Write ι) (r' : Except Exc Unit),
      (⟨o, r⟩ : Entry fun o : Op ι => o.Ret) = ⟨.db (.write x), r'⟩ → r' = .ok () → x.inRange = true)
    (hpending : ∀ p xs, w.pending p = some xs → h.world.pending p = some xs ∨
      (p = pid ∧ Prepared node registry (⟨o, r⟩ :: log pid h.trace) xs c))
    (hkept : NothingLost node registry d₀ w.tables) :
    Guarded node registry d₀ (h.push (.did pid o r h.world) w) := by
  refine ⟨fun p run hrun => hI.under p run (by simpa using hrun), fun p x r' w' hdid hr' => ?_,
    fun p xs hxs => ?_, hkept⟩
  · rcases List.mem_cons.mp hdid with heq | hold
    · cases heq
      exact hrange x r' rfl hr'
    · exact hI.inRange p x r' w' hold hr'
  · rcases hpending p xs hxs with hold | ⟨rfl, hnew⟩
    · obtain ⟨c', hc', hprepared⟩ := hI.prepared p xs hold
      refine ⟨c', List.mem_cons_of_mem _ hc', ?_⟩
      rw [Hist.push_trace]
      by_cases hp : p = pid
      · subst hp
        rw [log_did_self]
        exact hprepared.cons
      · rw [log_cons_of_ne fun heq => hp heq.symm]
        exact hprepared
    · refine ⟨c, List.mem_cons_of_mem _ hstart, ?_⟩
      rw [Hist.push_trace, log_did_self]
      exact hnew

omit [LinearOrder ι] in
theorem pending_of_release {w : World ι} {p q : ℕ} {xs : List (Write ι)}
    (h : (w.release p).pending q = some xs) : w.pending q = some xs := by
  rcases pending_release (w := w) p q with hsame | hnone
  · rwa [hsame] at h
  · rw [hnone] at h
    cases h

/-- The registry of a run that has announced itself prints its labels in digits. -/
theorem Guarded.labelsInDigits {h : RotationHist ι} (hI : Guarded node registry d₀ h) {pid : ℕ}
    (hannounced : Announced registry (log pid h.trace)) : registry.LabelsInDigits := by
  obtain ⟨p, hp, hversion⟩ := hannounced
  obtain ⟨w, hdid⟩ := mem_log.mp hp
  have hrange : p.targetKeyVersion ≤ 2147483647 :=
    of_decide_eq_true (hI.inRange pid _ _ w hdid rfl)
  intro _
  omega

/-- What a call adds to its transaction is prepared. -/
theorem Guarded.prepared_concat {h : RotationHist ι} (hI : Guarded node registry d₀ h) {pid : ℕ}
    {c : Call ι} {x : Write ι} {r : Except Exc Unit} {ys : List (Write ι)}
    (hstart : Event.start pid c ∈ h.trace)
    (hprepared : Prepared node registry (log pid h.trace) ys c)
    (hD : Allowed node c (log pid h.trace) (.tx x)) :
    Prepared node registry (⟨.tx x, r⟩ :: log pid h.trace) (ys ++ [x]) c := by
  cases c with
  | rotate run =>
    intro y hy
    rcases List.mem_append.mp hy with hold | hnew
    · exact (hprepared.cons (e := ⟨.tx x, r⟩)) y hold
    · obtain rfl := List.mem_singleton.mp hnew
      cases y with
      | upsertProgress p => exact .inl ⟨p, rfl⟩
      | enter id column value => exact hD.elim
      | update id values =>
        obtain ⟨hmode, hannounced, hreread⟩ := hD registry (hI.under pid run hstart)
        refine .inr ⟨id, values, rfl, fun e he => ?_⟩
        obtain ⟨row, hrow, hid, value, iv, hvalue, hre⟩ := hreread e he
        have hplain := decrypt_reencrypt (hI.under pid run hstart)
          (hI.labelsInDigits hannounced) hre
        refine ⟨row, fetched_cons hrow, hid, ?_⟩
        rw [hvalue, hplain, Option.map_some]
  | application writes =>
    intro y hy
    rcases List.mem_append.mp hy with hold | hnew
    · exact hprepared y hold
    · obtain rfl := List.mem_singleton.mp hnew
      exact hD
  | dropSession p =>
    obtain ⟨p', hp'⟩ := hD
    cases hp'

/-- What a run holds back when it commits changes no plaintext, if the batch is still fresh. -/
theorem harmless_of_prepared {L : Log fun o : Op ι => o.Ret} {xs : List (Write ι)} {run : Run ι}
    (hprepared : Prepared node registry L xs (.rotate run))
    (hfresh : ∀ x ∈ xs, Fresh node registry d (fetched L) x) :
    ∀ x ∈ xs, Harmless node registry d x := by
  intro x hx
  rcases hprepared x hx with ⟨p, rfl⟩ | ⟨id, values, rfl, hvalues⟩
  · trivial
  · intro e he
    obtain ⟨row, hrow, hid, hvalue⟩ := hvalues e he
    exact (hfresh _ hx row hrow hid e he).trans hvalue

/-- **Every step keeps the invariant**, as long as the batches that are committed are fresh. -/
theorem Guarded.step {h h' : RotationHist ι}
    (hdisciplined : Disciplined (Allowed node) (fun _ _ _ => True) h)
    (hI : Guarded node registry d₀ h) (hstep : HistStep (system node target) (Allowed node) h h')
    (hok : FreshSchedule node registry h h') : Guarded node registry d₀ h' := by
  obtain ⟨hunder, hfresh⟩ := hok
  cases hstep with
  | idle e he hlive =>
    refine ⟨fun pid run hrun => ?_, fun pid x r w hdid => ?_, fun pid xs hxs => ?_, hI.kept⟩
    · rcases List.mem_cons.mp hrun with rfl | hold
      · exact hunder
      · exact hI.under pid run hold
    · rcases List.mem_cons.mp hdid with rfl | hold
      · exact absurd (he pid []) (List.cons_ne_nil _ _ <| (log_did_self ..).symm.trans ·)
      · exact hI.inRange pid x r w hold
    · obtain ⟨c, hc, hprepared⟩ := hI.prepared pid xs hxs
      refine ⟨c, List.mem_cons_of_mem _ hc, ?_⟩
      rw [Hist.push_trace, he]
      exact hprepared
  | did pid c o choice r w hstart hD hexec hlive =>
    cases o with
    | db q =>
      have hcases := exec_db hexec
      have hpending : w.pending = h.world.pending := by
        rcases hcases with ⟨rfl, -⟩ | ⟨-, rfl, -⟩ <;> rfl
      refine hI.did hstart (fun x r' heq hr' => ?_) (fun p xs hxs => .inl (hpending ▸ hxs)) ?_
      · cases heq
        rcases hcases with ⟨-, e, rfl⟩ | ⟨-, -, hr⟩
        · cases hr'
        · cases hrange : x.inRange with
          | true => rfl
          | false =>
            simp only [Query.eval, hrange, Bool.false_eq_true, if_false] at hr
            subst hr'
            rcases hr with hr | ⟨e, hr⟩ <;> cases hr
      · rcases hcases with ⟨rfl, -⟩ | ⟨-, rfl, -⟩
        · exact hI.kept
        · cases q with
          | selectProgress => exact hI.kept
          | selectBatch columns afterId limit => exact hI.kept
          | write x =>
            obtain ⟨p, rfl⟩ : ∃ p, x = .upsertProgress p := by
              cases c with
              | rotate run => exact hD
              | application writes => exact hD.elim
              | dropSession p => obtain ⟨p', hp'⟩ := hD; cases hp'
            have heval : ((Query.write (.upsertProgress p)).eval h.world.tables).2 =
                if (Write.upsertProgress p).inRange = true then
                  h.world.tables.apply (.upsertProgress p) else h.world.tables :=
              apply_ite Prod.snd _ _ _
            change NothingLost node registry d₀ ((Query.write (.upsertProgress p)).eval h.world.tables).2
            rw [heval]
            split
            · have hharmless : ∀ x ∈ [Write.upsertProgress p], Harmless node registry h.world.tables x :=
                fun x hx => List.mem_singleton.mp hx ▸ trivial
              exact hI.kept.harmless hharmless
            · exact hI.kept
    | startTransaction =>
      rcases exec_startTransaction hexec with ⟨rfl, -⟩ | ⟨-, rfl⟩
      · exact hI.did hstart (fun _ _ heq => by cases heq) (fun _ _ => .inl) hI.kept
      · refine hI.did hstart (fun _ _ heq => by cases heq) (fun p xs hxs => ?_) hI.kept
        replace hxs : Function.update h.world.pending pid (some []) p = some xs := hxs
        by_cases hp : p = pid
        · subst hp
          rw [Function.update_self] at hxs
          cases hxs
          refine .inr ⟨rfl, ?_⟩
          cases c with
          | rotate run => exact fun x hx => absurd hx List.not_mem_nil
          | application writes => exact fun x hx => absurd hx List.not_mem_nil
          | dropSession p => obtain ⟨p', hp'⟩ := hD; cases hp'
        · rw [Function.update_of_ne hp] at hxs
          exact .inl hxs
    | tx x =>
      rcases exec_tx hexec with ⟨rfl, -⟩ | ⟨ys, hys, -, -, -, rfl⟩
      · exact hI.did hstart (fun _ _ heq => by cases heq) (fun _ _ => .inl) hI.kept
      · refine hI.did hstart (fun _ _ heq => by cases heq) (fun p xs hxs => ?_) hI.kept
        by_cases hp : p = pid
        · subst hp
          replace hxs : Function.update h.world.pending p (some (ys ++ [x])) p = some xs := hxs
          rw [Function.update_self] at hxs
          cases hxs
          obtain ⟨c', hc', hprepared⟩ := hI.prepared p ys hys
          obtain rfl := hdisciplined.start_unique p c c' hstart hc'
          exact .inr ⟨rfl, hI.prepared_concat hstart hprepared hD⟩
        · replace hxs : Function.update h.world.pending pid (some (ys ++ [x])) p = some xs := hxs
          rw [Function.update_of_ne hp] at hxs
          exact .inl hxs
    | commitTransaction =>
      rcases exec_commitTransaction hexec with ⟨rfl, -⟩ | ⟨ys, hys, rfl, -⟩
      · exact hI.did hstart (fun _ _ heq => by cases heq) (fun _ _ hxs => .inl (pending_of_release hxs))
          hI.kept
      · refine hI.did hstart (fun _ _ heq => by cases heq)
          (fun _ _ hxs => .inl (pending_of_release hxs)) ?_
        obtain ⟨c', hc', hprepared⟩ := hI.prepared pid ys hys
        change NothingLost node registry d₀ (ys.foldl Tables.apply h.world.tables)
        cases c' with
        | rotate run => exact hI.kept.harmless (harmless_of_prepared hprepared (hfresh ys hys))
        | application writes => exact hI.kept.enters hprepared
        | dropSession p => exact hprepared.elim
    | rollbackTransaction =>
      rcases exec_rollbackTransaction hexec with ⟨rfl, -⟩ | ⟨-, rfl⟩
      · exact hI.did hstart (fun _ _ heq => by cases heq) (fun _ _ => .inl) hI.kept
      · exact hI.did hstart (fun _ _ heq => by cases heq) (fun _ _ hxs => .inl (pending_of_release hxs))
          hI.kept
    | sleep ms =>
      obtain rfl := exec_sleep hexec
      exact hI.did hstart (fun _ _ heq => by cases heq) (fun _ _ => .inl) hI.kept
    | dropSession p =>
      obtain rfl := exec_dropSession hexec
      exact hI.did hstart (fun _ _ heq => by cases heq) (fun _ _ hxs => .inl (pending_of_release hxs))
        hI.kept

theorem guarded_started (rows : List (RotationRow ι)) (progress : Option (StoredProgress ι)) :
    Guarded node registry (started rows progress).tables ⟨started rows progress, []⟩ where
  under _ _ h := by cases h
  inRange _ _ _ _ h := by cases h
  prepared _ _ h := by cases h
  kept _ _ _ := rfl

/-- **Rotation loses no concurrent update**, in every interleaving of runs and application
transactions in which a batch is still fresh when it is committed. -/
theorem nothingLost_of_freshSchedule (node : Node) (target : RotationTarget)
    (registry : KeyRegistry) (rows : List (RotationRow ι)) (progress : Option (StoredProgress ι))
    {s : RotationState ι}
    (hs : (system node target).ReachableWhen (FreshSchedule node registry)
      (.init (started rows progress)) s) :
    NothingLost node registry (started rows progress).tables s.hist.world.tables :=
  (hist_invariant (fun c => follows_body c) (guarded_started rows progress)
    (fun _ _ hdisciplined _ hI hstep hok => hI.step hdisciplined hstep hok) hs).kept

end Invariant

/-! ### An update that is lost -/

section

variable [LinearOrder ι] (node : Node) (registry : KeyRegistry)

instance (d : Tables ι) (rows : List (RotationRow ι)) :
    DecidablePred (Fresh node registry d rows) := fun x => by
  unfold Fresh
  rcases x with _ | _ | _ <;> infer_instance

instance : DecidableRel (FreshSchedule node registry : RotationHist ι → _ → Prop) := fun h h' => by
  unfold FreshSchedule BatchesFresh
  refine @instDecidableAnd _ _ inferInstance ?_
  rcases h'.trace with _ | ⟨_ | ⟨_, o, _, _⟩ | _ | _, _⟩
  case cons.did => cases o <;> infer_instance
  all_goals infer_instance

end

namespace Sample

/-- What the application stores for another plaintext. -/
def newValue : String := "v2:" ++ Sample.encipher (List.replicate 32 17) "q"

end Sample

/-- A run that rewrites a row which the application has written before. -/
theorem nothingLost_sample : ∃ s : RotationState ℕ,
    s.hist.world.tables.log.length = 5 ∧
      NothingLost Ahjoor.Sample.node (Ahjoor.Sample.keyRegistry 2)
        (started [Sample.user "v1:?"] none).tables s.hist.world.tables := by
  obtain ⟨s, hs, hlength⟩ := System.exists_of_replay (system Ahjoor.Sample.node Sample.users)
    (FreshSchedule Ahjoor.Sample.node (Ahjoor.Sample.keyRegistry 2))
    (.init (started [Sample.user "v1:?"] none))
    (.start (.application [(0, "email", some Sample.oldValue)]) :: Sample.dones 0 3 ++
      .finish 0 :: .start (.rotate Sample.run) :: Sample.dones 1 8 ++ [.finish 1])
    (fun s => s.hist.world.tables.log.length == 5) (by decide +kernel)
  exact ⟨s, by simpa using hlength, nothingLost_of_freshSchedule _ _ _ _ _ hs⟩

/-- The application writes a row between the moment when a run reads it and the moment when the
run writes it: the run overwrites it with the re-encryption of what was there before. -/
theorem not_nothingLost : ¬ ∀ s : RotationState ℕ,
    (system Ahjoor.Sample.node Sample.users).ReachableWhen
      (fun _ h' => Under Ahjoor.Sample.node (Ahjoor.Sample.keyRegistry 2) h')
      (.init (started [Sample.user Sample.oldValue] none)) s →
    NothingLost Ahjoor.Sample.node (Ahjoor.Sample.keyRegistry 2)
      (started [Sample.user Sample.oldValue] none).tables s.hist.world.tables := by
  intro hnothing
  obtain ⟨s, hs, hlost⟩ := System.exists_of_replay (system Ahjoor.Sample.node Sample.users)
    (fun _ h' => Under Ahjoor.Sample.node (Ahjoor.Sample.keyRegistry 2) h')
    (.init (started [Sample.user Sample.oldValue] none))
    (.start (.rotate Sample.run) :: Sample.dones 0 3 ++
      .start (.application [(0, "email", some Sample.newValue)]) :: Sample.dones 1 3 ++
      .finish 1 :: Sample.dones 0 5 ++ [.finish 0])
    (fun s => decide (0 ∈ s.hist.world.tables.ids ∧
      (s.hist.world.tables.value 0 "email").map
          (decrypt Ahjoor.Sample.node (Ahjoor.Sample.keyRegistry 2)) ≠
        (entered (started [Sample.user Sample.oldValue] none).tables s.hist.world.tables.log 0
          "email").map (decrypt Ahjoor.Sample.node (Ahjoor.Sample.keyRegistry 2))))
    (by decide +kernel)
  obtain ⟨hid, hne⟩ := of_decide_eq_true hlost
  exact hne (hnothing s hs 0 hid "email")

end Ahjoor.KeyRotation
