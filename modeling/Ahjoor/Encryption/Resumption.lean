import Ahjoor.Encryption.Campaign

/-!
# Stopping and resuming

The runs of the rotation as calls under contracts. A run relies on nobody else changing the
tables; of its own operations, only the statements outside a transaction and the commit of a batch
change them, and each leaves them consistent and every plaintext as it was. So it does not matter
where a run is stopped: between two operations there is nothing that a later run would have to
know.
-/

namespace Ahjoor.KeyRotation

open Async

variable {ι : Type} [LinearOrder ι]

/-! ### The contract of a run -/

section

variable (node : Node) (target : RotationTarget) (strict : Prop)

/-- What an operation of a run may do to the tables; under the strict condition it adds no
failure. -/
structure RotationStep (run : Run ι) (d d' : Tables ι) : Prop where
  consistent : Consistent node target d'
  same : ∀ registry, buildRegistry node run.env = .ok registry → SamePlaintexts node registry d d'
  spared : strict → NoFailures d → NoFailures d'

/-- What a re-encryption may replace: a stale value that can be decrypted, by the encryption of its
plaintext. -/
def Rewritable (registry : KeyRegistry) (value : Option String) (c : String) : Prop :=
  ∃ v plaintext iv, value = some v ∧ Stale node registry.activeVersion v ∧
    decrypt node registry v = .ok plaintext ∧ encrypt node registry iv plaintext = .ok c

/-- An `UPDATE` of columns of a row. -/
def Sets (o : Op ι) (id : ι) (values : List (String × String)) : Prop :=
  o = .db (.write (.update id values)) ∨ o = .tx (.update id values)

/-- The contract of a run. -/
def rotationContract (pid : ℕ) (run : Run ι) : Contract (fun o : Op ι => o.Ret) (World ι) where
  rely w w' := w'.tables = w.tables ∧ (w'.pending pid = w.pending pid ∨ w'.pending pid = none)
  guarantee w w' := RotationStep node target strict run w.tables w'.tables
  expects _ o w := strict → o = .commitTransaction → ∀ xs q registry, w.pending pid = some xs →
    .upsertProgress q ∈ xs → buildRegistry node run.env = .ok registry →
      ReadsBatch node target registry w.tables q
  asserts _ o w := ∀ id values, Sets o id values → ∀ registry, buildRegistry node run.env = .ok registry →
    ∀ e ∈ values, Rewritable node registry (w.tables.value id e.1) e.2
  rely_refl _ := ⟨rfl, .inl rfl⟩
  rely_trans h h' := by
    refine ⟨h'.1.trans h.1, ?_⟩
    rcases h'.2 with hsame | hnone
    · rw [hsame]
      exact h.2
    · exact .inr hnone

end

variable {node : Node} {target : RotationTarget} {strict : Prop} {pid : ℕ} {run : Run ι}
  {α : Type} {L : Log fun o : Op ι => o.Ret} {w : World ι} {d : Tables ι} {p q : StoredProgress ι}

theorem RotationStep.refl (hd : Consistent node target d) : RotationStep node target strict run d d :=
  ⟨hd, fun _ _ _ _ => rfl, fun _ h => h⟩

/-- Storing the progress changes no value. -/
theorem RotationStep.save (hd : Consistent node target (d.apply (.upsertProgress q)))
    (hspared : NoFailures d → q.rowsFailed = 0) :
    RotationStep node target strict run d (d.apply (.upsertProgress q)) := by
  refine ⟨hd, fun _ _ _ _ => rfl, fun _ hnone p hp => ?_⟩
  obtain rfl : q = p := Option.some.inj hp
  exact hspared hnone

/-! ### The operations of a run -/

/-- At an exception the tables are consistent. -/
def Failed (node : Node) (target : RotationTarget) :
    Exc → Unit → Log (fun o : Op ι => o.Ret) → World ι → Prop :=
  fun _ _ _ w => Consistent node target w.tables

theorem failed_of_tables {e : Exc} (hd : Consistent node target d) (hw : w.tables = d) :
    Failed node target e () L w := by
  unfold Failed
  rw [hw]
  exact hd

/-- What is asserted of an operation that is not an update. -/
theorem asserts_of_not_sets {o : Op ι} (h : ∀ id values, ¬ Sets o id values) (w : World ι) :
    (rotationContract node target strict pid run).asserts L o w :=
  fun id values hsets => absurd hsets (h id values)

/-- A read. -/
theorem meets_read {q : Query ι} {a : q.Ret}
    {Q : q.Ret → Unit → Log (fun o : Op ι => o.Ret) → World ι → Prop}
    (hd : Consistent node target d) (hw : w.tables = d) (hread : ∀ x, q ≠ .write x)
    (heval : q.eval d = (.ok a, d)) (hQ : ∀ L w', w'.tables = d → Q a () L w') :
    Meets exec pid (rotationContract node target strict pid run)
      (Routine.call (.db q) fun r => r) Q (Failed node target) () L w := by
  refine Meets.call fun w₁ hrely => ⟨asserts_of_not_sets ?_ w₁, fun _ choice r w' hexec => ?_⟩
  · rintro id values (heq | heq)
    · exact hread _ (Op.db.inj heq)
    · cases heq
  · have hw₁ : w₁.tables = d := hrely.1.trans hw
    -- a read that is answered is answered from the tables, and leaves them
    have hcases : w'.tables = d ∧ (r = .ok a ∨ ∃ e, r = .error e) := by
      rcases exec_db hexec with ⟨rfl, herr⟩ | ⟨-, rfl, hr⟩
      · exact ⟨hw₁, .inr herr⟩
      · rw [hw₁, heval] at hr ⊢
        exact ⟨rfl, hr⟩
    obtain ⟨hw', hr⟩ := hcases
    refine ⟨?_, fun w₂ hrely₂ => ?_⟩
    · change RotationStep node target strict run w₁.tables w'.tables
      rw [hw₁, hw']
      exact .refl hd
    · have hw₂ : w₂.tables = d := hrely₂.1.trans hw'
      rcases hr with rfl | ⟨e, rfl⟩
      · exact hQ _ _ hw₂
      · exact failed_of_tables hd hw₂

/-- The progress stored outside a transaction. -/
theorem meets_save {Q : Unit → Unit → Log (fun o : Op ι => o.Ret) → World ι → Prop}
    (hd : Consistent node target d) (hw : w.tables = d)
    (hstep : (Write.upsertProgress q).inRange = true →
      RotationStep node target strict run d (d.apply (.upsertProgress q)))
    (hQ : (Write.upsertProgress q).inRange = true → ∀ L w',
      w'.tables = d.apply (.upsertProgress q) → Q () () L w') :
    Meets exec pid (rotationContract node target strict pid run) (saveProgress .idle q) Q
      (Failed node target) () L w := by
  refine Meets.call fun w₁ hrely => ⟨asserts_of_not_sets ?_ w₁, fun _ choice r w' hexec => ?_⟩
  · rintro id values (heq | heq) <;> cases heq
  · have hw₁ : w₁.tables = d := hrely.1.trans hw
    have hcases : (w'.tables = d ∧ ∃ e, r = .error e) ∨
        ((Write.upsertProgress q).inRange = true ∧ w'.tables = d.apply (.upsertProgress q)) := by
      rcases exec_db hexec with ⟨rfl, herr⟩ | ⟨-, rfl, hr⟩
      · exact .inl ⟨hw₁, herr⟩
      · cases hrange : (Write.upsertProgress q).inRange with
        | true =>
          refine .inr ⟨rfl, ?_⟩
          simp only [Query.eval, hrange, if_true, hw₁]
        | false =>
          simp only [Query.eval, hrange, Bool.false_eq_true, if_false] at hr ⊢
          rcases hr with rfl | herr
          · exact .inl ⟨hw₁, _, rfl⟩
          · exact .inl ⟨hw₁, herr⟩
    rcases hcases with ⟨hw', e, rfl⟩ | ⟨hrange, hw'⟩
    · refine ⟨?_, fun w₂ hrely₂ => ?_⟩
      · change RotationStep node target strict run w₁.tables w'.tables
        rw [hw₁, hw']
        exact .refl hd
      · exact failed_of_tables hd (hrely₂.1.trans hw')
    · refine ⟨?_, fun w₂ hrely₂ => ?_⟩
      · change RotationStep node target strict run w₁.tables w'.tables
        rw [hw₁, hw']
        exact hstep hrange
      · have hw₂ := hrely₂.1.trans hw'
        cases r with
        | ok u => exact hQ hrange _ _ hw₂
        | error e => exact failed_of_tables (hstep hrange).consistent hw₂

/-- The tables, and the writes that the transaction of the call holds back, if it is still open. -/
def Holding (pid : ℕ) (d : Tables ι) (xs : List (Write ι)) (w : World ι) : Prop :=
  w.tables = d ∧ (w.pending pid = some xs ∨ w.pending pid = none)

theorem Holding.rely {xs : List (Write ι)} {w w' : World ι} (h : Holding pid d xs w)
    (hrely : (rotationContract node target strict pid run).rely w w') : Holding pid d xs w' := by
  refine ⟨hrely.1.trans h.1, ?_⟩
  rcases hrely.2 with hsame | hnone
  · rw [hsame]
    exact h.2
  · exact .inr hnone

/-- A write inside the transaction. -/
theorem meets_tx {x : Write ι} {xs : List (Write ι)}
    {Q : Unit → Unit → Log (fun o : Op ι => o.Ret) → World ι → Prop}
    (hd : Consistent node target d) (hw : Holding pid d xs w)
    (hasserts : ∀ id values, x = .update id values → ∀ registry,
      buildRegistry node run.env = .ok registry →
        ∀ e ∈ values, Rewritable node registry (d.value id e.1) e.2)
    (hQ : x.inRange = true → ∀ L w', Holding pid d (xs ++ [x]) w' → Q () () L w') :
    Meets exec pid (rotationContract node target strict pid run) (write .inTransaction x) Q
      (Failed node target) () L w := by
  refine Meets.call fun w₁ hrely => ⟨fun id values hsets => ?_, fun _ choice r w' hexec => ?_⟩
  · rcases hsets with heq | heq
    · cases heq
    · rw [(hw.rely hrely).1]
      exact hasserts id values (Op.tx.inj heq)
  · obtain ⟨hw₁, hpending⟩ := hw.rely hrely
    rcases exec_tx hexec with ⟨rfl, e, rfl⟩ | ⟨ys, hys, -, hrange, rfl, rfl⟩
    · refine ⟨?_, fun w₂ hrely₂ => ?_⟩
      · change RotationStep node target strict run w'.tables w'.tables
        rw [hw₁]
        exact .refl hd
      · exact failed_of_tables hd (hrely₂.1.trans hw₁)
    · refine ⟨?_, fun w₂ hrely₂ => ?_⟩
      · change RotationStep node target strict run w₁.tables w₁.tables
        rw [hw₁]
        exact .refl hd
      · obtain rfl : xs = ys := by
          rcases hpending with h | h
          · exact Option.some.inj (h.symm.trans hys)
          · rw [h] at hys
            cases hys
        have hheld : Holding pid d (xs ++ [x]) (w₁.hold pid xs x) :=
          ⟨hw₁, .inl (Function.update_self ..)⟩
        exact hQ hrange _ _ (hheld.rely hrely₂)

/-- The body of a batch's transaction holds back the updates and the checkpoint. -/
theorem meets_writeBatch {us : List (ι × List (String × String))} {xs : List (Write ι)}
    {Q : StoredProgress ι → Unit → Log (fun o : Op ι => o.Ret) → World ι → Prop}
    (hd : Consistent node target d) (hw : Holding pid d xs w)
    (hasserts : ∀ u ∈ us, ∀ registry, buildRegistry node run.env = .ok registry →
      ∀ e ∈ u.2, Rewritable node registry (d.value u.1 e.1) e.2)
    (hQ : ∀ q', q' = { q with rowsReencrypted := q.rowsReencrypted + us.length } → ∀ L w',
      Holding pid d (xs ++ updates us ++ [.upsertProgress q']) w' → Q q' () L w') :
    Meets exec pid (rotationContract node target strict pid run) (writeBatch q us) Q
      (Failed node target) () L w := by
  induction us generalizing q xs L w with
  | nil =>
    refine Meets.bind (meets_tx hd hw (fun id values heq => by cases heq) fun _ L w' hw' => ?_)
    refine Meets.pure fun w'' hrely => hQ q rfl L w'' ?_
    rw [updates, List.map_nil, List.append_nil]
    exact hw'.rely hrely
  | cons u us ih =>
    refine Meets.bind (meets_tx hd hw (fun id values heq => ?_) fun _ L w' hw' => ?_)
    · cases heq
      exact hasserts u List.mem_cons_self
    · refine ih hw' (fun u' hu' => hasserts u' (List.mem_cons_of_mem u hu')) ?_
      intro q' hq' L w'' hw''
      refine hQ q' ?_ L w'' ?_
      · rw [hq', List.length_cons, Nat.add_assoc, Nat.add_comm 1]
      · rw [updates, List.map_cons, ← List.append_cons] at *
        exact hw''

/-- The handler of a failed transaction. -/
theorem meets_rollback {e : Exc} {Q : α → Unit → Log (fun o : Op ι => o.Ret) → World ι → Prop}
    (hd : Consistent node target w.tables) :
    Meets exec pid (rotationContract node target strict pid run)
      (do Routine.call .rollbackTransaction fun r => r
          throw e) Q (Failed node target) () L w := by
  refine Meets.bind (Meets.call fun w₁ hrely => ⟨asserts_of_not_sets ?_ w₁, fun _ choice r w' hexec => ?_⟩)
  · rintro id values (heq | heq) <;> cases heq
  have hw₁ : w₁.tables = w.tables := hrely.1
  have hw' : w'.tables = w.tables := by
    rcases exec_rollbackTransaction hexec with ⟨rfl, -⟩ | ⟨-, rfl⟩ <;> exact hw₁
  refine ⟨?_, fun w₂ hrely₂ => ?_⟩
  · change RotationStep node target strict run w₁.tables w'.tables
    rw [hw₁, hw']
    exact .refl hd
  have hw₂ : w₂.tables = w.tables := hrely₂.1.trans hw'
  cases r with
  | error e' => exact failed_of_tables hd hw₂
  | ok u => exact Meets.throw fun w₃ hrely₃ => failed_of_tables hd (hrely₃.1.trans hw₂)

/-- **The transaction of a batch**: the writes that its body holds back take effect all at once, or
not at all. -/
theorem meets_transaction {fn : Rotation ι α} {A : α → Prop} {xs : List (Write ι)}
    {Q : α → Unit → Log (fun o : Op ι => o.Ret) → World ι → Prop}
    (hd : Consistent node target d) (hw : w.tables = d)
    (hfn : ∀ L w', Holding pid d [] w' → Meets exec pid (rotationContract node target strict pid run)
      fn (fun a _ _ w => A a ∧ Holding pid d xs w) (Failed node target) () L w')
    (hstep : (strict → ∀ q registry, .upsertProgress q ∈ xs →
        buildRegistry node run.env = .ok registry → ReadsBatch node target registry d q) →
      RotationStep node target strict run d (xs.foldl Tables.apply d))
    (hQ : ∀ a L w', A a → w'.tables = xs.foldl Tables.apply d → Q a () L w') :
    Meets exec pid (rotationContract node target strict pid run) (transaction fn) Q
      (Failed node target) () L w := by
  refine Meets.bind (Meets.call fun w₁ hrely => ⟨asserts_of_not_sets ?_ w₁, fun _ choice r w' hexec => ?_⟩)
  · rintro id values (heq | heq) <;> cases heq
  have hw₁ : w₁.tables = d := hrely.1.trans hw
  have hw' : w'.tables = d := by
    rcases exec_startTransaction hexec with ⟨rfl, -⟩ | ⟨-, rfl⟩ <;> exact hw₁
  refine ⟨?_, fun w₂ hrely₂ => ?_⟩
  · change RotationStep node target strict run w₁.tables w'.tables
    rw [hw₁, hw']
    exact .refl hd
  cases r with
  | error e => exact failed_of_tables hd (hrely₂.1.trans hw')
  | ok u =>
    have hopen : Holding pid d [] w' := by
      rcases exec_startTransaction hexec with ⟨-, e, he⟩ | ⟨-, rfl⟩
      · cases he
      · exact ⟨hw₁, .inl (Function.update_self ..)⟩
    refine Meets.tryCatch (Meets.bind ((hfn _ w₂ (hopen.rely hrely₂)).mono ?_ ?_))
    · rintro a t L w₃ ⟨ha, hheld⟩
      refine Meets.bind (Meets.call fun w₄ hrely₄ => ⟨asserts_of_not_sets ?_ w₄,
        fun hexpects choice r w₅ hexec => ?_⟩)
      · rintro id values (heq | heq) <;> cases heq
      obtain ⟨hw₄, hpending⟩ := hheld.rely hrely₄
      rcases exec_commitTransaction hexec with ⟨rfl, e, rfl⟩ | ⟨ys, hys, rfl, hr⟩
      · -- the transaction is dropped
        refine ⟨?_, fun w₆ hrely₆ => meets_rollback ?_⟩
        · change RotationStep node target strict run w₄.tables w₄.tables
          rw [hw₄]
          exact .refl hd
        · rw [hrely₆.1]
          exact hw₄.symm ▸ hd
      · obtain rfl : xs = ys := by
          rcases hpending with h | h
          · exact Option.some.inj (h.symm.trans hys)
          · rw [h] at hys
            cases hys
        have hcommitted : (w₄.commit pid xs).tables = xs.foldl Tables.apply d := by
          rw [← hw₄]
          rfl
        have hgood := hstep fun hstrict q registry hmem hbuild => by
          have hreads := hexpects hstrict rfl xs q registry hys hmem hbuild
          rwa [hw₄] at hreads
        refine ⟨?_, fun w₆ hrely₆ => ?_⟩
        · change RotationStep node target strict run w₄.tables (w₄.commit pid xs).tables
          rw [hw₄, hcommitted]
          exact hgood
        have hw₆ : w₆.tables = xs.foldl Tables.apply d := hrely₆.1.trans hcommitted
        rcases hr with rfl | ⟨e, rfl⟩
        · exact Meets.pure fun w₇ hrely₇ => hQ a _ w₇ ha (hrely₇.1.trans hw₆)
        · exact meets_rollback (hw₆.symm ▸ hgood.consistent)
    · intro e t L w₃ hfailed
      exact meets_rollback hfailed

/-! ### The engine -/

/-- What a run has reached when it returns. -/
def Returned (registry : KeyRegistry) (r : RotationResult ι) (w : World ι) : Prop :=
  r.done = true → w.tables.progress = some r.toStoredProgress ∧ r.status = .completed ∧
    r.targetKeyVersion = registry.activeVersion

variable {registry : KeyRegistry}

/-- The run is about to start another pass: what it knows of its progress is what is stored. -/
structure AtPass (node : Node) (target : RotationTarget) (registry : KeyRegistry) (d : Tables ι)
    (p : StoredProgress ι) : Prop where
  consistent : Consistent node target d
  progress : d.progress = some p
  version : p.targetKeyVersion = registry.activeVersion
  status : p.status = .running

theorem meets_complete {batchesRun : ℕ} (hp : AtPass node target registry d p) (hw : w.tables = d)
    (hpassed : ∀ id ∈ d.ids, Passed p id) :
    Meets exec pid (rotationContract node target strict pid run) (complete p batchesRun)
      (fun r _ _ w => Returned registry r w) (Failed node target) () L w := by
  refine Meets.bind (meets_save hp.consistent hw (fun _ => ?_) fun _ L w' hw' => ?_)
  · exact .save (hp.consistent.save hp.progress rfl fun _ => hpassed) fun hnone => hnone p hp.progress
  · refine Meets.pure fun w'' hrely _ => ⟨?_, rfl, hp.version⟩
    rw [hrely.1, hw']
    rfl

theorem meets_throttle {options : RotationOptions} (hd : Consistent node target d)
    (hw : w.tables = d) :
    Meets exec pid (rotationContract node target strict pid run) (throttle options)
      (fun _ _ _ w => w.tables = d) (Failed node target) () L w := by
  unfold throttle
  split
  · refine Meets.call fun w₁ hrely => ⟨asserts_of_not_sets ?_ w₁, fun _ choice r w' hexec => ?_⟩
    · rintro id values (heq | heq) <;> cases heq
    obtain rfl := exec_sleep hexec
    have hw₁ : w'.tables = d := hrely.1.trans hw
    refine ⟨?_, fun w₂ hrely₂ => hrely₂.1.trans hw₁⟩
    change RotationStep node target strict run w'.tables w'.tables
    rw [hw₁]
    exact .refl hd
  · exact Meets.pure fun w' hrely => hrely.1.trans hw

/-- The updates of a batch replace what may be replaced. -/
theorem rewritable_of_mem_rowUpdates (hd : d.ids.Nodup) {afterId : Option ι} {limit : ℕ}
    {iv : ι → String → List UInt8} {u : ι × List (String × String)}
    (hu : u ∈ rowUpdates node registry target registry.activeVersion iv
      (d.batch target.columns afterId limit)) {e : String × String} (he : e ∈ u.2) :
    Rewritable node registry (d.value u.1 e.1) e.2 := by
  obtain ⟨-, row, hrow, hid, hvalues⟩ := mem_rowUpdates.mp (show (u.1, u.2) ∈ _ from hu)
  obtain ⟨hcolumn, value, hvalue, hstale, hre⟩ :=
    of_mem_scanned (show (e.1, e.2) ∈ _ from hvalues ▸ he)
  obtain ⟨plaintext, hplaintext, hc⟩ := ok_of_bind hre
  rw [← hid, ← (Tables.of_mem_batch hd hrow).2.2 e.1 hcolumn]
  exact ⟨value, plaintext, _, hvalue, hstale, hplaintext, hc⟩

/-- After a batch, the run is about to start the next pass. -/
theorem AtPass.batch (hbuild : buildRegistry node run.env = .ok registry)
    (hmode : registry.mode = .versioned) (hdigits : registry.LabelsInDigits)
    (hp : AtPass node target registry d p) (iv : ι → String → List UInt8) (limit : ℕ) :
    AtPass node target registry
      ((batchWrites node registry target registry.activeVersion iv
        (d.batch target.columns p.lastProcessedId limit) p).foldl Tables.apply d)
      (batchProgress node registry target registry.activeVersion iv
        (d.batch target.columns p.lastProcessedId limit) p) where
  consistent := hp.consistent.batch hbuild hmode hdigits hp.progress hp.version
    (by rw [hp.status]; decide)
  progress := progress_batch _
  version := hp.version
  status := hp.status

/-- The commit of a batch is a step of the rotation. -/
theorem rotationStep_batch (hbuild : buildRegistry node run.env = .ok registry)
    (hmode : registry.mode = .versioned) (hdigits : registry.LabelsInDigits)
    (hp : AtPass node target registry d p) (iv : ι → String → List UInt8) (limit : ℕ)
    (hreads : strict → ∀ q registry', .upsertProgress q ∈ batchWrites node registry target
      registry.activeVersion iv (d.batch target.columns p.lastProcessedId limit) p →
        buildRegistry node run.env = .ok registry' → ReadsBatch node target registry' d q) :
    RotationStep node target strict run d
      ((batchWrites node registry target registry.activeVersion iv
        (d.batch target.columns p.lastProcessedId limit) p).foldl Tables.apply d) := by
  have hnodup := hp.consistent.nodup
  refine ⟨(hp.batch hbuild hmode hdigits iv limit).consistent, fun registry' h => ?_,
    fun hstrict hnone q hq => ?_⟩
  · obtain rfl := Except.ok.inj (hbuild.symm.trans h)
    exact samePlaintexts_batch hbuild hdigits hnodup
  · obtain rfl := Option.some.inj ((progress_batch _).symm.trans hq)
    have hmem := hreads hstrict _ registry
      (List.mem_append_right _ (List.mem_singleton_self _)) hbuild
    rw [rowsFailed_batch hbuild hnodup hmem]
    exact hnone p hp.progress

/-- **The loop over the batches keeps the contract.** -/
theorem meets_rotateBatches (hbuild : buildRegistry node run.env = .ok registry)
    (hmode : registry.mode = .versioned) (hdigits : registry.LabelsInDigits)
    (hlimit : 1 ≤ run.options.batchSize) (fuel batchesRun : ℕ)
    (hp : AtPass node target registry d p) (hw : w.tables = d) :
    Meets exec pid (rotationContract node target strict pid run)
      (rotateBatches node registry target run.options registry.activeVersion run.iv fuel batchesRun p)
      (fun r _ _ w => Returned registry r w) (Failed node target) () L w := by
  induction fuel generalizing batchesRun p d L w with
  | zero => exact Meets.throw fun w' hrely => failed_of_tables hp.consistent (hrely.1.trans hw)
  | succ fuel ih =>
    unfold rotateBatches
    split
    · -- the last batch of this run: the progress is stored as it is
      refine Meets.bind (meets_save hp.consistent hw (fun _ => ?_) fun _ L w' hw' => ?_)
      · have hsame : p = { p with status := p.status } := rfl
        refine .save (hp.consistent.save hp.progress hsame fun h => ?_)
          fun hnone => hnone p hp.progress
        rw [hp.status] at h
        cases h
      · exact Meets.pure fun w'' _ h => by cases h
    · refine Meets.bind (meets_read (d := d) hp.consistent hw (by simp) rfl fun L w₁ hw₁ => ?_)
      split
      next hempty =>
        exact meets_complete hp hw₁ (passed_of_empty hlimit (List.isEmpty_iff.mp hempty))
      next =>
        simp only [foldl_scanRow, List.nil_append]
        have hnext := hp.batch hbuild hmode hdigits run.iv run.options.batchSize
        refine Meets.bind (meets_transaction (A := fun q => q = batchProgress node registry target
          registry.activeVersion run.iv (d.batch target.columns p.lastProcessedId
            run.options.batchSize) p) hp.consistent hw₁ (fun L w₂ hw₂ => ?_)
          (rotationStep_batch hbuild hmode hdigits hp run.iv run.options.batchSize) ?_)
        · refine meets_writeBatch hp.consistent hw₂ ?_ ?_
          · intro u hu registry' h e he
            obtain rfl := Except.ok.inj (hbuild.symm.trans h)
            exact rewritable_of_mem_rowUpdates hp.consistent.nodup hu he
          · rintro q rfl L w₃ hw₃
            exact ⟨rfl, hw₃⟩
        · rintro q L w₂ rfl hw₂
          split
          · -- too many failures
            refine Meets.bind (meets_save hnext.consistent hw₂ (fun _ => ?_) fun _ L w₃ hw₃ => ?_)
            · have hspared : NoFailures _ → _ = 0 := fun hnone => hnone _ hnext.progress
              exact .save (hnext.consistent.save hnext.progress rfl fun h => by cases h) hspared
            · refine Meets.throw fun w₄ hrely => failed_of_tables ?_ (hrely.1.trans hw₃)
              exact hnext.consistent.save hnext.progress rfl fun h => by cases h
          · split
            next hshort =>
              refine meets_complete hnext hw₂ fun id hid => ?_
              rw [Tables.ids_foldl] at hid
              exact passed_of_short hp.consistent.nodup hshort id hid
            next =>
              refine Meets.bind ((meets_throttle hnext.consistent hw₂).mono ?_ fun _ _ _ _ h => h)
              intro _ _ L w₃ hw₃
              exact ih _ hnext hw₃

omit [LinearOrder ι] in
theorem version_startingProgress (target : RotationTarget) (activeVersion : ℕ)
    (loaded : Option (StoredProgress ι)) :
    (startingProgress target activeVersion loaded).targetKeyVersion = activeVersion := by
  unfold startingProgress
  split
  next p hp => exact of_decide_eq_true (Option.filter_eq_some_iff.mp hp).2
  next => rfl

omit [LinearOrder ι] in
theorem status_startingProgress (target : RotationTarget) (activeVersion : ℕ)
    (loaded : Option (StoredProgress ι)) :
    (startingProgress target activeVersion loaded).status = .running := by
  unfold startingProgress
  split <;> rfl

variable (strict run) in
/-- A run goes on with the campaign towards its version, or starts a new one. -/
theorem step_starting {activeVersion : ℕ} (hd : Consistent node target d) :
    RotationStep node target strict run d
      (d.apply (.upsertProgress (startingProgress target activeVersion d.progress))) := by
  unfold startingProgress
  split
  next p hfilter =>
    obtain ⟨hp, -⟩ := Option.filter_eq_some_iff.mp hfilter
    exact .save (hd.save hp rfl fun h => by cases h) fun hnone => hnone p hp
  next hfilter =>
    refine .save (hd.begin (fun p hp heq => ?_) rfl rfl rfl) fun _ => rfl
    rw [hp, Option.filter_some, if_pos (by simpa using heq)] at hfilter
    cases hfilter

variable (strict pid L) in
/-- **A run of the rotation keeps its contract.** -/
theorem meets_rotateTarget (hlimit : 1 ≤ run.options.batchSize)
    (hd : Consistent node target w.tables) :
    Meets exec pid (rotationContract node target strict pid run) (rotateTarget node target run)
      (fun r _ _ w => ∃ registry, buildRegistry node run.env = .ok registry ∧ Returned registry r w)
      (Failed node target) () L w := by
  unfold rotateTarget
  split
  · exact Meets.throw fun w' hrely => failed_of_tables hd hrely.1
  next registry hbuild =>
    split
    · exact Meets.throw fun w' hrely => failed_of_tables hd hrely.1
    next activeVersion hactive =>
      obtain ⟨hmode, rfl⟩ := activeVersion_of_getActiveKeyVersion hactive
      refine Meets.bind (meets_read (d := w.tables) hd rfl (by simp) rfl fun L w₁ hw₁ => ?_)
      unfold rotateFrom
      split
      next p hcompleted =>
        -- the active version has been reached
        obtain ⟨hp, hcond⟩ := Option.filter_eq_some_iff.mp hcompleted
        rw [Bool.and_eq_true, decide_eq_true_eq, decide_eq_true_eq] at hcond
        exact Meets.pure fun w₂ hrely => ⟨registry, hbuild, fun _ =>
          ⟨by rw [hrely.1, hw₁]; exact hp, hcond.2, hcond.1⟩⟩
      next =>
        refine Meets.bind (meets_save hd hw₁ (fun _ => step_starting strict run hd) fun hrange L w₂ hw₂ => ?_)
        have hdigits : registry.LabelsInDigits := fun _ => by
          have hle : (startingProgress target registry.activeVersion
              w.tables.progress).targetKeyVersion ≤ 2147483647 := of_decide_eq_true hrange
          rw [version_startingProgress] at hle
          omega
        refine (meets_rotateBatches hbuild hmode hdigits hlimit run.fuel 0
          ⟨(step_starting strict run hd).consistent, rfl,
            version_startingProgress .., status_startingProgress ..⟩ hw₂).mono ?_ fun _ _ _ _ h => h
        exact fun r _ _ w hr => ⟨registry, hbuild, hr⟩

end Ahjoor.KeyRotation
