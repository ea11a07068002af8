import Ahjoor.Encryption.Resumption

/-!
# Schedules of the rotation

Runs of the rotation on one table, one after another, each stopped anywhere: whatever the schedule,
every value keeps its plaintext, a value at the active version or one that cannot be decrypted is
never written, a campaign writes each row at most once, and the stored counter is the number of
rows that it has written.

When a value cannot be decrypted the cursor passes it all the same, and a later run that finds no
row after the cursor reports the rotation as completed. Schedules in which every batch that is
stored could be decrypted do not get there.
-/

namespace Ahjoor.KeyRotation

open Async

variable {ι : Type} [LinearOrder ι]

/-! ### Schedules -/

/-- The history of a schedule. -/
abbrev RotationHist (ι : Type) :=
  Hist (fun o : Op ι => o.Ret) (World ι) (Call ι) (Except Exc (Option (RotationResult ι)))

/-- The state of a schedule. -/
abbrev RotationState (ι : Type) :=
  State (fun o : Op ι => o.Ret) (World ι) (Call ι) (Except Exc (Option (RotationResult ι)))

/-- The event starts a run of the rotation. -/
def startsRotation :
    Event (fun o : Op ι => o.Ret) (World ι) (Call ι) (Except Exc (Option (RotationResult ι))) → Bool
  | .start _ (.rotate _) => true
  | _ => false

/-- Runs take batches of at least one row and start when no other is in flight, and the application
does not write. -/
def OneAtATime (h h' : RotationHist ι) : Prop :=
  match h'.trace with
  | .start _ (.rotate run) :: _ => 1 ≤ run.options.batchSize ∧
      ∀ e ∈ h.trace, startsRotation e = true → ∃ e' ∈ h.trace, e'.isEnd = true ∧ e'.pid = e.pid
  | .start _ (.application _) :: _ => False
  | _ => True

/-- Runs are started with the registry. -/
def Under (node : Node) (registry : KeyRegistry) (h' : RotationHist ι) : Prop :=
  match h'.trace with
  | .start _ (.rotate run) :: _ => buildRegistry node run.env = .ok registry
  | _ => True

instance : DecidableRel (OneAtATime : RotationHist ι → _ → Prop) := fun h h' => by
  unfold OneAtATime
  split <;> infer_instance

instance (node : Node) (registry : KeyRegistry) :
    DecidablePred (Under node registry : RotationHist ι → Prop) := fun h' => by
  unfold Under
  split <;> infer_instance

/-- A world in which the table has not been rotated yet. -/
def untouched (rows : List (RotationRow ι)) : World ι where
  tables := { rows }

/-- What a run of the rotation writes, and what the stored progress says of it. -/
structure RotationSound (node : Node) (s : RotationState ι) : Prop where
  /-- an `UPDATE` sets only values that are stale and can be decrypted -/
  rewritable : ∀ pid run o r w id values registry, Event.start pid (.rotate run) ∈ s.hist.trace →
    Event.did pid o r w ∈ s.hist.trace → Sets o id values →
    buildRegistry node run.env = .ok registry →
      ∀ e ∈ values, Rewritable node registry (w.tables.value id e.1) e.2
  /-- the campaign has written each row at most once -/
  once : ∀ p, s.hist.world.tables.progress = some p →
    (rewritten p.targetKeyVersion s.hist.world.tables.log).Nodup
  /-- the stored counter is the number of rows that the campaign has written -/
  counted : ∀ p, s.hist.world.tables.progress = some p →
    p.rowsReencrypted = (rewritten p.targetKeyVersion s.hist.world.tables.log).length

/-! ### The calls -/

section

variable (node : Node) (target : RotationTarget) (strict : Prop)

/-- The contract of a call. -/
def contract (pid : ℕ) : Call ι → Contract (fun o : Op ι => o.Ret) (World ι)
  | .rotate run => rotationContract node target strict pid run
  | .application _ => {
      rely := fun _ _ => True
      guarantee := fun _ _ => False
      expects := fun _ _ _ => True
      asserts := fun _ _ _ => True
      rely_refl := fun _ => trivial
      rely_trans := fun _ _ => trivial }
  | .dropSession _ => {
      rely := fun _ _ => True
      guarantee := fun w w' => w'.tables = w.tables ∧
        ∀ p, w'.pending p = w.pending p ∨ w'.pending p = none
      expects := fun _ _ _ => True
      asserts := fun _ _ _ => True
      rely_refl := fun _ => trivial
      rely_trans := fun _ _ => trivial }

/-- What a call has reached when it returns. -/
def Reached : Call ι → Except Exc (Option (RotationResult ι)) → World ι → Prop
  | .rotate run, .ok (some r), w =>
      ∃ registry, buildRegistry node run.env = .ok registry ∧ Returned registry r w
  | _, _, _ => True

/-- Calls that may be in flight together. -/
def Beside : Call ι → Call ι → Prop
  | .rotate _, .rotate _ => False
  | _, _ => True

end

variable {node : Node} {target : RotationTarget} {strict : Prop}

omit [LinearOrder ι] in
theorem pending_release {w : World ι} (p p' : ℕ) :
    (w.release p).pending p' = w.pending p' ∨ (w.release p).pending p' = none := by
  by_cases h : p' = p
  · right
    rw [h]
    exact Function.update_self ..
  · left
    exact Function.update_of_ne h ..

/-- **Schedules of the rotation are verified.** -/
theorem verified {ok : RotationHist ι → RotationHist ι → Prop}
    (hok : ∀ h h', ok h h' → OneAtATime h h')
    (hexpects : ∀ h pid run o r w', Event.start pid (.rotate run) ∈ h.trace →
      ok h (h.push (.did pid o r h.world) w') →
        (rotationContract node target strict pid run).expects (log pid h.trace) o h.world) :
    Verified (system node target) ok (contract node target strict)
      (fun _ c a _ w => Reached node c a w)
      (fun w => Consistent node target w.tables ∧ (strict → NoFailures w.tables)) Beside where
  body h pid c hinv hstart := by
    have hone := hok _ _ hstart
    cases c with
    | rotate run =>
      have hbody := meets_rotateTarget strict pid [] hone.1 hinv.1
      have hcall : Meets exec pid (rotationContract node target strict pid run)
          ((Call.rotate run).body node target)
          (fun a _ _ w => Reached node (.rotate run) (.ok a) w) (Failed node target) () [] h.world := by
        refine Meets.bind (hbody.mono (fun r _ L w hr => ?_) fun _ _ _ _ h => h)
        obtain ⟨registry, hbuild, hr⟩ := hr
        refine Meets.pure fun w' hrely => ⟨registry, hbuild, fun hdone => ?_⟩
        rw [hrely.1]
        exact hr hdone
      refine hcall.safe.bind fun x L w hx w' hrely => ?_
      rcases x with ⟨e | a, t⟩
      · trivial
      · exact hx w' hrely
    | application writes => exact hone.elim
    | dropSession p =>
      refine fun w₁ _ => ⟨trivial, fun _ choice r w' hexec => ?_⟩
      obtain rfl := exec_dropSession hexec
      exact ⟨⟨rfl, pending_release p⟩, fun _ _ => trivial⟩
  keeps pid c w w' hinv hguarantee := by
    cases c with
    | rotate run => exact ⟨hguarantee.consistent, fun hstrict => hguarantee.spared hstrict (hinv.2 hstrict)⟩
    | application writes => exact hguarantee.elim
    | dropSession p =>
      rw [hguarantee.1]
      exact hinv
  respects pid c pid' c' w w' hne hbeside hguarantee := by
    cases c with
    | rotate run =>
      cases c' with
      | rotate run' => exact hbeside.elim
      | application writes => exact hguarantee.elim
      | dropSession p => exact ⟨hguarantee.1, hguarantee.2 pid⟩
    | application writes => trivial
    | dropSession p => trivial
  expected h pid c o r w' hstart hstep := by
    cases c with
    | rotate run => exact hexpects h pid run o r w' hstart hstep
    | application writes => trivial
    | dropSession p => trivial
  admitted h pid c hstep pid' c' hstart hlive := by
    have hone := hok _ _ hstep
    cases c with
    | rotate run =>
      cases c' with
      | rotate run' =>
        -- another run that has started has also ended
        obtain ⟨e, he, hend, heq⟩ := hone.2 _ hstart rfl
        exact absurd heq (hlive e he hend)
      | application writes => exact ⟨trivial, trivial⟩
      | dropSession p => exact ⟨trivial, trivial⟩
    | application writes => exact hone.elim
    | dropSession p => cases c' <;> exact ⟨trivial, trivial⟩

/-! ### Data is preserved -/

section

variable {rows : List (RotationRow ι)} {s : RotationState ι}

theorem consistent_untouched (hrows : (rows.map (·.id)).Nodup) :
    Consistent node target (untouched rows).tables := ⟨hrows, rfl⟩

omit [LinearOrder ι] in
theorem noFailures_untouched : NoFailures (untouched rows).tables :=
  fun _ hp => by cases hp

/-- The schedules of runs one at a time. -/
theorem verified_oneAtATime :
    Verified (system node target) (OneAtATime : RotationHist ι → RotationHist ι → Prop)
      (contract node target False) (fun _ c a _ w => Reached node c a w)
      (fun w => Consistent node target w.tables ∧ (False → NoFailures w.tables)) Beside :=
  verified (fun _ _ h => h) fun _ _ _ _ _ _ _ _ hfalse => hfalse.elim

theorem kept_of_oneAtATime (hrows : (rows.map (·.id)).Nodup)
    (hs : (system node target).ReachableWhen OneAtATime (.init (untouched rows)) s) :
    System.Lifecycle s ∧ Kept (system node target) (contract node target False)
      (fun _ c a _ w => Reached node c a w)
      (fun w => Consistent node target w.tables ∧ (False → NoFailures w.tables)) Beside s :=
  kept_of_reachable verified_oneAtATime ⟨consistent_untouched hrows, False.elim⟩ hs

/-- **Key rotation preserves data and is resumable**: in every schedule of runs, one at a time and
each stopped anywhere, what is written and counted is right, and from any moment between two runs
on, runs under one registry keep every plaintext that it reads. -/
theorem rotationSound_of_oneAtATime (node : Node) (target : RotationTarget)
    {rows : List (RotationRow ι)} (hrows : (rows.map (·.id)).Nodup) {s : RotationState ι}
    (hs : (system node target).ReachableWhen OneAtATime (.init (untouched rows)) s) :
    RotationSound node s ∧ ∀ registry s', s.Quiet →
      (system node target).ReachableWhen (fun h h' => OneAtATime h h' ∧ Under node registry h') s s' →
        SamePlaintexts node registry s.hist.world.tables s'.hist.world.tables := by
  refine ⟨?_, fun registry s' hquiet hs' => ?_⟩
  · obtain ⟨-, hkept⟩ := kept_of_oneAtATime hrows hs
    refine ⟨fun pid run o r w id values registry hstart hdid hsets hbuild => ?_, fun p hp => ?_,
      fun p hp => ?_⟩
    · obtain ⟨before, after, hsplit⟩ := List.append_of_mem hdid
      exact hkept.asserted pid _ o r w after hstart (hsplit ▸ List.suffix_append _ _) id values hsets
        registry hbuild
    · exact (hkept.inv.1.tracked hp).once
    · exact (hkept.inv.1.tracked hp).counted
  · -- the runs in flight were started after `s`, and so under the registry
    suffices h : (system node target).ReachableWhen OneAtATime (.init (untouched rows)) s' ∧
        (∀ pid run p, Event.start pid (.rotate run) ∈ s'.hist.trace → s'.task pid = some p →
          buildRegistry node run.env = .ok registry) ∧
        SamePlaintexts node registry s.hist.world.tables s'.hist.world.tables from h.2.2
    induction hs' with
    | refl =>
      refine ⟨hs, fun pid run p _ htask => ?_, fun _ _ => rfl⟩
      rw [hquiet pid] at htask
      cases htask
    | @tail s₁ s₂ _ hstep ih =>
      obtain ⟨hreach, hlive, hsame⟩ := ih
      obtain ⟨⟨m, hm⟩, hone, hunder⟩ := hstep
      have hkind := System.stepKind_of_move hm
      obtain ⟨hl, hkept⟩ := kept_of_oneAtATime hrows hreach
      refine ⟨hreach.tail ⟨⟨m, hm⟩, hone⟩, fun pid run p hstart htask => ?_, ?_⟩
      · rcases hl.live hkind hstart htask with ⟨hstart', p', htask'⟩ | htrace
        · exact hlive pid run p' hstart' htask'
        · rw [Under, htrace] at hunder
          exact hunder
      · rcases hkept.world_step verified_oneAtATime hl hkind hone with
          heq | ⟨pid, c, p, hstart, htask, hguarantee⟩
        · rw [heq]
          exact hsame
        · cases c with
          | rotate run =>
            have hrun := hguarantee.same registry (hlive pid run p hstart htask)
            exact fun id column => (hrun id column).trans (hsame id column)
          | application writes => exact hguarantee.elim
          | dropSession p' =>
            rw [hguarantee.1]
            exact hsame

end

/-! ### A small schedule -/

namespace Sample

/-- The table of users with one encrypted column. -/
def users : RotationTarget := ⟨"users", ["email"]⟩

/-- A user whose address is stored as the given value. -/
def user (email : String) : RotationRow ℕ := ⟨0, fun column => if column = "email" then some email else none⟩

/-- What version 1 stores for a plaintext, with the key of `keyRegistry`. -/
def oldValue : String := "v1:" ++ Sample.encipher (List.replicate 32 17) "p"

/-- A run towards version 2. -/
def run : Run ℕ := ⟨Sample.keyEnv "2", {}, fun _ _ => [], 3⟩

/-- `n` operations of call `pid` that are done. -/
def dones (pid n : ℕ) : List (Move Choice (Call ℕ)) := List.replicate n (.run pid .done)

/-- A whole run over one row. -/
def runSchedule : List (Move Choice (Call ℕ)) :=
  .start (.rotate run) :: dones 0 8 ++ [.finish 0]

end Sample

/-- A run that rewrites one row. -/
theorem rotationSound_sample : ∃ s : RotationState ℕ,
    (∃ p, s.hist.world.tables.progress = some p ∧ p.rowsReencrypted = 1) ∧
      RotationSound Ahjoor.Sample.node s ∧
      SamePlaintexts Ahjoor.Sample.node (Ahjoor.Sample.keyRegistry 2)
        (untouched [Sample.user Sample.oldValue]).tables s.hist.world.tables := by
  have hrows : ([Sample.user Sample.oldValue].map (·.id)).Nodup := by decide
  obtain ⟨s, hs, hp⟩ := System.exists_of_replay (system Ahjoor.Sample.node Sample.users)
    (fun h h' => OneAtATime h h' ∧ Under Ahjoor.Sample.node (Ahjoor.Sample.keyRegistry 2) h')
    (.init (untouched [Sample.user Sample.oldValue])) Sample.runSchedule
    (fun s => s.hist.world.tables.progress.any fun p => p.rowsReencrypted == 1) (by decide +kernel)
  obtain ⟨p, hprogress, hcount⟩ := System.exists_of_any hp
  have hone : (system Ahjoor.Sample.node Sample.users).ReachableWhen OneAtATime
      (.init (untouched [Sample.user Sample.oldValue])) s :=
    System.ReachableWhen.mono (fun _ _ h => h.1) hs
  refine ⟨s, ⟨p, hprogress, by simpa using hcount⟩, ?_, ?_⟩
  · exact (rotationSound_of_oneAtATime Ahjoor.Sample.node Sample.users hrows hone).1
  · exact (rotationSound_of_oneAtATime Ahjoor.Sample.node Sample.users hrows .refl).2 _ s
      (fun _ => rfl) hs

/-! ### Completion -/

section

variable (node : Node) (target : RotationTarget)

/-- Runs abort at the first failure. -/
def NoFailureTolerated (h' : RotationHist ι) : Prop :=
  match h'.trace with
  | .start _ (.rotate run) :: _ => run.options.maxFailures = 0
  | _ => True

/-- The registry decrypts every stale value of the rows up to the cursor that a write stores. -/
def CanRead (registry : KeyRegistry) (d : Tables ι) : Write ι → Prop
  | .upsertProgress p => ∀ row ∈ d.rows, (∃ last ∈ p.lastProcessedId, row.id ≤ last) →
      ∀ column ∈ target.columns, ∀ value ∈ row.value column, Stale node registry.activeVersion value →
        (decrypt node registry value).isOk = true
  | _ => True

/-- When a run commits a batch, its registry decrypts every stale value up to the new cursor. -/
def BatchRead (pid : ℕ) (w : World ι) :
    Event (fun o : Op ι => o.Ret) (World ι) (Call ι) (Except Exc (Option (RotationResult ι))) → Prop
  | .start p (.rotate run) => p = pid → ∀ xs ∈ w.pending pid,
      ∀ registry ∈ (buildRegistry node run.env).toOption, ∀ x ∈ xs, CanRead node target registry w.tables x
  | _ => True

/-- Every batch that is stored could be decrypted. -/
def BatchesRead (h h' : RotationHist ι) : Prop :=
  match h'.trace with
  | .did pid .commitTransaction _ w :: _ => ∀ e ∈ h.trace, BatchRead node target pid w e
  | _ => True

/-- Runs one at a time that abort at the first failure, in which every batch that is stored could
be decrypted. -/
def ReadableSchedule (h h' : RotationHist ι) : Prop :=
  OneAtATime h h' ∧ NoFailureTolerated h' ∧ BatchesRead node target h h'

instance : DecidablePred (NoFailureTolerated : RotationHist ι → Prop) := fun h' => by
  unfold NoFailureTolerated
  split <;> infer_instance

instance (registry : KeyRegistry) (d : Tables ι) :
    DecidablePred (CanRead node target registry d) := fun x => by
  unfold CanRead Stale
  split <;> infer_instance

instance (pid : ℕ) (w : World ι) : DecidablePred (BatchRead node target pid w) := fun e => by
  unfold BatchRead
  split <;> infer_instance

instance : DecidableRel (ReadableSchedule node target : RotationHist ι → _ → Prop) := fun h h' => by
  unfold ReadableSchedule BatchesRead
  refine @instDecidableAnd _ _ inferInstance (@instDecidableAnd _ _ inferInstance ?_)
  split <;> infer_instance

/-- **Completion means completeness**, in the runs whose steps meet `ok`: when the stored progress
says `completed` or a run has just returned as done, every value of the target columns is at the
version. -/
def CompletionComplete (ok : RotationHist ι → RotationHist ι → Prop) (rows : List (RotationRow ι)) :
    Prop :=
  ∀ s, (system node target).ReachableWhen ok (.init (untouched rows)) s →
    (∀ p, s.hist.world.tables.progress = some p → p.status = .completed →
      AllRotated node target p.targetKeyVersion s.hist.world.tables) ∧
    ∀ pid run r registry es, Event.start pid (.rotate run) ∈ s.hist.trace →
      s.hist.trace = .returned pid (.ok (some r)) :: es → r.done = true →
      buildRegistry node run.env = .ok registry →
        AllRotated node target registry.activeVersion s.hist.world.tables

end

theorem readsBatch_of_canRead {registry : KeyRegistry} {d : Tables ι} {p : StoredProgress ι}
    (h : CanRead node target registry d (.upsertProgress p)) :
    ReadsBatch node target registry d p := by
  rintro id ⟨last, hlast, hle⟩ column hcolumn value hvalue hstale
  obtain ⟨row, hrow, rfl, hrowvalue⟩ := Tables.mem_of_value hvalue
  have hok := h row hrow ⟨last, hlast, hle⟩ column hcolumn value hrowvalue hstale
  cases hdecrypt : decrypt node registry value with
  | ok plaintext => exact ⟨plaintext, rfl⟩
  | error e =>
    rw [hdecrypt] at hok
    cases hok

theorem verified_readableSchedule :
    Verified (system node target) (ReadableSchedule node target : RotationHist ι → _ → Prop)
      (contract node target True) (fun _ c a _ w => Reached node c a w)
      (fun w => Consistent node target w.tables ∧ (True → NoFailures w.tables)) Beside := by
  refine verified (fun _ _ h => h.1) fun h pid run o r w' hstart hok _ ho xs q registry hxs hmem hbuild => ?_
  subst ho
  refine readsBatch_of_canRead (hok.2.2 _ hstart rfl xs hxs registry ?_ _ hmem)
  rw [hbuild]
  rfl

/-- **In schedules in which every batch that is stored could be decrypted, completion means
completeness.** -/
theorem completionComplete_of_batchesRead (node : Node) (target : RotationTarget)
    {rows : List (RotationRow ι)} (hrows : (rows.map (·.id)).Nodup) :
    CompletionComplete node target (ReadableSchedule node target) rows := by
  intro s hs
  have hinit : Consistent node target (untouched rows).tables ∧
      (True → NoFailures (untouched rows).tables) :=
    ⟨consistent_untouched hrows, fun _ => noFailures_untouched⟩
  obtain ⟨-, hkept⟩ := kept_of_reachable verified_readableSchedule hinit hs
  have hnone := hkept.inv.2 trivial
  refine ⟨fun p hp hstatus => ?_, fun pid run r registry es hstart htrace hdone hbuild => ?_⟩
  · exact (hkept.inv.1.tracked hp).finished hstatus (hnone p hp)
  · obtain ⟨registry', hbuild', hreturned⟩ := hkept.returned pid _ _ es hstart htrace
    obtain ⟨hp, hstatus, hversion⟩ := hreturned hdone
    obtain rfl := Except.ok.inj (hbuild.symm.trans hbuild')
    rw [← hversion]
    exact (hkept.inv.1.tracked hp).finished hstatus (hnone _ hp)

/-- A schedule of one run that completes. -/
theorem completionComplete_sample : ∃ s : RotationState ℕ,
    (∃ p, s.hist.world.tables.progress = some p ∧ p.status = .completed) ∧
      AllRotated Ahjoor.Sample.node Sample.users 2 s.hist.world.tables := by
  obtain ⟨s, hs, hp⟩ := System.exists_of_replay (system Ahjoor.Sample.node Sample.users)
    (ReadableSchedule Ahjoor.Sample.node Sample.users)
    (.init (untouched [Sample.user Sample.oldValue])) Sample.runSchedule
    (fun s => s.hist.world.tables.progress.any fun p =>
      p.status == .completed && p.targetKeyVersion == 2) (by decide +kernel)
  obtain ⟨p, hprogress, hp⟩ := System.exists_of_any hp
  obtain ⟨hstatus, hversion⟩ := Bool.and_eq_true_iff.mp hp
  have hall := (completionComplete_of_batchesRead Ahjoor.Sample.node Sample.users
    (show ([Sample.user Sample.oldValue].map (·.id)).Nodup by decide) s hs).1 p hprogress (by simpa using hstatus)
  rw [show p.targetKeyVersion = 2 by simpa using hversion] at hall
  exact ⟨s, ⟨p, hprogress, by simpa using hstatus⟩, hall⟩

/-- A value that cannot be decrypted makes the first run abort; the second one finds no row after
the cursor and reports the rotation as completed. -/
theorem not_completionComplete : ¬ CompletionComplete Ahjoor.Sample.node Sample.users
    (fun h h' => OneAtATime h h' ∧ NoFailureTolerated h') [Sample.user "v1:?"] := by
  intro hcomplete
  obtain ⟨s, hs, hp⟩ := System.exists_of_replay (system Ahjoor.Sample.node Sample.users)
    (fun h h' => OneAtATime h h' ∧ NoFailureTolerated h') (.init (untouched [Sample.user "v1:?"]))
    (.start (.rotate Sample.run) :: Sample.dones 0 7 ++ .finish 0 ::
      .start (.rotate Sample.run) :: Sample.dones 1 4)
    (fun s => (s.hist.world.tables.progress.any fun p =>
        p.status == .completed && p.targetKeyVersion == 2) &&
      s.hist.world.tables.value 0 "email" == some "v1:?") (by decide +kernel)
  obtain ⟨hprogress, hvalue⟩ := Bool.and_eq_true_iff.mp hp
  obtain ⟨p, hp, hstatus⟩ := System.exists_of_any hprogress
  obtain ⟨hstatus, hversion⟩ := Bool.and_eq_true_iff.mp hstatus
  have hall := (hcomplete s hs).1 p hp (by simpa using hstatus) 0 "email" (by decide) "v1:?"
    (by simpa using hvalue)
  rw [show p.targetKeyVersion = 2 by simpa using hversion] at hall
  exact hall ⟨by decide, by decide +kernel⟩

end Ahjoor.KeyRotation
