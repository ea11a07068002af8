import Ahjoor.Audit.Anchors
import Ahjoor.Audit.TamperEvidence
import Mathlib.Data.List.Chain
import Mathlib.Data.List.Perm.Basic

/-!
# The audit log as one chain

Pruning keeps the chain: what is deleted is the front of it. But `createLog` stores what it is given
and computes no hash, so a row that comes without its place in the chain ends the chain. The log
stays one chain where each row that is stored brings its place with it.
-/

namespace Ahjoor.Audit

open Json

/-! ### What is claimed -/

/-- `anchorCurrentChainHead` **anchors the row**, or fails if there is none. -/
def AnchorsLast {Ledger : Type} (network : Network Ledger) (config : Config) (rows : Rows) :
    Option AuditLog → Prop
  | none => ∀ w id now, w.rows = rows → ∃ e,
      (anchorCurrentChainHead network config none chainPartitionGlobal id now w).1 = .error e
  | some last => ∀ w id now, w.rows = rows → ∃ anchor rest,
      (anchorCurrentChainHead network config none chainPartitionGlobal id now w).1 = .ok anchor ∧
        some anchor.chainHeadHash = last.hash ∧
        anchor.payload = .obj (("anchoredHeadId", .str last.id) :: rest)

/-- The rows of the `GLOBAL` partition, in the order of `(timestamp, id)`, are a **chain**. -/
structure GlobalChain (sha256 : String → String) (rows ordered : Rows) : Prop where
  perm : ordered.Perm (rows.filter (AuditLog.isIn chainPartitionGlobal))
  sorted : ordered.Pairwise fun a b => a.place < b.place
  linked : ordered.IsChain fun a b => b.prevHash = a.hash
  hashed : ∀ row ∈ ordered, row.hash = some (computeRowHash sha256 row.input)

/-- **The log is one chain**, and its last row is the one that is anchored. -/
def OneChain {Ledger : Type} (network : Network Ledger) (config : Config)
    (sha256 : String → String) (rows : Rows) : Prop :=
  ∃ ordered, GlobalChain sha256 rows ordered ∧ AnchorsLast network config rows ordered.getLast?

/-- The row is the last of its partition. -/
def IsLast (rows : Rows) (row : AuditLog) : Prop :=
  row ∈ rows ∧ row.isIn chainPartitionGlobal ∧
    ∀ r ∈ rows, r.isIn chainPartitionGlobal → r.place ≤ row.place

/-- The row **brings its place in the chain** with it. -/
structure Extends (sha256 : String → String) (rows : Rows) (row : AuditLog) : Prop where
  after : ∀ r ∈ rows, r.isIn chainPartitionGlobal → r.place < row.place
  link : ∀ last, IsLast rows last → row.prevHash = last.hash ∧ row.chainId = last.chainId
  chained : (nonEmpty row.chainId).isSome
  hashed : row.hash = some (computeRowHash sha256 row.input)

/-- What the chain is made of is **left alone**. -/
structure Kept (old new : AuditLog) : Prop where
  isGlobal : new.isIn chainPartitionGlobal = old.isIn chainPartitionGlobal
  place : new.place = old.place
  input : new.isIn chainPartitionGlobal → new.input = old.input
  hash : new.isIn chainPartitionGlobal → new.hash = old.hash
  link : new.isIn chainPartitionGlobal → new.prevHash = old.prevHash ∧ new.chainId = old.chainId

/-- A call of `createLog` that **writes the chain on**: a stored row that it changes is kept in the
chain as it was, and a row that it adds is in another partition or brings its place with it. -/
def WritesOn (sha256 : String → String) (rows : Rows) : Call → Prop
  | .archiveOldLogs _ _ => True
  | .createLog data id now =>
      (∀ row, data.stored rows = some row → ∀ r ∈ rows, r.id = row.id → Kept r (data.over r)) ∧
        ∀ row, data.stored rows = none → (createLog data id now rows).1 = .ok row →
          row.isIn chainPartitionGlobal → Extends sha256 rows row

/-- Each call writes the chain on. -/
def AllWriteOn (sha256 : String → String) : Rows → List Call → Prop
  | _, [] => True
  | rows, call :: calls => WritesOn sha256 rows call ∧ AllWriteOn sha256 (call.apply rows) calls

/-! ### The head of a chain -/

section Chain

variable {sha256 : String → String} {cid : String} {rows ordered : Rows} {row : AuditLog}

/-- The chain has the one id. -/
structure ChainOf (sha256 : String → String) (cid : String) (rows ordered : Rows) : Prop
    extends GlobalChain sha256 rows ordered where
  chained : ∀ row ∈ ordered, row.chainId = some cid

theorem GlobalChain.mem_iff (h : GlobalChain sha256 rows ordered) :
    row ∈ ordered ↔ row ∈ rows ∧ row.isIn chainPartitionGlobal := by
  rw [h.perm.mem_iff, List.mem_filter]

/-- In a sorted list, a row is no later than the last one. -/
theorem le_getLast (hsorted : ordered.Pairwise fun a b => a.place < b.place) (hne : ordered ≠ [])
    (hrow : row ∈ ordered) : row = ordered.getLast hne ∨ row.place < (ordered.getLast hne).place := by
  rw [← List.dropLast_append_getLast hne] at hsorted hrow
  rcases List.mem_append.mp hrow with hfront | hlast
  · exact Or.inr ((List.pairwise_append.mp hsorted).2.2 row hfront _ (.head _))
  · exact Or.inl (List.mem_singleton.mp hlast)

theorem GlobalChain.isLast (h : GlobalChain sha256 rows ordered) (hne : ordered ≠ []) :
    IsLast rows (ordered.getLast hne) := by
  obtain ⟨hmem, hin⟩ := h.mem_iff.mp (List.getLast_mem hne)
  refine ⟨hmem, hin, fun r hr hglobal => ?_⟩
  rcases le_getLast h.sorted hne (h.mem_iff.mpr ⟨hr, hglobal⟩) with rfl | hlt
  · exact le_rfl
  · exact hlt.le

/-- **The row that is read as the head** is the last one. -/
theorem ChainOf.latest_eq (h : ChainOf sha256 cid rows ordered) :
    Store.latest AuditLog.place
      (rows.filter fun row => row.chainId = some cid && row.isIn chainPartitionGlobal) =
        ordered.getLast? := by
  have hmem : ∀ row, row ∈ (rows.filter fun row =>
      row.chainId = some cid && row.isIn chainPartitionGlobal) ↔ row ∈ ordered := by
    intro row
    rw [List.mem_filter, Bool.and_eq_true, decide_eq_true_eq, h.mem_iff]
    refine ⟨fun hrow => ⟨hrow.1, hrow.2.2⟩, fun hrow => ⟨hrow.1, ?_, hrow.2⟩⟩
    exact h.chained row (h.mem_iff.mpr hrow)
  cases hmax : Store.latest AuditLog.place (rows.filter fun row =>
      row.chainId = some cid && row.isIn chainPartitionGlobal) with
  | none =>
    have hnil := Store.latest_eq_none.mp hmax
    have hordered : ordered = [] := List.eq_nil_iff_forall_not_mem.mpr fun row hrow => by
      have hfilter := (hmem row).mpr hrow
      rw [hnil] at hfilter
      exact List.not_mem_nil hfilter
    rw [hordered]
    rfl
  | some m =>
    have hm : m ∈ ordered := (hmem m).mp (Store.mem_of_latest hmax)
    have hne : ordered ≠ [] := List.ne_nil_of_mem hm
    rw [List.getLast?_eq_some_getLast hne]
    have hle := Store.le_of_latest hmax ((hmem _).mpr (List.getLast_mem hne))
    rcases le_getLast h.sorted hne hm with rfl | hlt
    · rfl
    · exact absurd hlt (not_lt.mpr hle)

/-- The chain that is found. -/
theorem ChainOf.resolveGlobalChainId_eq (h : ChainOf sha256 cid rows ordered) (hcid : cid ≠ "")
    (hne : ordered ≠ []) : resolveGlobalChainId rows = .ok cid := by
  have hfilter : rows.filter (AuditLog.isIn chainPartitionGlobal) ≠ [] := fun hnil =>
    hne (List.Perm.eq_nil (hnil ▸ h.perm))
  have hsome : Store.earliest AuditLog.place (rows.filter (AuditLog.isIn chainPartitionGlobal)) ≠ none :=
    mt Store.earliest_eq_none.mp hfilter
  obtain ⟨first, hfirst⟩ := Option.ne_none_iff_exists'.mp hsome
  have hmem : first ∈ ordered := h.perm.mem_iff.mpr (Store.mem_of_earliest hfirst)
  rw [resolveGlobalChainId, hfirst, Option.bind_some, h.chained first hmem, nonEmpty_of_ne hcid]

theorem resolveGlobalChainId_of_nil (h : GlobalChain sha256 rows []) :
    resolveGlobalChainId rows = .error "No global audit chain found" := by
  have hfilter : rows.filter (AuditLog.isIn chainPartitionGlobal) = [] := h.perm.symm.eq_nil
  rw [resolveGlobalChainId, hfilter]
  rfl

/-- **The head of the chain is anchored.** -/
theorem ChainOf.anchorsLast {Ledger : Type} {network : Network Ledger} {config : Config}
    (hsha : ∀ text, sha256 text ≠ "") (h : ChainOf sha256 cid rows ordered) (hcid : cid ≠ "") :
    AnchorsLast network config rows ordered.getLast? := by
  rcases List.eq_nil_or_concat' ordered with rfl | ⟨front, last, rfl⟩
  · rintro w id now rfl
    refine ⟨"No global audit chain found", ?_⟩
    simp only [anchorCurrentChainHead, chainHead, resolveGlobalChainId_of_nil h.toGlobalChain, bind,
      Except.bind]
  · have hlast : last ∈ front ++ [last] := List.mem_append_right _ (.head _)
    have hhash := h.hashed last hlast
    have hlatest := h.latest_eq
    rw [List.getLast?_concat] at hlatest ⊢
    rintro w id now rfl
    have hhead : chainHead none chainPartitionGlobal w.rows = .ok (cid, some last) := by
      simp only [chainHead, h.resolveGlobalChainId_eq hcid (List.ne_nil_of_mem hlast), bind,
        Except.bind, pure, Except.pure, hlatest]
    have hfound : ((some last).bind fun row => (nonEmpty row.hash).map fun hash => (row, hash)) =
        some (last, computeRowHash sha256 last.input) := by
      have hne : computeRowHash sha256 last.input ≠ "" := hsha _
      rw [Option.bind_some, hhash, nonEmpty_of_ne hne]
      rfl
    simp only [anchorCurrentChainHead, hhead, hfound]
    exact ⟨_, _, rfl, hhash.symm, rfl⟩

/-! ### What the calls do to a chain -/

/-- **Pruning** deletes the front of the chain. -/
theorem dropWhile_eq_filter (cutoffDate : ℤ) (hsorted : ordered.Pairwise fun a b => a.place < b.place) :
    ordered.filter (fun row => !(row.timestamp < cutoffDate)) =
      ordered.dropWhile fun row => row.timestamp < cutoffDate := by
  induction ordered with
  | nil => rfl
  | cons row ordered ih =>
    obtain ⟨hfirst, hrest⟩ := List.pairwise_cons.mp hsorted
    by_cases hold : row.timestamp < cutoffDate
    · rw [List.filter_cons_of_neg (by simp [hold]), List.dropWhile_cons_of_pos (by simp [hold]),
        ih hrest]
    · rw [List.dropWhile_cons_of_neg (by simp [hold]), List.filter_eq_self]
      intro r hr
      rcases List.mem_cons.mp hr with rfl | hr
      · simp [hold]
      · have hle : row.timestamp ≤ r.timestamp := Prod.Lex.monotone_fst _ _ (hfirst r hr).le
        have hnew : ¬ r.timestamp < cutoffDate := by omega
        simp [hnew]

theorem ChainOf.archiveOldLogs (h : ChainOf sha256 cid rows ordered) (daysOld now : ℤ) :
    ∃ ordered', ChainOf sha256 cid (Audit.archiveOldLogs daysOld now rows).2 ordered' := by
  have hdrop := dropWhile_eq_filter (now - daysOld * 86400000) h.sorted
  have hsuffix : ordered.filter (fun row => !(row.timestamp < now - daysOld * 86400000)) <:+
      ordered := by
    rw [hdrop]
    exact List.dropWhile_suffix _
  refine ⟨ordered.filter fun row => !(row.timestamp < now - daysOld * 86400000), ⟨?_, ?_, ?_, ?_⟩, ?_⟩
  · rw [Audit.archiveOldLogs, List.filter_comm]
    exact h.perm.filter _
  · exact h.sorted.sublist hsuffix.sublist
  · exact h.linked.suffix hsuffix
  · exact fun row hrow => h.hashed row (List.mem_of_mem_filter hrow)
  · exact fun row hrow => h.chained row (List.mem_of_mem_filter hrow)

/-- **Rows that are changed** outside the chain's columns. -/
theorem ChainOf.map (h : ChainOf sha256 cid rows ordered) {f : AuditLog → AuditLog}
    (hkept : ∀ r ∈ rows, Kept r (f r)) : ChainOf sha256 cid (rows.map f) (ordered.map f) := by
  have hordered : ∀ r ∈ ordered, Kept r (f r) ∧ (f r).isIn chainPartitionGlobal := by
    intro r hr
    obtain ⟨hmem, hin⟩ := h.mem_iff.mp hr
    exact ⟨hkept r hmem, (hkept r hmem).isGlobal.trans hin⟩
  refine ⟨⟨?_, ?_, ?_, ?_⟩, ?_⟩
  · rw [List.filter_map]
    have hfilter : rows.filter (AuditLog.isIn chainPartitionGlobal ∘ f) =
        rows.filter (AuditLog.isIn chainPartitionGlobal) :=
      List.filter_congr fun r hr => (hkept r hr).isGlobal
    rw [hfilter]
    exact h.perm.map f
  · refine List.pairwise_map.mpr (h.sorted.imp_of_mem fun ha hb hlt => ?_)
    rw [(hordered _ ha).1.place, (hordered _ hb).1.place]
    exact hlt
  · rw [List.isChain_map]
    refine h.linked.imp_of_mem_imp fun a b ha hb hlink => ?_
    obtain ⟨hkepta, hina⟩ := hordered a ha
    obtain ⟨hkeptb, hinb⟩ := hordered b hb
    rw [(hkeptb.link hinb).1, hkepta.hash hina, hlink]
  · intro row hrow
    obtain ⟨r, hr, rfl⟩ := List.mem_map.mp hrow
    obtain ⟨hkept, hin⟩ := hordered r hr
    rw [hkept.hash hin, hkept.input hin, h.hashed r hr]
  · intro row hrow
    obtain ⟨r, hr, rfl⟩ := List.mem_map.mp hrow
    obtain ⟨hkept, hin⟩ := hordered r hr
    rw [(hkept.link hin).2, h.chained r hr]

/-- **A row that is added** with its place in the chain. -/
theorem ChainOf.append (h : ChainOf sha256 cid rows ordered) (hcid : cid ≠ "")
    (hglobal : row.isIn chainPartitionGlobal) (hextends : Extends sha256 rows row) :
    ∃ cid', cid' ≠ "" ∧ ChainOf sha256 cid' (rows ++ [row]) (ordered ++ [row]) := by
  -- an empty chain takes the id of its first row
  have hchained : ∃ cid', cid' ≠ "" ∧ row.chainId = some cid' ∧ ∀ r ∈ ordered, r.chainId = some cid' := by
    obtain rfl | hne := eq_or_ne ordered []
    · obtain ⟨cid', hcid'⟩ := Option.isSome_iff_exists.mp hextends.chained
      obtain ⟨hsome, hne⟩ := Option.filter_eq_some_iff.mp hcid'
      exact ⟨cid', by simpa using hne, hsome, fun r hr => absurd hr List.not_mem_nil⟩
    · obtain ⟨-, hlast⟩ := hextends.link _ (h.isLast hne)
      exact ⟨cid, hcid, hlast.trans (h.chained _ (List.getLast_mem hne)), h.chained⟩
  obtain ⟨cid', hcid', hrow, hordered⟩ := hchained
  refine ⟨cid', hcid', ⟨?_, ?_, ?_, ?_⟩, ?_⟩
  · rw [List.filter_append, List.filter_singleton, hglobal]
    exact h.perm.append_right [row]
  · refine List.pairwise_append.mpr ⟨h.sorted, List.pairwise_singleton _ _, fun r hr r' hr' => ?_⟩
    obtain ⟨hmem, hin⟩ := h.mem_iff.mp hr
    rw [List.mem_singleton.mp hr']
    exact hextends.after r hmem hin
  · refine h.linked.append (.singleton row) fun last hlast r hr => ?_
    obtain ⟨hne, rfl⟩ := List.mem_getLast?_eq_getLast hlast
    cases hr
    exact (hextends.link _ (h.isLast hne)).1
  · intro r hr
    rcases List.mem_append.mp hr with hr | hr
    · exact h.hashed r hr
    · rw [List.mem_singleton.mp hr]
      exact hextends.hashed
  · intro r hr
    rcases List.mem_append.mp hr with hr | hr
    · exact hordered r hr
    · rw [List.mem_singleton.mp hr]
      exact hrow

/-- A row of another partition is not in the chain. -/
theorem ChainOf.append_other (h : ChainOf sha256 cid rows ordered)
    (hother : row.isIn chainPartitionGlobal = false) : ChainOf sha256 cid (rows ++ [row]) ordered := by
  refine ⟨⟨?_, h.sorted, h.linked, h.hashed⟩, h.chained⟩
  rw [List.filter_append, List.filter_singleton, hother]
  simpa using h.perm

/-- What `createLog` does: it fails, changes the row that is named, or adds a row. -/
theorem createLog_cases (data : LogData) (id : String) (now : ℤ) (rows : Rows) :
    (createLog data id now rows).2 = rows ∨
      (∃ row, data.stored rows = some row ∧ (createLog data id now rows).2 =
        rows.map fun r => if r.id = row.id then data.over r else r) ∨
      ∃ row, data.stored rows = none ∧ (createLog data id now rows).1 = .ok row ∧
        (createLog data id now rows).2 = rows ++ [row] := by
  rw [createLog]
  split
  · rename_i row hstored
    exact Or.inr (Or.inl ⟨row, hstored, rfl⟩)
  · rename_i hstored
    split
    · dsimp only
      split
      · exact Or.inl rfl
      · exact Or.inr (Or.inr ⟨_, hstored, rfl, rfl⟩)
    · exact Or.inl rfl

theorem kept_refl (row : AuditLog) : Kept row row :=
  ⟨rfl, rfl, fun _ => rfl, fun _ => rfl, fun _ => ⟨rfl, rfl⟩⟩

/-- There is a chain. -/
def HasChain (sha256 : String → String) (rows : Rows) : Prop :=
  ∃ cid ordered, cid ≠ "" ∧ ChainOf sha256 cid rows ordered

/-- **A call** that writes the chain on keeps it. -/
theorem HasChain.apply (h : HasChain sha256 rows) {call : Call} (hcall : WritesOn sha256 rows call) :
    HasChain sha256 (call.apply rows) := by
  obtain ⟨cid, ordered, hcid, hchain⟩ := h
  cases call with
  | archiveOldLogs daysOld now =>
    obtain ⟨ordered', hchain'⟩ := hchain.archiveOldLogs daysOld now
    exact ⟨cid, ordered', hcid, hchain'⟩
  | createLog data id now =>
    obtain ⟨hkept, hextends⟩ := hcall
    change HasChain sha256 (createLog data id now rows).2
    obtain hsame | ⟨row, hstored, hrows⟩ | ⟨row, hstored, hok, hrows⟩ := createLog_cases data id now rows
    · rw [hsame]
      exact ⟨cid, ordered, hcid, hchain⟩
    · rw [hrows]
      refine ⟨cid, _, hcid, hchain.map fun r hr => ?_⟩
      split_ifs with hid
      · exact hkept row hstored r hr hid
      · exact kept_refl r
    · rw [hrows]
      cases hglobal : row.isIn chainPartitionGlobal with
      | false => exact ⟨cid, ordered, hcid, hchain.append_other hglobal⟩
      | true =>
        obtain ⟨cid', hcid', hchain'⟩ := hchain.append hcid hglobal (hextends row hstored hok hglobal)
        exact ⟨cid', _, hcid', hchain'⟩

/-- **A run.** -/
theorem HasChain.run (h : HasChain sha256 rows) {calls : List Call}
    (hcalls : AllWriteOn sha256 rows calls) : HasChain sha256 (run rows calls) := by
  induction calls generalizing rows with
  | nil => exact h
  | cons call calls ih => exact ih (h.apply hcalls.1) hcalls.2

/-! ### From the migration on -/

theorem place_backfill (prevHash : String) (rows : Rows) :
    (Migration.backfill sha256 cid prevHash rows).map AuditLog.place = rows.map AuditLog.place := by
  induction rows generalizing prevHash with
  | nil => rfl
  | cons row rows ih =>
    rw [Migration.backfill, List.map_cons, List.map_cons, ih]
    rfl

/-- Each row that the migration writes. -/
theorem forall_mem_backfill (prevHash : String) (rows : Rows) :
    ∀ row ∈ Migration.backfill sha256 cid prevHash rows,
      row.isIn chainPartitionGlobal ∧ row.chainId = some cid ∧ row.hash.isSome := by
  induction rows generalizing prevHash with
  | nil => exact fun row hrow => absurd hrow List.not_mem_nil
  | cons row rows ih =>
    intro r hr
    rcases List.mem_cons.mp hr with rfl | hr
    · exact ⟨decide_eq_true rfl, rfl, rfl⟩
    · exact ih _ r hr

/-- The hash of each row of a chain. -/
theorem Chained.hash_eq {prevHash : String} {rows : List (AuditChainRowInput × String)}
    (h : Chained sha256 cid prevHash rows) : ∀ e ∈ rows, e.2 = computeRowHash sha256 e.1 := by
  induction rows generalizing prevHash with
  | nil => exact fun e he => absurd he List.not_mem_nil
  | cons e rows ih =>
    obtain ⟨-, -, hhash, hrest⟩ := h
    intro e' he'
    rcases List.mem_cons.mp he' with rfl | he'
    · exact hhash
    · exact ih hrest e' he'

theorem isChain_backfill (prevHash : String) (rows : Rows) :
    (Migration.backfill sha256 cid prevHash rows).IsChain fun a b => b.prevHash = a.hash := by
  induction rows generalizing prevHash with
  | nil => exact .nil
  | cons row rows ih =>
    refine (ih _).cons fun r hr => ?_
    cases rows with
    | nil => cases hr
    | cons row' rows =>
      cases hr
      rfl

/-- **The migration** leaves a chain. -/
theorem chainOf_backfill {rows : Rows} (hsorted : rows.Pairwise fun a b => a.place < b.place) :
    ChainOf sha256 cid (Migration.backfill sha256 cid "" rows)
      (Migration.backfill sha256 cid "" rows) := by
  refine ⟨⟨?_, ?_, isChain_backfill "" rows, ?_⟩, fun row hrow =>
    (forall_mem_backfill "" rows row hrow).2.1⟩
  · rw [List.filter_eq_self.mpr fun row hrow => (forall_mem_backfill "" rows row hrow).1]
  · refine List.pairwise_map.mp ?_
    rw [place_backfill]
    exact List.pairwise_map.mpr hsorted
  · intro row hrow
    obtain ⟨hash, hhash⟩ := Option.isSome_iff_exists.mp (forall_mem_backfill "" rows row hrow).2.2
    have heq := (Migration.chained_backfill sha256 cid "" rows).hash_eq row.hashed
      (List.mem_map_of_mem hrow)
    rw [AuditLog.hashed, hhash] at heq
    rw [hhash]
    exact congrArg some heq

/-- **The log stays one chain** in every run of the service from the migrated table on in which each
row that is stored brings its place in the chain with it. -/
theorem oneChain_run {Ledger : Type} (network : Network Ledger) (config : Config)
    (hsha : ∀ text, sha256 text ≠ "") (hcid : cid ≠ "") {rows : Rows}
    (hsorted : rows.Pairwise fun a b => a.place < b.place) {calls : List Call}
    (hcalls : AllWriteOn sha256 (Migration.backfill sha256 cid "" rows) calls) :
    OneChain network config sha256 (run (Migration.backfill sha256 cid "" rows) calls) := by
  have hstart : HasChain sha256 (Migration.backfill sha256 cid "" rows) :=
    ⟨cid, _, hcid, chainOf_backfill hsorted⟩
  obtain ⟨cid', ordered, hcid', hchain⟩ := hstart.run hcalls
  exact ⟨ordered, hchain.toGlobalChain, hchain.anchorsLast hsha hcid'⟩

end Chain

/-! ### A table of one row -/

/-- The table that the migration leaves of one row. -/
def migrated : Rows :=
  Migration.backfill keeping "chain" ""
    [{ id := "a", action := "LOGIN", resource := "auth", timestamp := 0 }]

theorem keeping_ne (text : String) : keeping text ≠ "" := by
  intro h
  exact absurd (congrArg String.toList h) (by simp [keeping])

/-- A row that goes on from the migrated one, but for its hash. -/
def unhashed : LogData where
  id := some "b"
  action := some "LOGOUT"
  resource := some "auth"
  timestamp := some 86400000
  prevHash := some (migrated.head?.bind AuditLog.hash)
  chainId := some (some "chain")

/-- A row that goes on from the migrated one. -/
def placed : LogData :=
  { unhashed with
    hash := some (some (computeRowHash keeping (unhashed.newRow "b" "LOGOUT" "auth" 0).input)) }

theorem allWriteOn_placed :
    AllWriteOn keeping migrated [.createLog placed "c" 86400000, .archiveOldLogs 1 172800000] := by
  refine ⟨⟨fun row hstored => ?_, fun row hstored hok _ => ?_⟩, trivial, trivial⟩
  · exact absurd hstored (by simp [placed, unhashed, LogData.stored, migrated, Migration.backfill])
  · cases hok
    refine ⟨fun r hr _ => ?_, fun last hlast => ?_, rfl, rfl⟩
    · rw [List.mem_singleton.mp hr]
      exact Prod.Lex.toLex_lt_toLex.mpr (Or.inl (by decide))
    · rw [List.mem_singleton.mp hlast.1]
      exact ⟨rfl, rfl⟩

theorem oneChain_run_placed : OneChain lastTransaction configured keeping
    (run migrated [.createLog placed "c" 86400000, .archiveOldLogs 1 172800000]) :=
  oneChain_run lastTransaction configured keeping_ne (by decide) (List.pairwise_singleton _ _)
    allWriteOn_placed

/-- **A row that is logged as usual** is not in the chain. -/
theorem not_oneChain :
    ¬ ∀ calls, OneChain lastTransaction configured keeping (run migrated calls) := by
  intro h
  obtain ⟨ordered, hchain, -⟩ := h [.createLog
    { action := some "LOGOUT", resource := some "auth" } "b" 86400000]
  let row : AuditLog := { id := "b", action := "LOGOUT", resource := "auth", timestamp := 86400000 }
  have hrow : row ∈ ordered := hchain.mem_iff.mpr ⟨List.mem_append_right _ (.head _), by decide⟩
  exact absurd (hchain.hashed row hrow) (Option.some_ne_none _).symm

end Ahjoor.Audit
