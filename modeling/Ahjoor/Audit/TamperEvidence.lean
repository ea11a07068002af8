import Ahjoor.Audit.ChainHash
import Ahjoor.Json.Parse
import Mathlib.Data.List.Forall2
import Mathlib.Data.List.Induction

/-!
# Tamper evidence

The text that is hashed of a row tells the row, up to the order of keys: texts within texts are
quoted, and a printed value is read back in one way. So a hash tells the row and the hash before it,
and the last hash of a chain tells the whole chain.

The rows are those that are loaded, whose numbers are doubles. A stored document may have numerals that
no double is printed as; a hash does not tell those from the numerals of the nearest doubles
(`not_tellsNumerals`).
-/

namespace Ahjoor.Audit

open Json

/-! ### What is claimed -/

/-- The rows **agree on every hashed field**: metadata and payload up to key order, and up to null
for the empty object. -/
structure SameRow (a b : AuditChainRowInput) : Prop where
  id : a.id = b.id
  userId : a.userId = b.userId
  action : a.action = b.action
  resource : a.resource = b.resource
  metadata : Same (orEmpty a.metadata) (orEmpty b.metadata)
  timestamp : a.timestamp = b.timestamp
  ipAddress : a.ipAddress = b.ipAddress
  userAgent : a.userAgent = b.userAgent
  requestPayload : Same (orEmpty a.requestPayload) (orEmpty b.requestPayload)
  prevHash : a.prevHash = b.prevHash
  chainId : a.chainId = b.chainId
  chainPartition : a.chainPartition = b.chainPartition
  chainVersion : a.chainVersion = b.chainVersion

/-- The rows with their hashes are a **chain**: each row has the hash before it, and its own hash is
computed from it. -/
def Chained (sha256 : String → String) (chainId : String) :
    String → List (AuditChainRowInput × String) → Prop
  | _, [] => True
  | prevHash, (row, hash) :: rows =>
      row.prevHash = prevHash ∧ row.chainId = chainId ∧ hash = computeRowHash sha256 row ∧
        Chained sha256 chainId hash rows

/-- A row of the table, with its hash. -/
def AuditLog.hashed (row : AuditLog) : AuditChainRowInput × String := (row.input, row.hash.getD "")

/-- A row without the columns that the migration fills. -/
def AuditLog.unchained (row : AuditLog) : AuditLog :=
  { row with
    hash := none
    prevHash := none
    chainId := none
    chainPartition := none
    chainVersion := none }

/-- **The chain is tamper-evident**: two chains with one head agree row by row; the migration hashes
the same text; and what it leaves is a chain, of the rows that were there, in their order. -/
structure TamperEvident (sha256 : String → String) : Prop where
  agree : ∀ chainId rows rows', Chained sha256 chainId "" rows → Chained sha256 chainId "" rows' →
    rows.getLast?.map Prod.snd = rows'.getLast?.map Prod.snd →
      rows.length = rows'.length ∧ List.Forall₂ (fun a b => SameRow a.1 b.1) rows rows'
  canonical : ∀ input, Migration.canonicalizeRow input = buildChainPayload input
  backfilled : ∀ chainId rows,
    Chained sha256 chainId "" ((Migration.backfill sha256 chainId "" rows).map AuditLog.hashed) ∧
      (Migration.backfill sha256 chainId "" rows).map AuditLog.unchained =
        rows.map AuditLog.unchained

/-! ### The text of a row -/

theorem printMembers_eq (members : List (String × Value)) :
    printMembers members = members.map fun e => quote e.1.toList ++ ':' :: print e.2 := by
  induction members with
  | nil => rfl
  | cons member members ih =>
    obtain ⟨key, value⟩ := member
    rw [printMembers, List.map_cons, ih, printMember]

mutual

/-- **The stable text** is the text with sorted keys. -/
theorem stableText_eq (value : Value) : stableText value = print (sortKeys value) := by
  match value with
  | .null => rfl
  | .bool b => rfl
  | .num n => rfl
  | .str s => rfl
  | .arr xs =>
    rw [stableText, sortKeys, print, stableTexts_eq xs]
  | .obj members =>
    have htexts : (sortByKey (stableMembers members)).map (fun e => quote e.1.toList ++ ':' :: e.2) =
        printMembers (sortByKey (sortMembers members)) := by
      rw [stableMembers_eq members, sortByKey_map print, List.map_map, printMembers_eq]
      rfl
    rw [stableText, sortKeys, print, ← htexts]
termination_by structural value

theorem stableTexts_eq (values : List Value) : stableTexts values = printAll (sortAll values) := by
  match values with
  | [] => rfl
  | value :: values => rw [stableTexts, sortAll, printAll, stableText_eq value, stableTexts_eq values]
termination_by structural values

theorem stableMember_eq (member : String × Value) :
    stableMember member = ((sortMember member).1, print (sortMember member).2) := by
  match member with
  | (key, value) => rw [stableMember, sortMember, stableText_eq value]
termination_by structural member

theorem stableMembers_eq (members : List (String × Value)) :
    stableMembers members = (sortMembers members).map fun e => (e.1, print e.2) := by
  match members with
  | [] => rfl
  | member :: members =>
    rw [stableMembers, sortMembers, List.map_cons, stableMember_eq member, stableMembers_eq members]
termination_by structural members

end

/-- What two stable texts tell. -/
theorem same_of_stableStringify {a b : Value} (h : stableStringify a = stableStringify b) : Same a b := by
  have htext : stableText a = stableText b := String.ofList_injective h
  rw [stableText_eq, stableText_eq] at htext
  exact same_of_print_sortKeys htext

theorem nullable_injective : Function.Injective nullable := by
  intro a b h
  cases a <;> cases b <;> cases h <;> rfl

/-- **A hashed text** tells the row. -/
theorem sameRow_of_buildChainPayload {a b : AuditChainRowInput}
    (h : buildChainPayload a = buildChainPayload b) : SameRow a b := by
  have hvalue := stringify_injective h
  simp only [Value.obj.injEq, List.cons.injEq, Prod.mk.injEq, Value.str.injEq, Value.num.injEq,
    true_and, and_true] at hvalue
  obtain ⟨hid, huserId, haction, hresource, hmetadata, htimestamp, hipAddress, huserAgent,
    hrequestPayload, hprevHash, hchainId, hchainPartition, hchainVersion⟩ := hvalue
  exact ⟨hid, nullable_injective huserId, haction, hresource, same_of_stableStringify hmetadata,
    htimestamp, nullable_injective hipAddress, nullable_injective huserAgent,
    same_of_stableStringify hrequestPayload, hprevHash, hchainId, hchainPartition,
    hchainVersion⟩

/-! ### The migration -/

namespace Migration

mutual

theorem stableText_eq_stableText (value : Value) : stableText value = Audit.stableText value := by
  match value with
  | .null => rfl
  | .bool b => rfl
  | .num n => rfl
  | .str s => rfl
  | .arr xs => rw [stableText, Audit.stableText, stableTexts_eq_stableTexts xs]
  | .obj members => rw [stableText, Audit.stableText, stableMembers_eq_stableMembers members]
termination_by structural value

theorem stableTexts_eq_stableTexts (values : List Value) :
    stableTexts values = Audit.stableTexts values := by
  match values with
  | [] => rfl
  | value :: values =>
    rw [stableTexts, Audit.stableTexts, stableText_eq_stableText value, stableTexts_eq_stableTexts values]
termination_by structural values

theorem stableMember_eq_stableMember (member : String × Value) :
    stableMember member = Audit.stableMember member := by
  match member with
  | (key, value) => rw [stableMember, Audit.stableMember, stableText_eq_stableText value]
termination_by structural member

theorem stableMembers_eq_stableMembers (members : List (String × Value)) :
    stableMembers members = Audit.stableMembers members := by
  match members with
  | [] => rfl
  | member :: members =>
    rw [stableMembers, Audit.stableMembers, stableMember_eq_stableMember member,
      stableMembers_eq_stableMembers members]
termination_by structural members

end

/-- **The canonical row of the migration** is the text that is hashed elsewhere. -/
theorem canonicalizeRow_eq (input : AuditChainRowInput) :
    canonicalizeRow input = buildChainPayload input := by
  have hstable : ∀ value, stableStringify value = Audit.stableStringify value := fun value =>
    congrArg String.ofList (stableText_eq_stableText value)
  rw [canonicalizeRow, buildChainPayload, hstable, hstable]
  rfl

theorem orEmpty_orEmpty (value : Value) : orEmpty (orEmpty value) = orEmpty value := by
  cases value <;> rfl

/-- **The backfill** leaves a chain. -/
theorem chained_backfill (sha256 : String → String) (chainId prevHash : String) (rows : List AuditLog) :
    Chained sha256 chainId prevHash ((backfill sha256 chainId prevHash rows).map AuditLog.hashed) := by
  induction rows generalizing prevHash with
  | nil => trivial
  | cons row rows ih =>
    refine ⟨rfl, rfl, ?_, ih _⟩
    -- the loop has replaced null before
    change sha256 (canonicalizeRow (input chainId prevHash row)) = sha256 (buildChainPayload _)
    rw [canonicalizeRow_eq]
    simp only [buildChainPayload, input, orEmpty_orEmpty]
    rfl

/-- The backfill fills the columns of the chain, and changes no row otherwise. -/
theorem unchained_backfill (sha256 : String → String) (chainId prevHash : String)
    (rows : List AuditLog) :
    (backfill sha256 chainId prevHash rows).map AuditLog.unchained = rows.map AuditLog.unchained := by
  induction rows generalizing prevHash with
  | nil => rfl
  | cons row rows ih =>
    rw [backfill, List.map_cons, List.map_cons, ih]
    rfl

end Migration

/-! ### Chains -/

section Chains

variable {sha256 : String → String} {chainId : String}

/-- The hash at the end of a chain that goes on from `prevHash`. -/
def lastHash (prevHash : String) : List (AuditChainRowInput × String) → String
  | [] => prevHash
  | (_, hash) :: rows => lastHash hash rows

theorem lastHash_append (prevHash : String) (rows : List (AuditChainRowInput × String))
    (row : AuditChainRowInput × String) : lastHash prevHash (rows ++ [row]) = row.2 := by
  induction rows generalizing prevHash with
  | nil => rfl
  | cons e rows ih => exact ih e.2

/-- A chain with a row more. -/
theorem chained_append {prevHash : String} {rows : List (AuditChainRowInput × String)}
    {row : AuditChainRowInput × String} : Chained sha256 chainId prevHash (rows ++ [row]) ↔
      Chained sha256 chainId prevHash rows ∧ row.1.prevHash = lastHash prevHash rows ∧
        row.1.chainId = chainId ∧ row.2 = computeRowHash sha256 row.1 := by
  induction rows generalizing prevHash with
  | nil => simp [Chained, lastHash]
  | cons e rows ih =>
    simp only [List.cons_append, Chained, lastHash, ih]
    tauto

/-- **The last hash tells the chain**, by induction from the last row back. -/
theorem agree_of_lastHash (hinj : Function.Injective sha256) (hne : ∀ text, sha256 text ≠ "")
    {rows rows' : List (AuditChainRowInput × String)} (h : Chained sha256 chainId "" rows)
    (h' : Chained sha256 chainId "" rows') (hlast : lastHash "" rows = lastHash "" rows') :
    List.Forall₂ (fun a b => SameRow a.1 b.1 ∧ a.2 = b.2) rows rows' := by
  induction rows using List.reverseRecOn generalizing rows' with
  | nil =>
    rcases List.eq_nil_or_concat' rows' with rfl | ⟨rest, row, rfl⟩
    · exact .nil
    · rw [lastHash_append] at hlast
      obtain ⟨-, -, -, hhash⟩ := chained_append.mp h'
      exact absurd (hlast.trans hhash).symm (hne _)
  | append_singleton rest row ih =>
    rw [lastHash_append] at hlast
    obtain ⟨hrest, hprev, -, hhash⟩ := chained_append.mp h
    rcases List.eq_nil_or_concat' rows' with rfl | ⟨rest', row', rfl⟩
    · exact absurd (hhash.symm.trans hlast) (hne _)
    · rw [lastHash_append] at hlast
      obtain ⟨hrest', hprev', -, hhash'⟩ := chained_append.mp h'
      have hpayload : buildChainPayload row.1 = buildChainPayload row'.1 :=
        hinj (hhash.symm.trans (hlast.trans hhash'))
      have hsame := sameRow_of_buildChainPayload hpayload
      have hbefore : lastHash "" rest = lastHash "" rest' := by
        rw [← hprev, ← hprev', hsame.prevHash]
      exact List.rel_append (ih hrest hrest' hbefore) (.cons ⟨hsame, hlast⟩ .nil)

/-- The last hash of a chain that is not empty. -/
theorem lastHash_eq (prevHash : String) (rows : List (AuditChainRowInput × String)) :
    lastHash prevHash rows = (rows.getLast?.map Prod.snd).getD prevHash := by
  rcases List.eq_nil_or_concat' rows with rfl | ⟨rest, row, rfl⟩
  · rfl
  · rw [lastHash_append, List.getLast?_concat]
    rfl

/-- **The audit chain is tamper-evident**, if SHA-256 is injective: no edit, insertion, deletion or
reordering of rows keeps the hash of the head. -/
theorem tamperEvident (hinj : Function.Injective sha256) (hne : ∀ text, sha256 text ≠ "") :
    TamperEvident sha256 := by
  refine ⟨fun chainId rows rows' h h' hhead => ?_, Migration.canonicalizeRow_eq, fun chainId rows =>
    ⟨Migration.chained_backfill sha256 chainId "" rows,
      Migration.unchained_backfill sha256 chainId "" rows⟩⟩
  have hlast : lastHash "" rows = lastHash "" rows' := by
    rw [lastHash_eq, lastHash_eq, hhead]
  have hagree := agree_of_lastHash hinj hne h h' hlast
  exact ⟨hagree.length_eq, hagree.imp fun _ _ hab => hab.1⟩

/-- A digest that keeps the whole text. -/
def keeping (text : String) : String := String.ofList ('#' :: text.toList)

/-- An injective digest. -/
theorem tamperEvident_keeping : TamperEvident keeping := by
  refine tamperEvident (fun a b h => ?_) fun text h => ?_
  · exact String.toList_injective (List.cons.inj (String.ofList_injective h)).2
  · exact absurd (congrArg String.toList h) (by simp [keeping])

end Chains

/-! ### Stored documents -/

/-- A `jsonb` document with one number. -/
def document (numeral : List Char) : List Char := "\x7b\"n\":".toList ++ numeral ++ ['}']

/-- The chain of one row, with the metadata that is loaded. -/
def chainOf (sha256 : String → String) (row : AuditLog) (metadata : Value) : List AuditLog :=
  Migration.backfill sha256 chainPartitionGlobal "" [{ row with metadata }]

/-- If two rows are stored with documents of one number each, and have one hash, then the documents
**have the same number**. -/
def TellsNumerals (sha256 : String → String) : Prop :=
  ∀ row numeral numeral' metadata metadata', isNumeral numeral = true → isNumeral numeral' = true →
    read (document numeral) = some metadata → read (document numeral') = some metadata' →
      (chainOf sha256 row metadata).map (·.hash) = (chainOf sha256 row metadata').map (·.hash) →
        numeralValue numeral = numeralValue numeral'

namespace Sample

/-- A numeral that is printed as it is read. -/
def even : List Char := "9007199254740992".toList

/-- A numeral between two doubles. -/
def odd : List Char := "9007199254740993".toList

def row : AuditLog where
  id := "1"
  action := "UPDATE"
  resource := "groups"
  timestamp := 0

end Sample

/-- **An edit of a stored document** that keeps the hash: both numerals are read as one double. -/
theorem not_tellsNumerals : ¬ TellsNumerals keeping := by
  intro h
  have heven : (read (document Sample.even)).map stringify =
      some (String.ofList (document Sample.even)) := by decide +kernel
  have hodd : (read (document Sample.odd)).map stringify =
      some (String.ofList (document Sample.even)) := by decide +kernel
  obtain ⟨metadata, hread, htext⟩ := Option.map_eq_some_iff.mp heven
  obtain ⟨metadata', hread', htext'⟩ := Option.map_eq_some_iff.mp hodd
  obtain rfl : metadata = metadata' := stringify_injective (htext.trans htext'.symm)
  have hsame := h Sample.row Sample.even Sample.odd metadata metadata (by decide +kernel)
    (by decide +kernel) hread hread' rfl
  exact absurd hsame (by decide +kernel)

end Ahjoor.Audit
