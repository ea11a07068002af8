import Ahjoor.Json.Paths

/-!
# `deepScrubForLog`

What is logged passes through `deepScrubForLog`, which replaces what stands under a sensitive key
and cuts off what is too deep. It goes into an object only if `value.constructor === Object`, and the
logged value decides that: an object with a key `constructor` of its own is logged as it is. And
`out['__proto__'] = …` sets the prototype of the copy, so what stands under that key is lost.
-/

namespace Ahjoor.Pii

open Json

/-! ### The scrubber -/

/-- `ALWAYS_SENSITIVE`. -/
def alwaysSensitive : List String :=
  ["nationalId", "dob", "address", "phone", "fullName", "password", "passwordHash", "refreshToken",
    "refreshTokenHash", "resetToken", "secretKey", "apiKey", "token", "secret"]

/-- `c.toLowerCase()`, as far as it matters to names in ASCII: beside the capital letters only the
Kelvin sign becomes a character of ASCII. -/
def lowerChar (c : Char) : Char := if c.toNat = 0x212A then 'k' else c.toLower

/-- `s.toLowerCase()`, so far. -/
def toLowerCase (s : String) : String := String.ofList (s.toList.map lowerChar)

/-- `SENSITIVE_KEY_SET.has(key.toLowerCase())`. -/
def isSensitive (key : String) : Bool := (alwaysSensitive.map toLowerCase).contains (toLowerCase key)

/-- `'[REDACTED]'`. -/
def redacted : Value := .str "[REDACTED]"

/-- `'[REDACTED_DEPTH]'`. -/
def redactedDepth : Value := .str "[REDACTED_DEPTH]"

/-- `value.constructor === Object`: the object has no such key of its own. -/
def isPlain (members : List (String × Value)) : Bool := !(members.map Prod.fst).contains "constructor"

/-- `out[key] = …` adds a key. -/
def isOwn (key : String) : Bool := key ≠ "__proto__"

mutual

/-- `deepScrubForLog(value, depth)`. -/
def deepScrubForLog (depth : ℕ) : Value → Value
  | .arr values => if 20 < depth then redactedDepth else .arr (scrubAll (depth + 1) values)
  | .obj members =>
      if 20 < depth then redactedDepth
      else if isPlain members then .obj ((scrubMembers (depth + 1) members).filter fun m => isOwn m.1)
      else .obj members
  | .null => if 20 < depth then redactedDepth else .null
  | .bool b => if 20 < depth then redactedDepth else .bool b
  | .num n => if 20 < depth then redactedDepth else .num n
  | .str s => if 20 < depth then redactedDepth else .str s
termination_by structural value => value

def scrubAll (depth : ℕ) : List Value → List Value
  | [] => []
  | value :: values => deepScrubForLog depth value :: scrubAll depth values
termination_by structural values => values

def scrubMember (depth : ℕ) : String × Value → String × Value
  | (key, value) => (key, if isSensitive key then redacted else deepScrubForLog depth value)
termination_by structural member => member

def scrubMembers (depth : ℕ) : List (String × Value) → List (String × Value)
  | [] => []
  | member :: members => scrubMember depth member :: scrubMembers depth members
termination_by structural members => members

end

theorem scrubAll_eq_map (depth : ℕ) (values : List Value) :
    scrubAll depth values = values.map (deepScrubForLog depth) := by
  induction values with
  | nil => rfl
  | cons value values ih => rw [scrubAll, ih, List.map_cons]

theorem scrubMembers_eq_map (depth : ℕ) (members : List (String × Value)) :
    scrubMembers depth members =
      members.map fun m => (m.1, if isSensitive m.1 then redacted else deepScrubForLog depth m.2) := by
  induction members with
  | nil => rfl
  | cons member members ih =>
    obtain ⟨key, value⟩ := member
    rw [scrubMembers, ih, List.map_cons, scrubMember]

/-- What is too deep is cut off. -/
theorem deepScrubForLog_of_deep {depth : ℕ} (hdeep : 20 < depth) (value : Value) :
    deepScrubForLog depth value = redactedDepth := by
  cases value <;> rw [deepScrubForLog, if_pos hdeep]

theorem deepScrubForLog_of_isLeaf {depth : ℕ} (hdepth : depth ≤ 20) {value : Value}
    (hleaf : value.isLeaf = true) : deepScrubForLog depth value = value := by
  have hshallow := not_lt.mpr hdepth
  cases value with
  | arr values =>
    cases values with
    | nil => rw [deepScrubForLog, if_neg hshallow, scrubAll]
    | cons value values => cases hleaf
  | obj members =>
    cases members with
    | nil =>
      rw [deepScrubForLog, if_neg hshallow]
      rfl
    | cons member members => cases hleaf
  | _ => rw [deepScrubForLog, if_neg hshallow]

theorem deepScrubForLog_arr {depth : ℕ} (hdepth : depth ≤ 20) (values : List Value) :
    deepScrubForLog depth (.arr values) = .arr (values.map (deepScrubForLog (depth + 1))) := by
  rw [deepScrubForLog, if_neg (not_lt.mpr hdepth), scrubAll_eq_map]

/-- What `deepScrubForLog` puts under a key. -/
def scrubbed (depth : ℕ) (member : String × Value) : Value :=
  if isSensitive member.1 then redacted else deepScrubForLog depth member.2

theorem deepScrubForLog_obj {depth : ℕ} (hdepth : depth ≤ 20) {members : List (String × Value)}
    (hplain : isPlain members = true) :
    deepScrubForLog depth (.obj members) =
      .obj ((members.filter fun m => isOwn m.1).map fun m => (m.1, scrubbed (depth + 1) m)) := by
  rw [deepScrubForLog, if_neg (not_lt.mpr hdepth), if_pos hplain, scrubMembers_eq_map,
    List.filter_map]
  rfl

/-- **An object with its own `constructor`** is logged as it is. -/
theorem deepScrubForLog_of_not_isPlain {depth : ℕ} (hdepth : depth ≤ 20)
    {members : List (String × Value)} (hplain : isPlain members = false) :
    deepScrubForLog depth (.obj members) = .obj members := by
  rw [deepScrubForLog, if_neg (not_lt.mpr hdepth), if_neg (Bool.not_eq_true _ ▸ hplain)]

/-! ### What a log should not show -/

/-- **No secret**: wherever an object has a sensitive key, only the mark stands there. -/
def Clean (value : Value) : Prop :=
  ∀ path members key part, At value path (.obj members) → (key, part) ∈ members →
    isSensitive key = true → part = redacted

/-- No key on the path is sensitive. -/
def Open (path : List PathStep) : Prop := ∀ key, .key key ∈ path → isSensitive key = false

/-- **The rest is unchanged**: what is a leaf, within the depth limit and under no sensitive key, is in
the output too. -/
def KeepsLeaves (depth : ℕ) (value output : Value) : Prop :=
  ∀ path leaf, At value path leaf → leaf.isLeaf = true → Open path → depth + path.length ≤ 20 →
    At output path leaf

/-- There is no such leaf. -/
def Leafless (depth : ℕ) (value : Value) : Prop :=
  ∀ path leaf, At value path leaf → leaf.isLeaf = true → Open path → 20 < depth + path.length

/-- **What the scrubber comes to**, and at which depth. -/
inductive Reaches : ℕ → Value → ℕ → Value → Prop
  | here (depth : ℕ) (value : Value) : Reaches depth value depth value
  | item {depth depth' : ℕ} {values : List Value} {value part : Value} (hdepth : depth ≤ 20)
      (hvalue : value ∈ values) (h : Reaches (depth + 1) value depth' part) :
      Reaches depth (.arr values) depth' part
  | key {depth depth' : ℕ} {members : List (String × Value)} {k : String} {value part : Value}
      (hdepth : depth ≤ 20) (hplain : isPlain members = true) (hvalue : (k, value) ∈ members)
      (hk : isSensitive k = false) (hown : isOwn k = true) (h : Reaches (depth + 1) value depth' part) :
      Reaches depth (.obj members) depth' part

/-- The object is one for which the scrubber works: without a `constructor` of its own, unless there
is no secret in it, and without anything to keep under `__proto__`. -/
structure Harmless (depth : ℕ) (members : List (String × Value)) : Prop where
  constructor : isPlain members = false → Clean (.obj members)
  proto : isPlain members = true → ∀ value, ("__proto__", value) ∈ members → Leafless (depth + 1) value

/-- Every object that the scrubber comes to is harmless. -/
def Scrubbable (depth : ℕ) (value : Value) : Prop :=
  ∀ depth' members, Reaches depth value depth' (.obj members) → depth' ≤ 20 → Harmless depth' members

section Paths

variable {depth : ℕ} {value : Value} {values : List Value} {members : List (String × Value)}

theorem open_cons_item {i : ℕ} {path : List PathStep} : Open (.item i :: path) ↔ Open path := by
  simp [Open]

theorem open_cons_key {k : String} {path : List PathStep} :
    Open (.key k :: path) ↔ isSensitive k = false ∧ Open path := by
  constructor
  · intro h
    exact ⟨h k List.mem_cons_self, fun key hkey => h key (List.mem_cons_of_mem _ hkey)⟩
  · rintro ⟨hk, h⟩ key hkey
    rcases List.mem_cons.mp hkey with heq | hkey
    · cases heq
      exact hk
    · exact h key hkey

theorem clean_of_isLeaf (hleaf : value.isLeaf = true) : Clean value := by
  intro path members key part hat hmem
  obtain ⟨-, rfl⟩ := hat.eq_of_isLeaf hleaf
  cases members with
  | nil => cases hmem
  | cons member members => cases hleaf

theorem clean_arr : Clean (.arr values) ↔ ∀ value ∈ values, Clean value := by
  constructor
  · intro h value hvalue path members key part hat
    obtain ⟨i, hi⟩ := List.mem_iff_getElem?.mp hvalue
    exact h (.item i :: path) members key part (.item hi hat)
  · intro h path members key part hat
    cases hat with
    | item hvalue hat => exact h _ (List.mem_of_getElem? hvalue) _ members key part hat

theorem clean_obj : Clean (.obj members) ↔
    ∀ member ∈ members, (isSensitive member.1 = true → member.2 = redacted) ∧ Clean member.2 := by
  constructor
  · rintro h ⟨k, value⟩ hmem
    exact ⟨h [] members k value (.here _) hmem, fun path members' key part hat =>
      h (.key k :: path) members' key part (.key hmem hat)⟩
  · intro h path members' key part hat hmem
    cases hat with
    | here => exact (h _ hmem).1
    | key hvalue hat => exact (h _ hvalue).2 _ members' key part hat hmem

theorem keepsLeaves_of_deep (hdeep : 20 < depth) (output : Value) : KeepsLeaves depth value output := by
  intro path leaf _ _ _ hlength
  omega

theorem keepsLeaves_self : KeepsLeaves depth value value := fun _ _ hat _ _ _ => hat

theorem keepsLeaves_arr {f : Value → Value} :
    KeepsLeaves depth (.arr values) (.arr (values.map f)) ↔
      ∀ value ∈ values, KeepsLeaves (depth + 1) value (f value) := by
  constructor
  · intro h value hvalue path leaf hat hleaf hopen hlength
    obtain ⟨i, hi⟩ := List.mem_iff_getElem?.mp hvalue
    have hkept := h (.item i :: path) leaf (.item hi hat) hleaf (open_cons_item.mpr hopen)
      (by rw [List.length_cons]; omega)
    obtain ⟨output, houtput, hat'⟩ := at_item_iff.mp hkept
    rw [List.getElem?_map, hi] at houtput
    cases houtput
    exact hat'
  · intro h path leaf hat hleaf hopen hlength
    cases hat with
    | here =>
      cases values with
      | nil => exact .here _
      | cons value values => cases hleaf
    | @item _ i value _ path hvalue hat =>
      rw [List.length_cons] at hlength
      refine .item (by rw [List.getElem?_map, hvalue, Option.map_some]) ?_
      exact h value (List.mem_of_getElem? hvalue) path leaf hat hleaf (open_cons_item.mp hopen) (by omega)

/-- A copy of an object has no secret when none of its members has. -/
theorem clean_copy :
    Clean (.obj ((members.filter fun m => isOwn m.1).map fun m => (m.1, scrubbed (depth + 1) m))) ↔
      ∀ k value, (k, value) ∈ members → isSensitive k = false → isOwn k = true →
        Clean (deepScrubForLog (depth + 1) value) := by
  rw [clean_obj]
  constructor
  · intro h k value hmem hk hown
    have hcopy := (h (k, scrubbed (depth + 1) (k, value))
      (List.mem_map.mpr ⟨(k, value), List.mem_filter.mpr ⟨hmem, hown⟩, rfl⟩)).2
    rwa [scrubbed, if_neg (Bool.not_eq_true _ ▸ hk)] at hcopy
  · intro h member hmember
    obtain ⟨⟨k, value⟩, hfiltered, rfl⟩ := List.mem_map.mp hmember
    obtain ⟨hmem, hown⟩ := List.mem_filter.mp hfiltered
    cases hk : isSensitive k with
    | true =>
      have hmark : scrubbed (depth + 1) (k, value) = redacted := if_pos hk
      exact ⟨fun _ => hmark, hmark ▸ clean_of_isLeaf rfl⟩
    | false =>
      have hscrubbed : scrubbed (depth + 1) (k, value) = deepScrubForLog (depth + 1) value :=
        if_neg (Bool.not_eq_true _ ▸ hk)
      exact ⟨fun hsensitive => absurd hsensitive Bool.false_ne_true,
        hscrubbed ▸ h k value hmem hk hown⟩

/-- A copy of an object keeps its leaves when each of its own members does, and there is none under
the other key. -/
theorem keepsLeaves_obj (hnodup : (members.map Prod.fst).Nodup) :
    KeepsLeaves depth (.obj members)
        (.obj ((members.filter fun m => isOwn m.1).map fun m => (m.1, scrubbed (depth + 1) m))) ↔
      ∀ k value, (k, value) ∈ members → isSensitive k = false →
        (isOwn k = true → KeepsLeaves (depth + 1) value (deepScrubForLog (depth + 1) value)) ∧
          (isOwn k = false → Leafless (depth + 1) value) := by
  -- what is under a key of the copy comes from the member with the key
  have hcopy : ∀ {k part}, (k, part) ∈ ((members.filter fun m => isOwn m.1).map
      fun m => (m.1, scrubbed (depth + 1) m)) → ∀ {value}, (k, value) ∈ members →
        isOwn k = true ∧ part = scrubbed (depth + 1) (k, value) := by
    intro k part hmem value hvalue
    obtain ⟨⟨k', value'⟩, hfiltered, heq⟩ := List.mem_map.mp hmem
    obtain ⟨hmem', hown⟩ := List.mem_filter.mp hfiltered
    cases heq
    rw [eq_of_mem_of_nodup hnodup hmem' hvalue]
    exact ⟨hown, rfl⟩
  constructor
  · intro h k value hmem hk
    have hkept : ∀ path leaf, At value path leaf → leaf.isLeaf = true → Open path →
        depth + 1 + path.length ≤ 20 →
          isOwn k = true ∧ At (deepScrubForLog (depth + 1) value) path leaf := by
      intro path leaf hat hleaf hopen hlength
      have hthere := h (.key k :: path) leaf (.key hmem hat) hleaf (open_cons_key.mpr ⟨hk, hopen⟩)
        (by rw [List.length_cons]; omega)
      obtain ⟨part, hpart, hat'⟩ := at_key_iff.mp hthere
      obtain ⟨hown, rfl⟩ := hcopy hpart hmem
      rw [scrubbed, if_neg (Bool.not_eq_true _ ▸ hk)] at hat'
      exact ⟨hown, hat'⟩
    refine ⟨fun _ path leaf hat hleaf hopen hlength => (hkept path leaf hat hleaf hopen hlength).2,
      fun hown path leaf hat hleaf hopen => ?_⟩
    by_contra hlength
    have hkept := hkept path leaf hat hleaf hopen (by omega)
    exact absurd (hkept.1.symm.trans hown) nofun
  · intro h path leaf hat hleaf hopen hlength
    cases hat with
    | here =>
      cases members with
      | nil => exact .here _
      | cons member members => cases hleaf
    | @key _ k value _ path hmem hat =>
      rw [List.length_cons] at hlength
      obtain ⟨hk, hopen⟩ := open_cons_key.mp hopen
      obtain ⟨hkept, hleafless⟩ := h k value hmem hk
      cases hown : isOwn k with
      | false => exact absurd (hleafless hown path leaf hat hleaf hopen) (by omega)
      | true =>
        refine .key (List.mem_map.mpr ⟨(k, value), List.mem_filter.mpr ⟨hmem, hown⟩, rfl⟩) ?_
        rw [scrubbed, if_neg (Bool.not_eq_true _ ▸ hk)]
        exact hkept hown path leaf hat hleaf hopen (by omega)

/-! ### What the scrubber comes to -/

theorem scrubbable_of_deep (hdeep : 20 < depth) : Scrubbable depth value := by
  intro depth' members hreaches hdepth'
  cases hreaches <;> omega

theorem scrubbable_of_isLeaf (hleaf : value.isLeaf = true) : Scrubbable depth value := by
  intro depth' members hreaches hdepth'
  cases hreaches with
  | here =>
    cases members with
    | nil => exact ⟨nofun, fun _ _ hmem => absurd hmem List.not_mem_nil⟩
    | cons member members => cases hleaf
  | @item _ _ values _ _ _ hvalue _ =>
    cases values with
    | nil => cases hvalue
    | cons value values => cases hleaf
  | @key _ _ members _ _ _ _ _ hvalue _ _ _ =>
    cases members with
    | nil => cases hvalue
    | cons member members => cases hleaf

theorem scrubbable_arr (hdepth : depth ≤ 20) :
    Scrubbable depth (.arr values) ↔ ∀ value ∈ values, Scrubbable (depth + 1) value := by
  constructor
  · intro h value hvalue depth' members hreaches
    exact h depth' members (.item hdepth hvalue hreaches)
  · intro h depth' members hreaches hdepth'
    cases hreaches with
    | item _ hvalue hreaches => exact h _ hvalue depth' members hreaches hdepth'

theorem scrubbable_obj (hdepth : depth ≤ 20) (hplain : isPlain members = true) :
    Scrubbable depth (.obj members) ↔ ∀ k value, (k, value) ∈ members → isSensitive k = false →
      (isOwn k = true → Scrubbable (depth + 1) value) ∧ (isOwn k = false → Leafless (depth + 1) value) := by
  constructor
  · intro h k value hmem hk
    refine ⟨fun hown depth' members' hreaches => ?_, fun hown => ?_⟩
    · exact h depth' members' (.key hdepth hplain hmem hk hown hreaches)
    · obtain rfl : k = "__proto__" := by simpa [isOwn] using hown
      exact (h depth members (.here _ _) hdepth).proto hplain value hmem
  · intro h depth' members' hreaches hdepth'
    cases hreaches with
    | here =>
      refine ⟨fun hnot => absurd (hplain.symm.trans hnot) nofun, fun _ value hmem => ?_⟩
      exact (h _ value hmem (by decide +kernel)).2 rfl
    | key _ _ hmem hk hown hreaches =>
      exact (h _ _ hmem hk).1 hown depth' members' hreaches hdepth'

theorem scrubbable_of_not_isPlain (hdepth : depth ≤ 20) (hplain : isPlain members = false) :
    Scrubbable depth (.obj members) ↔ Clean (.obj members) := by
  constructor
  · intro h
    exact (h depth members (.here _ _) hdepth).constructor hplain
  · intro h depth' members' hreaches _
    cases hreaches with
    | here => exact ⟨fun _ => h, fun hnot => absurd (hplain.symm.trans hnot) nofun⟩
    | key _ hnot _ _ _ _ => exact absurd (hplain.symm.trans hnot) nofun

end Paths

/-! ### What is logged -/

/-- **The scrubber works exactly on what is scrubbable**: at any depth, the output has no secret, and
every leaf that it should keep, if and only if every object that the scrubber comes to is
harmless. -/
theorem scrubs_iff_at (value : Value) : ∀ depth, DistinctKeys value →
    (Clean (deepScrubForLog depth value) ∧ KeepsLeaves depth value (deepScrubForLog depth value) ↔
      Scrubbable depth value) := by
  have hleaf : ∀ {value : Value}, value.isLeaf = true → ∀ depth,
      (Clean (deepScrubForLog depth value) ∧ KeepsLeaves depth value (deepScrubForLog depth value) ↔
        Scrubbable depth value) := by
    intro value hleaf depth
    refine iff_of_true ?_ (scrubbable_of_isLeaf hleaf)
    rcases Nat.lt_or_ge 20 depth with hdeep | hdepth
    · exact ⟨deepScrubForLog_of_deep hdeep value ▸ clean_of_isLeaf rfl, keepsLeaves_of_deep hdeep _⟩
    · rw [deepScrubForLog_of_isLeaf hdepth hleaf]
      exact ⟨clean_of_isLeaf hleaf, keepsLeaves_self⟩
  have hdeep : ∀ {depth}, 20 < depth → ∀ value,
      (Clean (deepScrubForLog depth value) ∧ KeepsLeaves depth value (deepScrubForLog depth value) ↔
        Scrubbable depth value) := fun hdeep value =>
    iff_of_true ⟨deepScrubForLog_of_deep hdeep value ▸ clean_of_isLeaf rfl, keepsLeaves_of_deep hdeep _⟩
      (scrubbable_of_deep hdeep)
  induction value using Value.induction with
  | null => exact fun depth _ => hleaf rfl depth
  | bool b => exact fun depth _ => hleaf rfl depth
  | num n => exact fun depth _ => hleaf rfl depth
  | str s => exact fun depth _ => hleaf rfl depth
  | arr values ih =>
    intro depth hdistinct
    rcases Nat.lt_or_ge 20 depth with hlarge | hdepth
    · exact hdeep hlarge _
    rw [deepScrubForLog_arr hdepth, clean_arr, keepsLeaves_arr, scrubbable_arr hdepth,
      List.forall_mem_map, ← forall₂_and]
    exact forall₂_congr fun value hvalue =>
      ih value hvalue (depth + 1) (distinctKeysAll_iff.mp hdistinct value hvalue)
  | obj members ih =>
    intro depth hdistinct
    rcases Nat.lt_or_ge 20 depth with hlarge | hdepth
    · exact hdeep hlarge _
    cases hplain : isPlain members with
    | false =>
      rw [deepScrubForLog_of_not_isPlain hdepth hplain, scrubbable_of_not_isPlain hdepth hplain]
      exact and_iff_left keepsLeaves_self
    | true =>
      rw [deepScrubForLog_obj hdepth hplain, clean_copy, keepsLeaves_obj hdistinct.1,
        scrubbable_obj hdepth hplain]
      have hmember : ∀ k value, (k, value) ∈ members →
          (Clean (deepScrubForLog (depth + 1) value) ∧
              KeepsLeaves (depth + 1) value (deepScrubForLog (depth + 1) value) ↔
            Scrubbable (depth + 1) value) := fun k value hmem =>
        ih (k, value) hmem (depth + 1) (distinctKeysMembers_iff.mp hdistinct.2 (k, value) hmem)
      constructor
      · rintro ⟨hclean, hkeeps⟩ k value hmem hk
        exact ⟨fun hown => (hmember k value hmem).mp
          ⟨hclean k value hmem hk hown, (hkeeps k value hmem hk).1 hown⟩, (hkeeps k value hmem hk).2⟩
      · intro h
        exact ⟨fun k value hmem hk hown => ((hmember k value hmem).mpr ((h k value hmem hk).1 hown)).1,
          fun k value hmem hk => ⟨fun hown => ((hmember k value hmem).mpr ((h k value hmem hk).1 hown)).2,
            (h k value hmem hk).2⟩⟩

/-- **What is logged shows no secret and keeps the rest**, if and only if, among the objects that the
scrubber comes to, those with a `constructor` of their own have no secret in them, and the others
have nothing to keep under `__proto__`. -/
theorem scrubs_iff (value : Value) (hdistinct : DistinctKeys value) :
    Clean (deepScrubForLog 0 value) ∧ KeepsLeaves 0 value (deepScrubForLog 0 value) ↔
      Scrubbable 0 value :=
  scrubs_iff_at value 0 hdistinct

/-- A request with a token. -/
theorem scrubs_iff_token :
    let request : Value := .obj [("path", .str "/login"), ("body", .obj [("token", .str "t")])]
    Clean (deepScrubForLog 0 request) ∧ KeepsLeaves 0 request (deepScrubForLog 0 request) ↔
      Scrubbable 0 request :=
  scrubs_iff _ ⟨by decide, trivial, ⟨by decide, trivial, trivial⟩, trivial⟩

/-- **An object that names its constructor** is logged with its secret. -/
theorem not_clean_constructor :
    let request : Value := .obj [("constructor", .null), ("token", .str "t")]
    DistinctKeys request ∧ deepScrubForLog 0 request = request ∧ ¬Clean (deepScrubForLog 0 request) := by
  have hsame : deepScrubForLog 0 (.obj [("constructor", .null), ("token", .str "t")]) =
      .obj [("constructor", .null), ("token", .str "t")] :=
    deepScrubForLog_of_not_isPlain (by decide) (by decide)
  refine ⟨⟨by decide, trivial, trivial, trivial⟩, hsame, fun h => ?_⟩
  rw [hsame] at h
  have hmark := h [] _ "token" (.str "t") (.here _) (by simp) (by decide +kernel)
  simp [redacted] at hmark

end Ahjoor.Pii
