import Ahjoor.Webhooks.WebhookService

/-!
# Which events an id distinguishes

An event whose id has been delivered with success is not sent again, so two events that differ in
what is delivered should not have one id. `distinguished_iff`: an event is distinguished from all
others, and has one id for all orders of its keys, exactly when its data has, at any depth, **no date,
no empty object, no empty array and no array of one undefined element**.

The text that is hashed is that of a tree, the `shape` of the data, with its keys sorted: a date is an
empty object there, and an array of one undefined element is empty. The shape is all that the text
tells (`sortKeys_shape_of_text`), and data without any of the four has the shape of no other data.
The data of a confirmed contribution has a date.
-/

namespace Ahjoor.Webhooks

open Json Store

/-! ### The shape of the data -/

/-- An array of what stands between its commas. -/
def elements : List (Json.Tree (Option Scalar)) → Json.Tree (Option Scalar)
  | [.leaf none] => .arr []
  | trees => .arr trees

/-- What an element leaves between commas: nothing, if it is undefined. -/
def blank : Json.Tree (Option Scalar) → Json.Tree (Option Scalar)
  | .leaf (some .undefined) => .leaf none
  | tree => tree

mutual

/-- What `stableSerialize` sees of the data. -/
def shape : Data → Json.Tree (Option Scalar)
  | .leaf (.date _) => .obj []
  | .leaf s => .leaf (some s)
  | .arr xs => elements (shapeAll xs)
  | .obj members => .obj (shapeMembers members)
termination_by structural data => data

def shapeAll : List Data → List (Json.Tree (Option Scalar))
  | [] => []
  | data :: rest => blank (shape data) :: shapeAll rest
termination_by structural datas => datas

def shapeMember : String × Data → String × Json.Tree (Option Scalar)
  | (key, data) => (key, shape data)
termination_by structural member => member

def shapeMembers : List (String × Data) → List (String × Json.Tree (Option Scalar))
  | [] => []
  | member :: members => shapeMember member :: shapeMembers members
termination_by structural members => members

end

/-- The text of a scalar, or of a blank. -/
def scalarText : Option Scalar → List Char
  | none => []
  | some s => (s.toJson.map print).getD ['u', 'n', 'd', 'e', 'f', 'i', 'n', 'e', 'd']

/-- The text of a key. -/
def keyText (key : String) : List Char := quote key.toList

/-- A shape has no dates. -/
def IsLeaf (a : Option Scalar) : Prop := ∀ ms, a ≠ some (.date ms)

/-- The text of a shape. -/
abbrev shapeText : Json.Tree (Option Scalar) → List Char := Tree.text scalarText keyText

abbrev LegibleShape : Json.Tree (Option Scalar) → Prop := Tree.Legible scalarText IsLeaf fun _ => True

theorem elements_eq (trees : List (Json.Tree (Option Scalar))) :
    trees = [.leaf none] ∧ elements trees = .arr [] ∨
      trees ≠ [.leaf none] ∧ elements trees = .arr trees := by
  unfold elements
  split
  · exact .inl ⟨rfl, rfl⟩
  next hne => exact .inr ⟨hne, rfl⟩

theorem blank_eq (tree : Json.Tree (Option Scalar)) :
    tree = .leaf (some .undefined) ∧ blank tree = .leaf none ∨
      tree ≠ .leaf (some .undefined) ∧ blank tree = tree := by
  unfold blank
  split
  · exact .inl ⟨rfl, rfl⟩
  next hne => exact .inr ⟨hne, rfl⟩

/-- Only what is undefined has the shape of it. -/
theorem shape_eq_undefined {data : Data} :
    shape data = .leaf (some .undefined) ↔ data = .leaf .undefined := by
  constructor
  · intro h
    match data with
    | .leaf .undefined => rfl
    | .leaf .null | .leaf (.bool _) | .leaf (.num _) | .leaf (.str _) | .leaf (.date _) => cases h
    | .arr xs =>
      rw [shape] at h
      obtain ⟨-, heq⟩ | ⟨-, heq⟩ := elements_eq (shapeAll xs) <;> rw [heq] at h <;> cases h
    | .obj members => cases h
  · rintro rfl
    rfl

/-! ### Its text -/

theorem shapeMembers_eq_map (members : List (String × Data)) :
    shapeMembers members = members.map fun member => (member.1, shape member.2) := by
  induction members with
  | nil => rfl
  | cons member members ih =>
    obtain ⟨key, data⟩ := member
    rw [shapeMembers, ih]
    rfl

theorem memberTexts_eq_map (members : List (String × Json.Tree (Option Scalar))) :
    Tree.memberTexts scalarText keyText members =
      members.map fun member => keyText member.1 ++ ':' :: shapeText member.2 := by
  induction members with
  | nil => rfl
  | cons member members ih =>
    obtain ⟨key, tree⟩ := member
    rw [Tree.memberTexts, ih]
    rfl

/-- Only what is undefined is not serialized. -/
theorem stableSerialize_eq_none {data : Data} :
    stableSerialize data = none ↔ data = .leaf .undefined := by
  constructor
  · intro h
    match data with
    | .leaf .undefined => rfl
    | .leaf .null | .leaf (.bool _) | .leaf (.num _) | .leaf (.str _) | .leaf (.date _) => cases h
    | .arr xs => cases h
    | .obj members => cases h
  · rintro rfl
    rfl

mutual

/-- **What is hashed is the text of the shape**, with its keys sorted. -/
theorem shapeText_sortKeys_shape (data : Data) : shapeText (shape data).sortKeys =
    (stableSerialize data).getD ['u', 'n', 'd', 'e', 'f', 'i', 'n', 'e', 'd'] := by
  match data with
  | .leaf .undefined | .leaf .null | .leaf (.bool _) | .leaf (.num _) | .leaf (.str _) => rfl
  | .leaf (.date _) => rfl
  | .arr xs =>
    have htexts := texts_sortAll_shapeAll xs
    rw [stableSerialize, Option.getD_some, ← htexts, shape]
    obtain ⟨hone, heq⟩ | ⟨-, heq⟩ := elements_eq (shapeAll xs)
    · rw [heq, hone]
      rfl
    · rw [heq]
      rfl
  | .obj members =>
    rw [stableSerialize, Option.getD_some, ← memberTexts_shapeMembers members,
      sortByKey_map (fun tree => shapeText tree) (Tree.sortMembers (shapeMembers members)), List.map_map,
      shape, Tree.sortKeys, shapeText, Tree.text, memberTexts_eq_map]
    rfl
termination_by structural data

theorem texts_sortAll_shapeAll (datas : List Data) :
    Tree.texts scalarText keyText (Tree.sortAll (shapeAll datas)) = stableSerializeAll datas := by
  match datas with
  | [] => rfl
  | data :: rest =>
    rw [shapeAll, Tree.sortAll, Tree.texts, stableSerializeAll, texts_sortAll_shapeAll rest]
    congr 1
    obtain ⟨hundefined, heq⟩ | ⟨hne, heq⟩ := blank_eq (shape data)
    · rw [heq, stableSerialize_eq_none.mpr (shape_eq_undefined.mp hundefined)]
      rfl
    · have hsome : stableSerialize data ≠ none := fun hnone =>
        hne (shape_eq_undefined.mpr (stableSerialize_eq_none.mp hnone))
      obtain ⟨text, htext⟩ := Option.ne_none_iff_exists'.mp hsome
      rw [heq]
      exact (shapeText_sortKeys_shape data).trans (by rw [htext]; rfl)
termination_by structural datas

theorem memberText_shapeMember (member : String × Data) :
    ((Tree.sortMember (shapeMember member)).1, shapeText (Tree.sortMember (shapeMember member)).2) =
      stableSerializeMember member := by
  match member with
  | (key, data) => exact congrArg (Prod.mk key) (shapeText_sortKeys_shape data)
termination_by structural member

theorem memberTexts_shapeMembers (members : List (String × Data)) :
    ((Tree.sortMembers (shapeMembers members)).map fun member => (member.1, shapeText member.2)) =
      stableSerializeMembers members := by
  match members with
  | [] => rfl
  | member :: members =>
    rw [shapeMembers, Tree.sortMembers, List.map_cons, memberText_shapeMember member,
      memberTexts_shapeMembers members, stableSerializeMembers]
termination_by structural members

end

/-! ### The text can be read in one way -/

/-- What follows does not continue a numeral. -/
theorem delimited_of_follows {rest : List Char} (h : Tree.Follows rest) : Delimited rest := by
  intro c cs heq
  obtain rfl | rfl | rfl := h c cs heq <;> rfl

/-- A leaf is blank, undefined or a value of JSON. -/
theorem leaf_cases {a : Option Scalar} (h : IsLeaf a) :
    a = none ∨ a = some .undefined ∨ ∃ s value, a = some s ∧ s.toJson = some value := by
  match a with
  | none => exact .inl rfl
  | some .undefined => exact .inr (.inl rfl)
  | some (.date ms) => exact absurd rfl (h ms)
  | some .null | some (.bool _) | some (.num _) | some (.str _) => exact .inr (.inr ⟨_, _, rfl, rfl⟩)

theorem scalar_of_toJson {s s' : Scalar} (h : IsLeaf (some s)) (h' : IsLeaf (some s')) {value : Value}
    (hs : s.toJson = some value) (hs' : s'.toJson = some value) : s = s' := by
  cases s with
  | undefined => cases hs
  | date ms => exact absurd rfl (h ms)
  | null =>
    cases hs
    cases s' with
    | null => rfl
    | _ => cases hs'
  | bool b =>
    cases hs
    cases s' with
    | bool b' => cases hs'; rfl
    | _ => cases hs'
  | num n =>
    cases hs
    cases s' with
    | num n' => cases hs'; rfl
    | _ => cases hs'
  | str t =>
    cases hs
    cases s' with
    | str t' => cases hs'; rfl
    | date ms => exact absurd rfl (h' ms)
    | _ => cases hs'

/-- A value that is printed, whatever follows, is read back. -/
theorem print_append_inj {value value' : Value} {rest rest' : List Char} (hrest : Tree.Follows rest)
    (hrest' : Tree.Follows rest') (h : print value ++ rest = print value' ++ rest') :
    value = value' ∧ rest = rest' := by
  have hread := parseValue_print value (Nat.le_max_left _ (print value').length)
    (delimited_of_follows hrest)
  rw [h, parseValue_print value' (Nat.le_max_right (print value).length _)
    (delimited_of_follows hrest'), Option.some.injEq, Prod.mk.injEq] at hread
  exact ⟨hread.1.symm, hread.2.symm⟩

/-- The text of a scalar of JSON begins with none of these. -/
theorem head_print {s : Scalar} {value : Value} (h : s.toJson = some value) :
    ∃ c cs, print value = c :: cs ∧ c ∉ ['u', '[', ']', '{', '}', ','] := by
  cases s with
  | undefined => cases h
  | null =>
    cases h
    exact ⟨_, _, rfl, by decide⟩
  | bool b =>
    cases h
    cases b <;> exact ⟨_, _, rfl, by decide⟩
  | num n =>
    cases h
    obtain ⟨c, cs, htext, hc⟩ := n.exists_cons
    refine ⟨c, cs, htext, ?_⟩
    simp only [List.mem_cons, List.not_mem_nil, or_false]
    rintro (rfl | rfl | rfl | rfl | rfl | rfl) <;> simp at hc
  | str t =>
    cases h
    exact ⟨_, _, rfl, by decide⟩
  | date ms =>
    cases h
    exact ⟨_, _, rfl, by decide⟩

/-- What may follow a leaf does not begin one. -/
theorem follows_ne_print {rest cs : List Char} {s : Scalar} {value : Value} (hrest : Tree.Follows rest)
    (h : s.toJson = some value) : rest ≠ print value ++ cs := by
  rintro rfl
  obtain ⟨c, cs', hprint, hc⟩ := head_print h
  obtain rfl | rfl | rfl := hrest c (cs' ++ cs) (by rw [hprint, List.cons_append]) <;> simp at hc

theorem undefined_ne_print {rest rest' : List Char} {s : Scalar} {value : Value}
    (h : s.toJson = some value) : scalarText (some .undefined) ++ rest ≠ print value ++ rest' := by
  intro heq
  obtain ⟨c, cs, hprint, hc⟩ := head_print h
  rw [hprint] at heq
  obtain ⟨rfl, -⟩ := List.cons.inj heq
  exact hc List.mem_cons_self

theorem scalarText_of_toJson {s : Scalar} {value : Value} (h : s.toJson = some value) :
    scalarText (some s) = print value := by
  rw [scalarText, h, Option.map_some, Option.getD_some]

/-- **Leaves and keys can be read in one way.** -/
theorem readable : Tree.Readable scalarText keyText IsLeaf fun _ => True where
  leaf_inj := by
    intro a a' rest rest' ha ha' hrest hrest' heq
    have hu : ∀ {rest rest' : List Char}, Tree.Follows rest →
        rest ≠ scalarText (some .undefined) ++ rest' := by
      rintro _ rest' hrest rfl
      obtain h | h | h := hrest _ _ rfl <;> cases h
    obtain rfl | rfl | ⟨s, value, rfl, hvalue⟩ := leaf_cases ha <;>
      obtain rfl | rfl | ⟨s', value', rfl, hvalue'⟩ := leaf_cases ha'
    · exact ⟨rfl, heq⟩
    · exact absurd heq (hu hrest)
    · rw [scalarText_of_toJson hvalue'] at heq
      exact absurd heq (follows_ne_print hrest hvalue')
    · exact absurd heq.symm (hu hrest')
    · exact ⟨rfl, List.append_cancel_left heq⟩
    · rw [scalarText_of_toJson hvalue'] at heq
      exact absurd heq (undefined_ne_print hvalue')
    · rw [scalarText_of_toJson hvalue] at heq
      exact absurd heq.symm (follows_ne_print hrest' hvalue)
    · rw [scalarText_of_toJson hvalue] at heq
      exact absurd heq.symm (undefined_ne_print hvalue)
    · rw [scalarText_of_toJson hvalue, scalarText_of_toJson hvalue'] at heq
      obtain ⟨rfl, hsame⟩ := print_append_inj hrest hrest' heq
      exact ⟨congrArg some (scalar_of_toJson ha ha' hvalue hvalue'), hsame⟩
  leaf_head := by
    intro a c cs ha htext
    obtain rfl | rfl | ⟨s, value, rfl, hvalue⟩ := leaf_cases ha
    · cases htext
    · cases htext
      decide
    · obtain ⟨c', cs', hprint, hc'⟩ := head_print hvalue
      rw [scalarText_of_toJson hvalue, hprint] at htext
      obtain ⟨rfl, -⟩ := List.cons.inj htext
      exact fun hmem => hc' (List.mem_cons_of_mem _ hmem)
  key_inj := by
    intro key key' rest rest' _ _ heq
    have hread := parseValue_quote (Nat.lt_succ_of_le (Nat.le_max_left key.toList.length
      key'.toList.length)) (':' :: rest)
    have hread' := parseValue_quote (Nat.lt_succ_of_le (Nat.le_max_right key.toList.length
      key'.toList.length)) (':' :: rest')
    change quote key.toList ++ _ = quote key'.toList ++ _ at heq
    rw [heq, hread', Option.some.injEq, Prod.mk.injEq] at hread
    exact ⟨(Value.str.inj hread.1).symm, (List.cons.inj hread.2).2.symm⟩
  key_head := fun _ heq => by cases heq

mutual

/-- Every shape is legible. -/
theorem legible_shape (data : Data) : LegibleShape (shape data) := by
  match data with
  | .leaf (.date _) => exact trivial
  | .leaf .undefined | .leaf .null | .leaf (.bool _) | .leaf (.num _) | .leaf (.str _) =>
    intro ms heq
    cases heq
  | .arr xs =>
    have hall := legibleAll_shapeAll xs
    rw [shape]
    obtain ⟨-, heq⟩ | ⟨hne, heq⟩ := elements_eq (shapeAll xs)
    · rw [heq]
      exact ⟨fun _ hone => absurd hone (by simp), trivial⟩
    · rw [heq]
      refine ⟨fun a hone htext => ?_, hall⟩
      rw [hone] at hall hne
      obtain rfl | rfl | ⟨s, value, rfl, hvalue⟩ := leaf_cases hall.1
      · exact hne rfl
      · cases htext
      · obtain ⟨c, cs, hprint, -⟩ := head_print hvalue
        rw [scalarText_of_toJson hvalue, hprint] at htext
        cases htext
  | .obj members => exact legibleMembers_shapeMembers members
termination_by structural data

theorem legibleAll_shapeAll (datas : List Data) :
    Tree.LegibleAll scalarText IsLeaf (fun _ => True) (shapeAll datas) := by
  match datas with
  | [] => trivial
  | data :: rest =>
    refine ⟨?_, legibleAll_shapeAll rest⟩
    have hshape := legible_shape data
    obtain ⟨-, heq⟩ | ⟨-, heq⟩ := blank_eq (shape data)
    · rw [heq]
      intro ms h
      cases h
    · rw [heq]
      exact hshape
termination_by structural datas

theorem legibleMember_shapeMember (member : String × Data) :
    Tree.LegibleMember scalarText IsLeaf (fun _ => True) (shapeMember member) := by
  match member with
  | (key, data) => exact ⟨trivial, legible_shape data⟩
termination_by structural member

theorem legibleMembers_shapeMembers (members : List (String × Data)) :
    Tree.LegibleMembers scalarText IsLeaf (fun _ => True) (shapeMembers members) := by
  match members with
  | [] => trivial
  | member :: members =>
    exact ⟨legibleMember_shapeMember member, legibleMembers_shapeMembers members⟩
termination_by structural members

end

/-- There is no colon in the text of an event type. -/
theorem colon_notMem_text (event : WebhookEventType) : ':' ∉ event.text.toList := by
  cases event <;> decide

/-- What stands before a first colon, and what after it. -/
theorem append_colon_inj {pre pre' post post' : List Char} (h : ':' ∉ pre) (h' : ':' ∉ pre') :
    pre ++ ':' :: post = pre' ++ ':' :: post' ↔ pre = pre' ∧ post = post' := by
  induction pre generalizing pre' with
  | nil =>
    cases pre' with
    | nil => simp
    | cons c pre' => simp [(List.ne_of_not_mem_cons h')]
  | cons c pre ih =>
    cases pre' with
    | nil => simp [(List.ne_of_not_mem_cons h).symm]
    | cons c' pre' =>
      rw [List.cons_append, List.cons_append, List.cons.injEq, List.cons.injEq,
        ih (List.not_mem_of_not_mem_cons h) (List.not_mem_of_not_mem_cons h'), and_assoc]

theorem text_injective : Function.Injective WebhookEventType.text := by
  intro event event' h
  cases event <;> cases event' <;> first | rfl | exact absurd h (by decide)

/-- **The id tells the event type and the shape**, up to key order, and nothing more. -/
theorem createEventId_eq_iff {sha256 : String → String} (hsha256 : Function.Injective sha256)
    {event event' : WebhookEventType} {data data' : Data} :
    createEventId sha256 event data = createEventId sha256 event' data' ↔
      event = event' ∧ (shape data).sortKeys = (shape data').sortKeys := by
  have htext : ∀ (event : WebhookEventType) (data : Data), (event.text ++ ":" ++ String.ofList ((stableSerialize data).getD
      ['u', 'n', 'd', 'e', 'f', 'i', 'n', 'e', 'd'])).toList =
        event.text.toList ++ ':' :: shapeText (shape data).sortKeys := by
    intro event data
    rw [shapeText_sortKeys_shape]
    simp only [String.toList_append, String.toList_ofList, List.append_assoc]
    rfl
  rw [createEventId, createEventId, hsha256.eq_iff, ← String.toList_inj, htext, htext,
    append_colon_inj (colon_notMem_text event) (colon_notMem_text event'), String.toList_inj, text_injective.eq_iff]
  refine and_congr_right fun _ => ⟨fun h => ?_, fun h => congrArg _ h⟩
  refine (Tree.text_append_inj readable _ (Tree.legible_sortKeys _ (legible_shape data))
    (Tree.legible_sortKeys _ (legible_shape data')) Tree.follows_nil Tree.follows_nil ?_).1
  rw [List.append_nil, List.append_nil]
  exact h

/-! ### What is delivered -/

/-- The data are **delivered alike**: neither is left out, or both are, and the values are equal up to
key order. -/
abbrev DeliveredAlike (data data' : Data) : Prop := Option.Rel Same (toJson data) (toJson data')

theorem toJsonMembers_eq_filterMap (members : List (String × Data)) :
    toJsonMembers members = members.filterMap toJsonMember := by
  induction members with
  | nil => rfl
  | cons member members ih =>
    rw [toJsonMembers, ih, List.filterMap_cons]
    cases toJsonMember member <;> rfl

theorem toJsonMember_key (member : String × Data) (member' : String × Value)
    (h : toJsonMember member = some member') : member'.1 = member.1 := by
  obtain ⟨key, data⟩ := member
  obtain ⟨value, -, rfl⟩ := Option.map_eq_some_iff.mp h
  rfl

mutual

theorem distinctKeys_toJson (data : Data) (h : data.DistinctKeys) :
    ∀ value, toJson data = some value → DistinctKeys value := by
  match data with
  | .leaf s =>
    intro value hvalue
    cases s <;> cases hvalue <;> trivial
  | .arr xs =>
    rintro _ ⟨⟩
    exact distinctKeys_toJsonAll xs h
  | .obj members =>
    rintro _ ⟨⟩
    refine ⟨?_, distinctKeys_toJsonMembers members h.2⟩
    rw [toJsonMembers_eq_filterMap]
    exact nodup_keys_filterMap toJsonMember_key h.1
termination_by structural data

theorem distinctKeys_toJsonAll (datas : List Data) (h : Tree.DistinctKeysAll datas) :
    DistinctKeysAll (toJsonAll datas) := by
  match datas with
  | [] => trivial
  | data :: rest =>
    refine ⟨?_, distinctKeys_toJsonAll rest h.2⟩
    have hdata := distinctKeys_toJson data h.1
    cases hvalue : toJson data with
    | none => trivial
    | some value => exact hdata value hvalue
termination_by structural datas

theorem distinctKeys_toJsonMember (member : String × Data) (h : Tree.DistinctKeysMember member) :
    ∀ member', toJsonMember member = some member' → DistinctKeys member'.2 := by
  match member with
  | (key, data) =>
    intro member' hmember
    obtain ⟨value, hvalue, rfl⟩ := Option.map_eq_some_iff.mp hmember
    exact distinctKeys_toJson data h value hvalue
termination_by structural member

theorem distinctKeys_toJsonMembers (members : List (String × Data))
    (h : Tree.DistinctKeysMembers members) : DistinctKeysMembers (toJsonMembers members) := by
  match members with
  | [] => trivial
  | member :: members =>
    have hmember := distinctKeys_toJsonMember member h.1
    have hrest := distinctKeysMembers_iff.mp (distinctKeys_toJsonMembers members h.2)
    refine distinctKeysMembers_iff.mpr fun member' hmem => ?_
    obtain hmem | hmem := List.mem_append.mp hmem
    · exact hmember member' (Option.mem_toList.mp hmem)
    · exact hrest member' hmem
termination_by structural members

end

/-- Data are delivered alike when the values are equal once their keys have been sorted. -/
theorem deliveredAlike_iff {data data' : Data} (h : data.DistinctKeys) (h' : data'.DistinctKeys) :
    DeliveredAlike data data' ↔ (toJson data).map sortKeys = (toJson data').map sortKeys := by
  have hsame := distinctKeys_toJson data h
  have hsame' := distinctKeys_toJson data' h'
  unfold DeliveredAlike
  cases hvalue : toJson data with
  | none => cases hvalue' : toJson data' <;> simp
  | some value =>
    cases hvalue' : toJson data' with
    | none => simp
    | some value' => simpa using same_iff (hsame value hvalue) (hsame' value' hvalue')

mutual

/-- The keys can be sorted before or after the data is written as JSON. -/
theorem toJson_sortKeys (data : Data) (h : data.DistinctKeys) :
    toJson data.sortKeys = (toJson data).map sortKeys := by
  match data with
  | .leaf s => cases s <;> rfl
  | .arr xs => rw [Tree.sortKeys, toJson, toJson, Option.map_some, sortKeys, toJsonAll_sortAll xs h]
  | .obj members =>
    have hkeys : ((Tree.sortMembers members).map Prod.fst).Nodup :=
      Tree.keys_sortMembers members ▸ h.1
    have hmembers := toJsonMembers_sortMembers members h.2
    rw [toJsonMembers_eq_filterMap] at hmembers
    rw [Tree.sortKeys, toJson, toJson, Option.map_some, sortKeys, toJsonMembers_eq_filterMap,
      ← sortByKey_filterMap toJsonMember_key hkeys, hmembers]
termination_by structural data

theorem toJsonAll_sortAll (datas : List Data) (h : Tree.DistinctKeysAll datas) :
    toJsonAll (Tree.sortAll datas) = sortAll (toJsonAll datas) := by
  match datas with
  | [] => rfl
  | data :: rest =>
    rw [Tree.sortAll, toJsonAll, toJsonAll, sortAll, toJson_sortKeys data h.1,
      toJsonAll_sortAll rest h.2]
    cases toJson data <;> rfl
termination_by structural datas

theorem toJsonMember_sortMember (member : String × Data) (h : Tree.DistinctKeysMember member) :
    toJsonMember (Tree.sortMember member) = (toJsonMember member).map sortMember := by
  match member with
  | (key, data) =>
    rw [Tree.sortMember, toJsonMember, toJsonMember, toJson_sortKeys data h, Option.map_map,
      Option.map_map]
    rfl
termination_by structural member

theorem toJsonMembers_sortMembers (members : List (String × Data))
    (h : Tree.DistinctKeysMembers members) :
    toJsonMembers (Tree.sortMembers members) = sortMembers (toJsonMembers members) := by
  match members with
  | [] => rfl
  | member :: members =>
    rw [Tree.sortMembers, toJsonMembers, toJsonMembers, toJsonMember_sortMember member h.1,
      toJsonMembers_sortMembers members h.2]
    cases toJsonMember member <;> rfl
termination_by structural members

end

/-- **Data that agree are delivered alike.** -/
theorem deliveredAlike_of_agree {data data' : Data} (h : data.DistinctKeys) (h' : data'.DistinctKeys)
    (hagree : data.Agree data') : DeliveredAlike data data' := by
  rw [deliveredAlike_iff h h', ← toJson_sortKeys data h, ← toJson_sortKeys data' h',
    (Tree.agree_iff data h h').mp hagree]

theorem blank_sortKeys (tree : Json.Tree (Option Scalar)) : blank tree.sortKeys = (blank tree).sortKeys := by
  cases tree with
  | arr xs => rfl
  | obj members => rfl
  | leaf a =>
    obtain _ | s := a
    · rfl
    · cases s <;> rfl

theorem elements_sortAll (trees : List (Json.Tree (Option Scalar))) :
    elements (Tree.sortAll trees) = (elements trees).sortKeys := by
  obtain ⟨rfl, -⟩ | ⟨hne, heq⟩ := elements_eq trees
  · rfl
  · obtain ⟨hone, -⟩ | ⟨-, heq'⟩ := elements_eq (Tree.sortAll trees)
    · exact absurd (Tree.eq_of_sortAll_eq_leaf hone) hne
    · rw [heq, heq', Tree.sortKeys]

mutual

/-- The keys can be sorted before or after the shape is taken. -/
theorem shape_sortKeys (data : Data) : shape data.sortKeys = (shape data).sortKeys := by
  match data with
  | .leaf (.date _) => rfl
  | .leaf .undefined | .leaf .null | .leaf (.bool _) | .leaf (.num _) | .leaf (.str _) => rfl
  | .arr xs =>
    rw [Tree.sortKeys, shape, shape, shapeAll_sortAll xs, elements_sortAll]
  | .obj members =>
    rw [Tree.sortKeys, shape, shape, Tree.sortKeys, ← shapeMembers_sortMembers members,
      shapeMembers_eq_map, shapeMembers_eq_map, ← sortByKey_map]
termination_by structural data

theorem shapeAll_sortAll (datas : List Data) :
    shapeAll (Tree.sortAll datas) = Tree.sortAll (shapeAll datas) := by
  match datas with
  | [] => rfl
  | data :: rest =>
    rw [Tree.sortAll, shapeAll, shapeAll, Tree.sortAll, shapeAll_sortAll rest, shape_sortKeys data,
      blank_sortKeys]
termination_by structural datas

theorem shapeMember_sortMember (member : String × Data) :
    shapeMember (Tree.sortMember member) = Tree.sortMember (shapeMember member) := by
  match member with
  | (key, data) => rw [Tree.sortMember, shapeMember, shapeMember, Tree.sortMember, shape_sortKeys data]
termination_by structural member

theorem shapeMembers_sortMembers (members : List (String × Data)) :
    shapeMembers (Tree.sortMembers members) = Tree.sortMembers (shapeMembers members) := by
  match members with
  | [] => rfl
  | member :: members =>
    rw [Tree.sortMembers, shapeMembers, shapeMembers, Tree.sortMembers,
      shapeMember_sortMember member, shapeMembers_sortMembers members]
termination_by structural members

end

/-! ### Data that has its shape alone -/

mutual

/-- **No date, no empty object, no empty array and no array of one undefined element**, at any
depth. -/
def Unambiguous : Data → Prop
  | .leaf (.date _) => False
  | .leaf _ => True
  | .arr xs => xs ≠ [] ∧ xs ≠ [.leaf .undefined] ∧ UnambiguousAll xs
  | .obj members => members ≠ [] ∧ UnambiguousMembers members
termination_by structural data => data

def UnambiguousAll : List Data → Prop
  | [] => True
  | data :: rest => Unambiguous data ∧ UnambiguousAll rest
termination_by structural datas => datas

def UnambiguousMember : String × Data → Prop
  | (_, data) => Unambiguous data
termination_by structural member => member

def UnambiguousMembers : List (String × Data) → Prop
  | [] => True
  | member :: members => UnambiguousMember member ∧ UnambiguousMembers members
termination_by structural members => members

end

/-- The shape of an array is an array. -/
theorem shape_arr (xs : List Data) : ∃ trees, shape (.arr xs) = .arr trees := by
  obtain ⟨-, heq⟩ | ⟨-, heq⟩ := elements_eq (shapeAll xs)
  · exact ⟨[], heq⟩
  · exact ⟨_, heq⟩

/-- What has the shape of a scalar is the scalar. -/
theorem eq_leaf_of_shape {data : Data} {a : Option Scalar} (h : (shape data).sortKeys = .leaf a) :
    ∃ s, a = some s ∧ data = .leaf s := by
  match data with
  | .leaf .undefined | .leaf .null | .leaf (.bool _) | .leaf (.num _) | .leaf (.str _) =>
    exact ⟨_, (Tree.leaf.inj h).symm, rfl⟩
  | .leaf (.date _) => cases h
  | .arr xs =>
    obtain ⟨trees, heq⟩ := shape_arr xs
    rw [heq] at h
    cases h
  | .obj members => cases h

/-- What has the shape of an array that is not empty is an array. -/
theorem eq_arr_of_shape {data : Data} {trees : List (Json.Tree (Option Scalar))} (hne : trees ≠ [])
    (h : (shape data).sortKeys = .arr trees) :
    ∃ xs, data = .arr xs ∧ Tree.sortAll (shapeAll xs) = trees := by
  match data with
  | .leaf .undefined | .leaf .null | .leaf (.bool _) | .leaf (.num _) | .leaf (.str _)
  | .leaf (.date _) | .obj _ => cases h
  | .arr xs =>
    rw [shape] at h
    obtain ⟨-, heq⟩ | ⟨-, heq⟩ := elements_eq (shapeAll xs) <;> rw [heq] at h
    · exact absurd (Tree.arr.inj h).symm hne
    · exact ⟨xs, rfl, Tree.arr.inj h⟩

/-- What has the shape of an object that is not empty is an object. -/
theorem eq_obj_of_shape {data : Data} {members : List (String × Json.Tree (Option Scalar))}
    (hne : members ≠ []) (h : (shape data).sortKeys = .obj members) :
    ∃ ms, data = .obj ms ∧ sortByKey (Tree.sortMembers (shapeMembers ms)) = members := by
  match data with
  | .leaf .undefined | .leaf .null | .leaf (.bool _) | .leaf (.num _) | .leaf (.str _) => cases h
  | .leaf (.date _) => exact absurd (Tree.obj.inj h).symm hne
  | .arr xs =>
    obtain ⟨trees, heq⟩ := shape_arr xs
    rw [heq] at h
    cases h
  | .obj ms => exact ⟨ms, rfl, Tree.obj.inj h⟩

/-- An element that is not blank has its shape between the commas. -/
theorem sortKeys_shape_of_blank {x y : Data}
    (h : (blank (shape x)).sortKeys = (blank (shape y)).sortKeys) :
    (shape x).sortKeys = (shape y).sortKeys := by
  have hne : ∀ data, (shape data).sortKeys ≠ .leaf none := fun data heq => by
    obtain ⟨s, hnone, -⟩ := eq_leaf_of_shape heq
    cases hnone
  obtain ⟨hx, hblank⟩ | ⟨-, hblank⟩ := blank_eq (shape x) <;>
    obtain ⟨hy, hblank'⟩ | ⟨-, hblank'⟩ := blank_eq (shape y) <;> rw [hblank, hblank'] at h
  · rw [hx, hy]
  · exact absurd h.symm (hne y)
  · exact absurd h (hne x)
  · exact h

theorem shapeAll_eq_blank {datas : List Data} (h : shapeAll datas = [.leaf none]) :
    datas = [.leaf .undefined] := by
  match datas with
  | [data] =>
    obtain ⟨hundefined, -⟩ | ⟨-, heq⟩ := blank_eq (shape data)
    · rw [shape_eq_undefined.mp hundefined]
    · have hblank : (shape data).sortKeys = .leaf none := by
        rw [← heq, (List.cons.inj h).1, Tree.sortKeys]
      obtain ⟨s, hnone, -⟩ := eq_leaf_of_shape hblank
      cases hnone
  | _ :: _ :: _ => cases (List.cons.inj h).2

theorem mem_shapeMembers {key : String} {tree : Json.Tree (Option Scalar)} {members : List (String × Data)} :
    (key, tree) ∈ shapeMembers members ↔ ∃ data, (key, data) ∈ members ∧ shape data = tree := by
  rw [shapeMembers_eq_map, List.mem_map]
  constructor
  · rintro ⟨⟨key', data⟩, hmem, heq⟩
    cases heq
    exact ⟨data, hmem, rfl⟩
  · rintro ⟨data, hmem, rfl⟩
    exact ⟨(key, data), hmem, rfl⟩

mutual

/-- **Unambiguous data agrees with all data of its shape.** -/
theorem agree_of_shape (data : Data) (h : Unambiguous data) (hdistinct : data.DistinctKeys)
    {data' : Data} (heq : (shape data).sortKeys = (shape data').sortKeys) : data.Agree data' := by
  match data with
  | .leaf (.date _) => cases h
  | .leaf .undefined | .leaf .null | .leaf (.bool _) | .leaf (.num _) | .leaf (.str _) =>
    obtain ⟨s, hs, rfl⟩ := eq_leaf_of_shape heq.symm
    cases hs
    rfl
  | .arr xs =>
    obtain ⟨hne, hundefined, hall⟩ := h
    obtain ⟨hone, -⟩ | ⟨-, helements⟩ := elements_eq (shapeAll xs)
    · exact absurd (shapeAll_eq_blank hone) hundefined
    rw [shape, helements, Tree.sortKeys] at heq
    have hne' : Tree.sortAll (shapeAll xs) ≠ [] := by
      obtain ⟨x, xs, rfl⟩ := List.exists_cons_of_ne_nil hne
      exact List.cons_ne_nil _ _
    obtain ⟨ys, rfl, hys⟩ := eq_arr_of_shape hne' heq.symm
    exact ⟨ys, rfl, agreeAll_of_shape xs hall hdistinct hys.symm⟩
  | .obj members =>
    have hkeys : ((shapeMembers members).map Prod.fst).Nodup := by
      rw [shapeMembers_eq_map, List.map_map]
      exact hdistinct.1
    have hcount : ∀ members, (shapeMembers members).length = members.length := fun members => by
      rw [shapeMembers_eq_map, List.length_map]
    rw [shape, Tree.sortKeys] at heq
    have hne' : sortByKey (Tree.sortMembers (shapeMembers members)) ≠ [] := fun hnil => h.1 <| by
      have hlength := (perm_sortByKey (Tree.sortMembers (shapeMembers members))).length_eq
      rw [hnil, Tree.sortMembers_eq_map, List.length_map, hcount] at hlength
      exact List.eq_nil_of_length_eq_zero hlength.symm
    obtain ⟨members', rfl, hmembers'⟩ := eq_obj_of_shape hne' heq.symm
    obtain ⟨hlength, hmem⟩ := (Tree.sortByKey_eq_iff hkeys).mp hmembers'.symm
    rw [hcount, hcount] at hlength
    exact ⟨members', rfl, hlength, agreeMembers_of_shape members h.2 hdistinct.2 hmem⟩
termination_by structural data

theorem agreeAll_of_shape (datas : List Data) (h : UnambiguousAll datas)
    (hdistinct : Tree.DistinctKeysAll datas) {datas' : List Data}
    (heq : Tree.sortAll (shapeAll datas) = Tree.sortAll (shapeAll datas')) :
    Tree.AgreeAll datas datas' := by
  match datas, datas' with
  | [], [] => rfl
  | x :: xs, y :: ys =>
    rw [shapeAll, shapeAll, Tree.sortAll, Tree.sortAll] at heq
    obtain ⟨hhead, htail⟩ := List.cons.inj heq
    exact ⟨y, ys, rfl, agree_of_shape x h.1 hdistinct.1 (sortKeys_shape_of_blank hhead),
      agreeAll_of_shape xs h.2 hdistinct.2 htail⟩
termination_by structural datas

theorem agreeMember_of_shape (member : String × Data) (h : UnambiguousMember member)
    (hdistinct : Tree.DistinctKeysMember member) {members' : List (String × Data)}
    (hmem : Tree.sortMember (shapeMember member) ∈ Tree.sortMembers (shapeMembers members')) :
    Tree.AgreeMember member members' := by
  match member with
  | (key, data) =>
    obtain ⟨tree, htree, heq⟩ := Tree.mem_sortMembers.mp hmem
    obtain ⟨data', hdata', rfl⟩ := mem_shapeMembers.mp htree
    exact ⟨data', hdata', agree_of_shape data h hdistinct heq.symm⟩
termination_by structural member

theorem agreeMembers_of_shape (members : List (String × Data)) (h : UnambiguousMembers members)
    (hdistinct : Tree.DistinctKeysMembers members) {members' : List (String × Data)}
    (hmem : ∀ member ∈ Tree.sortMembers (shapeMembers members),
      member ∈ Tree.sortMembers (shapeMembers members')) :
    Tree.AgreeMembers members members' := by
  match members with
  | [] => trivial
  | member :: members =>
    rw [shapeMembers, Tree.sortMembers, List.forall_mem_cons] at hmem
    exact ⟨agreeMember_of_shape member h.1 hdistinct.1 hmem.1,
      agreeMembers_of_shape members h.2 hdistinct.2 hmem.2⟩
termination_by structural members

end

/-! ### Other data of the same shape -/

/-- An array, or the other one of the two that are serialized without elements. -/
def otherElements : List Data → Data
  | [] => .arr [.leaf .undefined]
  | [.leaf .undefined] => .arr []
  | xs => .arr xs

/-- An object, or a date when it is empty. -/
def otherObject : List (String × Data) → Data
  | [] => .leaf (.date 0)
  | members => .obj members

mutual

/-- Other data of the same shape: for each of the four that are ambiguous, another. -/
def other : Data → Data
  | .leaf (.date _) => .obj []
  | .leaf s => .leaf s
  | .arr xs => otherElements (otherAll xs)
  | .obj members => otherObject (otherMembers members)
termination_by structural data => data

def otherAll : List Data → List Data
  | [] => []
  | data :: rest => other data :: otherAll rest
termination_by structural datas => datas

def otherMember : String × Data → String × Data
  | (key, data) => (key, other data)
termination_by structural member => member

def otherMembers : List (String × Data) → List (String × Data)
  | [] => []
  | member :: members => otherMember member :: otherMembers members
termination_by structural members => members

end

theorem otherElements_eq (xs : List Data) :
    xs = [] ∧ otherElements xs = .arr [.leaf .undefined] ∨
      xs = [.leaf .undefined] ∧ otherElements xs = .arr [] ∨
      xs ≠ [] ∧ xs ≠ [.leaf .undefined] ∧ otherElements xs = .arr xs := by
  unfold otherElements
  split
  · exact .inl ⟨rfl, rfl⟩
  · exact .inr (.inl ⟨rfl, rfl⟩)
  next hnil hone => exact .inr (.inr ⟨hnil, hone, rfl⟩)

theorem otherMembers_eq_map (members : List (String × Data)) :
    otherMembers members = members.map fun member => (member.1, other member.2) := by
  induction members with
  | nil => rfl
  | cons member members ih =>
    obtain ⟨key, data⟩ := member
    rw [otherMembers, ih]
    rfl

theorem otherAll_eq_map (datas : List Data) : otherAll datas = datas.map other := by
  induction datas with
  | nil => rfl
  | cons data rest ih => rw [otherAll, ih, List.map_cons]

theorem shape_otherElements (xs : List Data) : shape (otherElements xs) = elements (shapeAll xs) := by
  obtain ⟨rfl, heq⟩ | ⟨rfl, heq⟩ | ⟨-, -, heq⟩ := otherElements_eq xs <;> rw [heq] <;> rfl

theorem shape_otherObject (members : List (String × Data)) :
    shape (otherObject members) = .obj (shapeMembers members) := by
  cases members with
  | nil => rfl
  | cons member members => rfl

mutual

/-- **The other data has the same shape.** -/
theorem shape_other (data : Data) : shape (other data) = shape data := by
  match data with
  | .leaf .undefined | .leaf .null | .leaf (.bool _) | .leaf (.num _) | .leaf (.str _)
  | .leaf (.date _) => rfl
  | .arr xs => rw [other, shape_otherElements, shapeAll_otherAll xs, shape]
  | .obj members => rw [other, shape_otherObject, shapeMembers_otherMembers members, shape]
termination_by structural data

theorem shapeAll_otherAll (datas : List Data) : shapeAll (otherAll datas) = shapeAll datas := by
  match datas with
  | [] => rfl
  | data :: rest =>
    rw [otherAll, shapeAll, shapeAll, shape_other data, shapeAll_otherAll rest]
termination_by structural datas

theorem shapeMember_otherMember (member : String × Data) :
    shapeMember (otherMember member) = shapeMember member := by
  match member with
  | (key, data) => rw [otherMember, shapeMember, shapeMember, shape_other data]
termination_by structural member

theorem shapeMembers_otherMembers (members : List (String × Data)) :
    shapeMembers (otherMembers members) = shapeMembers members := by
  match members with
  | [] => rfl
  | member :: members =>
    rw [otherMembers, shapeMembers, shapeMembers, shapeMember_otherMember member,
      shapeMembers_otherMembers members]
termination_by structural members

end

theorem distinctKeys_otherObject {members : List (String × Data)}
    (h : (members.map Prod.fst).Nodup) (hmembers : Tree.DistinctKeysMembers members) :
    (otherObject members).DistinctKeys := by
  cases members with
  | nil => trivial
  | cons member members => exact ⟨h, hmembers⟩

mutual

theorem distinctKeys_other (data : Data) (h : data.DistinctKeys) : (other data).DistinctKeys := by
  match data with
  | .leaf (.date _) => exact ⟨List.nodup_nil, trivial⟩
  | .leaf .undefined | .leaf .null | .leaf (.bool _) | .leaf (.num _) | .leaf (.str _) => trivial
  | .arr xs =>
    have hall := distinctKeysAll_otherAll xs h
    rw [other]
    obtain ⟨-, heq⟩ | ⟨-, heq⟩ | ⟨-, -, heq⟩ := otherElements_eq (otherAll xs) <;> rw [heq]
    · exact ⟨trivial, trivial⟩
    · trivial
    · exact hall
  | .obj members =>
    refine distinctKeys_otherObject ?_ (distinctKeysMembers_otherMembers members h.2)
    rw [otherMembers_eq_map, List.map_map]
    exact h.1
termination_by structural data

theorem distinctKeysAll_otherAll (datas : List Data) (h : Tree.DistinctKeysAll datas) :
    Tree.DistinctKeysAll (otherAll datas) := by
  match datas with
  | [] => trivial
  | data :: rest => exact ⟨distinctKeys_other data h.1, distinctKeysAll_otherAll rest h.2⟩
termination_by structural datas

theorem distinctKeysMember_otherMember (member : String × Data) (h : Tree.DistinctKeysMember member) :
    Tree.DistinctKeysMember (otherMember member) := by
  match member with
  | (key, data) => exact distinctKeys_other data h
termination_by structural member

theorem distinctKeysMembers_otherMembers (members : List (String × Data))
    (h : Tree.DistinctKeysMembers members) : Tree.DistinctKeysMembers (otherMembers members) := by
  match members with
  | [] => trivial
  | member :: members =>
    exact ⟨distinctKeysMember_otherMember member h.1, distinctKeysMembers_otherMembers members h.2⟩
termination_by structural members

end

/-- Only what is undefined is left out. -/
theorem toJson_eq_none {data : Data} : toJson data = none ↔ data = .leaf .undefined := by
  constructor
  · intro h
    match data with
    | .leaf .undefined => rfl
    | .leaf .null | .leaf (.bool _) | .leaf (.num _) | .leaf (.str _) | .leaf (.date _) => cases h
    | .arr xs => cases h
    | .obj members => cases h
  · rintro rfl
    rfl

/-- Nothing but what is undefined becomes undefined. -/
theorem other_eq_undefined {data : Data} (h : other data = .leaf .undefined) :
    data = .leaf .undefined := by
  rw [← shape_eq_undefined, ← shape_other, h]
  rfl

theorem mem_toJsonMembers {key : String} {value : Value} {members : List (String × Data)} :
    (key, value) ∈ toJsonMembers members ↔ ∃ data, (key, data) ∈ members ∧ toJson data = some value := by
  rw [toJsonMembers_eq_filterMap, List.mem_filterMap]
  constructor
  · rintro ⟨⟨key', data⟩, hmem, heq⟩
    obtain ⟨value', hvalue, hpair⟩ := Option.map_eq_some_iff.mp heq
    cases hpair
    exact ⟨data, hmem, hvalue⟩
  · rintro ⟨data, hmem, hvalue⟩
    exact ⟨(key, data), hmem, Option.map_eq_some_iff.mpr ⟨value, hvalue, rfl⟩⟩

/-- When an object is delivered like the other, so is each of its members. -/
theorem delivered_of_perm {members : List (String × Data)} (hnodup : (members.map Prod.fst).Nodup)
    (hperm : (sortMembers (toJsonMembers members)).Perm
      (sortMembers (toJsonMembers (otherMembers members)))) :
    ∀ member ∈ members, (toJson member.2).map sortKeys = (toJson (other member.2)).map sortKeys := by
  rintro ⟨key, data⟩ hmem
  cases hvalue : toJson data with
  | none =>
    obtain rfl := toJson_eq_none.mp hvalue
    rfl
  | some value =>
    have hsorted := hperm.subset (mem_sortMembers.mpr ⟨value, mem_toJsonMembers.mpr
      ⟨data, hmem, hvalue⟩, rfl⟩)
    obtain ⟨value', hmem', heq⟩ := mem_sortMembers.mp hsorted
    obtain ⟨data', hother, hvalue'⟩ := mem_toJsonMembers.mp hmem'
    rw [otherMembers_eq_map] at hother
    obtain ⟨member, hmember, hpair⟩ := List.mem_map.mp hother
    have hkey : member.1 = key := congrArg Prod.fst hpair
    obtain rfl : member = (key, data) := List.inj_on_of_nodup_map hnodup hmember hmem hkey
    obtain rfl : other data = data' := congrArg Prod.snd hpair
    rw [hvalue', Option.map_some, Option.map_some, heq]

mutual

/-- **Data that is delivered like the other is unambiguous.** -/
theorem unambiguous_of_delivered (data : Data) (hdistinct : data.DistinctKeys)
    (h : (toJson data).map sortKeys = (toJson (other data)).map sortKeys) : Unambiguous data := by
  match data with
  | .leaf (.date _) => cases h
  | .leaf .undefined | .leaf .null | .leaf (.bool _) | .leaf (.num _) | .leaf (.str _) => trivial
  | .arr xs =>
    rw [other, otherAll_eq_map] at h
    obtain ⟨hnil, heq⟩ | ⟨hone, heq⟩ | ⟨hnil, hone, heq⟩ := otherElements_eq (xs.map other) <;>
      rw [heq] at h
    · obtain rfl := List.map_eq_nil_iff.mp hnil
      cases h
    · obtain ⟨x, rfl, hx⟩ := List.map_eq_singleton_iff.mp hone
      obtain rfl := other_eq_undefined hx
      cases h
    · rw [← otherAll_eq_map] at h
      refine ⟨fun hxs => hnil (by rw [hxs, List.map_nil]), fun hxs => hone (by rw [hxs]; rfl),
        unambiguousAll_of_delivered xs hdistinct ?_⟩
      exact Value.arr.inj (Option.some.inj h)
  | .obj [] => cases h
  | .obj (member :: members) =>
    exact ⟨List.cons_ne_nil member members,
      unambiguousMembers_of_delivered (member :: members) hdistinct.2
        (delivered_of_perm hdistinct.1 (perm_of_sortByKey_eq (Value.obj.inj (Option.some.inj h))))⟩
termination_by structural data

theorem unambiguousAll_of_delivered (datas : List Data) (hdistinct : Tree.DistinctKeysAll datas)
    (h : sortAll (toJsonAll datas) = sortAll (toJsonAll (otherAll datas))) : UnambiguousAll datas := by
  match datas with
  | [] => trivial
  | data :: rest =>
    rw [otherAll, toJsonAll, toJsonAll, sortAll, sortAll] at h
    obtain ⟨hhead, htail⟩ := List.cons.inj h
    refine ⟨?_, unambiguousAll_of_delivered rest hdistinct.2 htail⟩
    refine unambiguous_of_delivered data hdistinct.1 ?_
    cases hdata : toJson data with
    | none =>
      obtain rfl := toJson_eq_none.mp hdata
      rfl
    | some value =>
      cases hother : toJson (other data) with
      | none =>
        obtain rfl := other_eq_undefined (toJson_eq_none.mp hother)
        cases hdata
      | some value' =>
        rw [hdata, hother] at hhead
        exact congrArg some hhead
termination_by structural datas

theorem unambiguousMember_of_delivered (member : String × Data)
    (hdistinct : Tree.DistinctKeysMember member)
    (h : (toJson member.2).map sortKeys = (toJson (other member.2)).map sortKeys) :
    UnambiguousMember member := by
  match member with
  | (key, data) => exact unambiguous_of_delivered data hdistinct h
termination_by structural member

theorem unambiguousMembers_of_delivered (members : List (String × Data))
    (hdistinct : Tree.DistinctKeysMembers members)
    (h : ∀ member ∈ members,
      (toJson member.2).map sortKeys = (toJson (other member.2)).map sortKeys) :
    UnambiguousMembers members := by
  match members with
  | [] => trivial
  | member :: members =>
    obtain ⟨hmember, hmembers⟩ := List.forall_mem_cons.mp h
    exact ⟨unambiguousMember_of_delivered member hdistinct.1 hmember,
      unambiguousMembers_of_delivered members hdistinct.2 hmembers⟩
termination_by structural members

end

/-! ### What an id distinguishes -/

section

variable (sha256 : String → String)

/-- **The second of two events is never suppressed** by the first: whatever the first delivery has
come to, the second event is sent to a webhook to which it has not been delivered with success
itself. -/
def NeverSuppressed (event : WebhookEventType) (data : Data) (event' : WebhookEventType)
    (data' : Data) : Prop :=
  ∀ hmac now now' webhooks webhooks' job job' attemptNumber attemptNumber' response response'
      deliveries, job ∈ dispatchEvent sha256 now webhooks event data none →
    job' ∈ dispatchEvent sha256 now' webhooks' event' data' none →
    (∀ row, deliveries.get (job'.webhookId, job'.payload.eventId) = some row →
      row.status ≠ .success) →
    (deliverWebhook hmac job' attemptNumber' response'
      (deliverWebhook hmac job attemptNumber response deliveries).deliveries).post.isSome

/-- **The id distinguishes the event**: events that differ in what is delivered, up to key order, have
other ids and are not suppressed, and data that agrees up to key order has the same id. -/
def Distinguished (event : WebhookEventType) (data : Data) : Prop :=
  ∀ event' data', data'.DistinctKeys →
    (¬(event = event' ∧ DeliveredAlike data data') →
      createEventId sha256 event data ≠ createEventId sha256 event' data' ∧
        NeverSuppressed sha256 event data event' data') ∧
    (data.Agree data' → createEventId sha256 event data = createEventId sha256 event data')

end

variable {sha256 : String → String} {event event' : WebhookEventType} {data data' : Data}

/-- **Events with other ids** do not suppress each other. -/
theorem neverSuppressed_of_ne (h : createEventId sha256 event data ≠ createEventId sha256 event' data') :
    NeverSuppressed sha256 event data event' data' := by
  intro hmac now now' webhooks webhooks' job job' attemptNumber attemptNumber' response response'
    deliveries hjob hjob' hfresh
  have hne : (job'.webhookId, job'.payload.eventId) ≠ (job.webhookId, job.payload.eventId) := by
    rw [eventId_of_mem_dispatchEvent hjob, eventId_of_mem_dispatchEvent hjob']
    exact fun heq => h (congrArg Prod.snd heq).symm
  rw [isSome_post_iff, get_deliverWebhook_of_ne hne]
  exact hfresh

/-- **What an id distinguishes**, exactly. -/
theorem distinguished_iff (hsha256 : Function.Injective sha256) (hdata : data.DistinctKeys) :
    Distinguished sha256 event data ↔ Unambiguous data := by
  constructor
  · intro h
    -- the other data has the same id, so it is delivered alike
    have hother := distinctKeys_other data hdata
    have hid : createEventId sha256 event data = createEventId sha256 event (other data) :=
      (createEventId_eq_iff hsha256).mpr ⟨rfl, by rw [shape_other]⟩
    by_contra hambiguous
    refine ((h event (other data) hother).1 fun halike => hambiguous ?_).1 hid
    exact unambiguous_of_delivered data hdata ((deliveredAlike_iff hdata hother).mp halike.2)
  · intro h event' data' hdata'
    refine ⟨fun hdiffer => ?_, fun hagree => (createEventId_eq_iff hsha256).mpr ⟨rfl, ?_⟩⟩
    · have hne : createEventId sha256 event data ≠ createEventId sha256 event' data' := fun heq => by
        obtain ⟨rfl, hshape⟩ := (createEventId_eq_iff hsha256).mp heq
        exact hdiffer ⟨rfl, deliveredAlike_of_agree hdata hdata' (agree_of_shape data h hdata hshape)⟩
      exact ⟨hne, neverSuppressed_of_ne hne⟩
    · rw [← shape_sortKeys, (Tree.agree_iff data hdata hdata').mp hagree, shape_sortKeys]

/-- Data without dates and without anything empty. -/
theorem distinguished_iff_plain :
    let data : Data := .obj [("groupId", .leaf (.str "g")), ("archivedAt", .leaf (.str "2026-01-01"))]
    Distinguished id .groupArchived data ↔ Unambiguous data :=
  distinguished_iff Function.injective_id ⟨by decide, trivial, trivial, trivial⟩

/-! ### Confirmed contributions -/

theorem distinctKeys_contribution (payload : ContributionVerifiedPayload) :
    payload.data.DistinctKeys := by
  have hkeys : ["contributionId", "groupId", "userId", "walletAddress", "amount", "roundNumber",
      "transactionHash", "timestamp"].Nodup := by decide
  exact ⟨hkeys, Tree.distinctKeysMembers_iff.mpr (by simp [Tree.DistinctKeys])⟩

/-- The time of a confirmed contribution is delivered. -/
theorem timestamp_of_deliveredAlike {payload payload' : ContributionVerifiedPayload}
    (h : DeliveredAlike payload.data payload'.data) :
    toISOString payload.timestamp = toISOString payload'.timestamp := by
  have hdata (payload : ContributionVerifiedPayload) : toJsonMembers
      [("contributionId", .leaf (.str payload.contributionId)),
        ("groupId", .leaf (.str payload.groupId)),
        ("userId", .leaf (.str payload.userId)),
        ("walletAddress", .leaf (.str payload.walletAddress)),
        ("amount", .leaf (.str payload.amount)),
        ("roundNumber", .leaf (.num (.ofInt payload.roundNumber))),
        ("transactionHash", .leaf (.str payload.transactionHash)),
        ("timestamp", .leaf (.date payload.timestamp))] =
      [("contributionId", .str payload.contributionId), ("groupId", .str payload.groupId),
        ("userId", .str payload.userId), ("walletAddress", .str payload.walletAddress),
        ("amount", .str payload.amount), ("roundNumber", .num (.ofInt payload.roundNumber)),
        ("transactionHash", .str payload.transactionHash),
        ("timestamp", .str (toISOString payload.timestamp))] := rfl
  rw [deliveredAlike_iff (distinctKeys_contribution payload) (distinctKeys_contribution payload')] at h
  have hsorted := (perm_of_sortByKey_eq (Value.obj.inj (Option.some.inj h))).mem_iff
    (a := ("timestamp", .str (toISOString payload.timestamp)))
  rw [hdata, hdata, mem_sortMembers, mem_sortMembers] at hsorted
  obtain ⟨value, hmem, hvalue⟩ := hsorted.mp ⟨.str (toISOString payload.timestamp), by simp, rfl⟩
  obtain rfl : value = .str (toISOString payload'.timestamp) := by simpa using hmem
  exact (Value.str.inj hvalue).symm

/-- **Two events have one id**: the two notices of a contribution differ in its time, a date. The
second is not sent to a webhook that has answered the first. -/
theorem not_distinguished_timestamp :
    let contribution (timestamp : ℤ) : ContributionVerifiedPayload :=
      { contributionId := "c", groupId := "g", userId := "u", walletAddress := "w", amount := "100"
        roundNumber := 1, transactionHash := "t", timestamp }
    let jobs (timestamp : ℤ) := notifyContributionVerified id timestamp
      [⟨"webhook", "https://", "secret", ["CONTRIBUTION_CONFIRMED"], true⟩] (contribution timestamp)
    let hmac (_ text : String) := text
    createEventId id .contributionConfirmed (contribution 0).data =
        createEventId id .contributionConfirmed (contribution 60000).data ∧
      ¬DeliveredAlike (contribution 0).data (contribution 60000).data ∧
      ¬Distinguished id .contributionConfirmed (contribution 0).data ∧
      (∃ job ∈ jobs 0, ∃ job' ∈ jobs 60000, (deliverWebhook hmac job' 1 (.answered 200 "ok")
        (deliverWebhook hmac job 1 (.answered 200 "ok") .empty).deliveries).post.isNone) := by
  intro contribution jobs hmac
  have hid : createEventId id .contributionConfirmed (contribution 0).data =
      createEventId id .contributionConfirmed (contribution 60000).data := rfl
  have hdiffer : ¬DeliveredAlike (contribution 0).data (contribution 60000).data := fun halike =>
    absurd (timestamp_of_deliveredAlike halike)
      (show toISOString 0 ≠ toISOString 60000 by decide +kernel)
  have hanswered (job : WebhookDeliveryJobData) : ∃ row : WebhookDelivery, row.status = .success ∧
      (deliverWebhook hmac job 1 (.answered 200 "ok") .empty).deliveries.get
        (job.webhookId, job.payload.eventId) = some row :=
    ⟨_, rfl, Store.OrderedMap.get_set_self⟩
  refine ⟨hid, hdiffer, fun h => ?_, _, List.mem_cons_self, _, List.mem_cons_self, ?_⟩
  · have hdistinct := distinctKeys_contribution (contribution 60000)
    exact ((h .contributionConfirmed _ hdistinct).1 fun halike => hdiffer halike.2).1 hid
  · obtain ⟨row, hsuccess, hget⟩ := hanswered _
    exact isNone_post_of_get ((congrArg (Store.OrderedMap.get _) (Prod.ext rfl hid.symm)).trans hget)
      hsuccess

end Ahjoor.Webhooks
