import Ahjoor.Json.KeyOrder

/-!
# Trees of arrays and objects

What a serializer walks over: arrays and objects, with leaves of any kind. Trees **agree** when they
are equal up to key order; for trees without a key that is there twice this is equality once the keys
have been sorted (`agree_iff`).

The text of a tree is that of its leaves and keys between brackets, commas and colons. It can be read
in one way when the leaves and the keys can (`text_append_inj`): a leaf has to end where a comma or a
closing bracket begins, and an array of one leaf without text is not told from the empty array.
-/

namespace Json

/-- A tree of arrays and objects. -/
inductive Tree (α : Type)
  | leaf (a : α)
  | arr (xs : List (Tree α))
  | obj (members : List (String × Tree α))

namespace Tree

variable {α : Type}

/-! ### Agreement up to key order -/

mutual

/-- No key is there twice, at any depth. -/
def DistinctKeys : Tree α → Prop
  | leaf _ => True
  | arr xs => DistinctKeysAll xs
  | obj members => (members.map Prod.fst).Nodup ∧ DistinctKeysMembers members
termination_by structural tree => tree

def DistinctKeysAll : List (Tree α) → Prop
  | [] => True
  | tree :: trees => DistinctKeys tree ∧ DistinctKeysAll trees
termination_by structural trees => trees

def DistinctKeysMember : String × Tree α → Prop
  | (_, tree) => DistinctKeys tree
termination_by structural member => member

def DistinctKeysMembers : List (String × Tree α) → Prop
  | [] => True
  | member :: members => DistinctKeysMember member ∧ DistinctKeysMembers members
termination_by structural members => members

end

mutual

/-- The trees **agree**: they are equal up to the order of the keys. -/
def Agree : Tree α → Tree α → Prop
  | leaf a, tree => tree = leaf a
  | arr xs, tree => ∃ ys, tree = arr ys ∧ AgreeAll xs ys
  | obj members, tree =>
      ∃ members', tree = obj members' ∧ members'.length = members.length ∧
        AgreeMembers members members'
termination_by structural tree => tree

def AgreeAll : List (Tree α) → List (Tree α) → Prop
  | [], ys => ys = []
  | x :: xs, ys => ∃ y ys', ys = y :: ys' ∧ Agree x y ∧ AgreeAll xs ys'
termination_by structural trees => trees

/-- A member has its like among others. -/
def AgreeMember : String × Tree α → List (String × Tree α) → Prop
  | (key, x), members => ∃ y, (key, y) ∈ members ∧ Agree x y
termination_by structural member => member

def AgreeMembers : List (String × Tree α) → List (String × Tree α) → Prop
  | [], _ => True
  | member :: members, members' => AgreeMember member members' ∧ AgreeMembers members members'
termination_by structural members => members

end

mutual

/-- The tree with its keys sorted, at every depth. -/
def sortKeys : Tree α → Tree α
  | leaf a => leaf a
  | arr xs => arr (sortAll xs)
  | obj members => obj (sortByKey (sortMembers members))
termination_by structural tree => tree

def sortAll : List (Tree α) → List (Tree α)
  | [] => []
  | tree :: trees => sortKeys tree :: sortAll trees
termination_by structural trees => trees

def sortMember : String × Tree α → String × Tree α
  | (key, tree) => (key, sortKeys tree)
termination_by structural member => member

def sortMembers : List (String × Tree α) → List (String × Tree α)
  | [] => []
  | member :: members => sortMember member :: sortMembers members
termination_by structural members => members

end

theorem sortAll_eq_map (trees : List (Tree α)) : sortAll trees = trees.map sortKeys := by
  induction trees with
  | nil => rfl
  | cons tree trees ih => rw [sortAll, ih, List.map_cons]

/-- Sorting makes no list of one leaf. -/
theorem eq_of_sortAll_eq_leaf {trees : List (Tree α)} {a : α} (h : sortAll trees = [leaf a]) :
    trees = [leaf a] := by
  rw [sortAll_eq_map, List.map_eq_singleton_iff] at h
  obtain ⟨tree, rfl, hleaf⟩ := h
  cases tree with
  | leaf b => rw [← hleaf, sortKeys]
  | arr xs => cases hleaf
  | obj members => cases hleaf

theorem sortMembers_eq_map (members : List (String × Tree α)) :
    sortMembers members = members.map fun member => (member.1, sortKeys member.2) := by
  induction members with
  | nil => rfl
  | cons member members ih =>
    obtain ⟨key, tree⟩ := member
    rw [sortMembers, ih]
    rfl

theorem keys_sortMembers (members : List (String × Tree α)) :
    (sortMembers members).map Prod.fst = members.map Prod.fst := by
  rw [sortMembers_eq_map, List.map_map]
  rfl

theorem distinctKeysMembers_iff {members : List (String × Tree α)} :
    DistinctKeysMembers members ↔ ∀ member ∈ members, DistinctKeys member.2 := by
  induction members with
  | nil => simp [DistinctKeysMembers]
  | cons member members ih =>
    obtain ⟨key, tree⟩ := member
    rw [DistinctKeysMembers, ih, List.forall_mem_cons]
    rfl

theorem mem_sortMembers {key : String} {tree : Tree α} {members : List (String × Tree α)} :
    (key, tree) ∈ sortMembers members ↔ ∃ tree', (key, tree') ∈ members ∧ sortKeys tree' = tree := by
  rw [sortMembers_eq_map, List.mem_map]
  constructor
  · rintro ⟨⟨key', tree'⟩, hmem, heq⟩
    cases heq
    exact ⟨tree', hmem, rfl⟩
  · rintro ⟨tree', hmem, rfl⟩
    exact ⟨(key, tree'), hmem, rfl⟩

/-- Members with distinct keys, each of which is found among as many others. -/
theorem sortByKey_eq_iff {members members' : List (String × Tree α)}
    (hnodup : (members.map Prod.fst).Nodup) :
    sortByKey (sortMembers members) = sortByKey (sortMembers members') ↔
      members'.length = members.length ∧ ∀ member ∈ sortMembers members, member ∈ sortMembers members' := by
  have hkeys : ((sortMembers members).map Prod.fst).Nodup := keys_sortMembers members ▸ hnodup
  have hlength : ∀ members : List (String × Tree α), (sortMembers members).length = members.length :=
    fun members => by rw [sortMembers_eq_map, List.length_map]
  constructor
  · intro h
    have hperm := perm_of_sortByKey_eq h
    exact ⟨by rw [← hlength, ← hperm.length_eq, hlength], fun member hmem => hperm.subset hmem⟩
  · rintro ⟨hcount, hsubset⟩
    refine sortByKey_eq_of_perm hkeys ((List.subperm_of_subset (List.Nodup.of_map _ hkeys)
      fun member hmem => hsubset member hmem).perm_of_length_le ?_)
    rw [hlength, hlength, hcount]

mutual

/-- **Trees with distinct keys agree** when they are equal once their keys have been sorted. -/
theorem agree_iff (tree : Tree α) {tree' : Tree α} (h : DistinctKeys tree) (h' : DistinctKeys tree') :
    Agree tree tree' ↔ sortKeys tree = sortKeys tree' := by
  match tree with
  | leaf a =>
    constructor
    · rintro rfl
      rfl
    · cases tree' with
      | leaf b =>
        rintro ⟨⟩
        rfl
      | arr ys => exact fun heq => by cases heq
      | obj members => exact fun heq => by cases heq
  | arr xs =>
    cases tree' with
    | arr ys =>
      rw [Agree, sortKeys, sortKeys, arr.injEq, ← agreeAll_iff xs h h']
      simp only [arr.injEq, exists_eq_left']
    | leaf b => simp [Agree, sortKeys]
    | obj members => simp [Agree, sortKeys]
  | obj members =>
    cases tree' with
    | obj members' =>
      rw [Agree, sortKeys, sortKeys, obj.injEq, sortByKey_eq_iff h.1,
        ← agreeMembers_iff members h.2 (distinctKeysMembers_iff.mp h'.2)]
      simp only [obj.injEq, exists_eq_left']
    | leaf b => simp [Agree, sortKeys]
    | arr ys => simp [Agree, sortKeys]
termination_by structural tree

theorem agreeAll_iff (trees : List (Tree α)) {trees' : List (Tree α)} (h : DistinctKeysAll trees)
    (h' : DistinctKeysAll trees') : AgreeAll trees trees' ↔ sortAll trees = sortAll trees' := by
  match trees, trees' with
  | [], [] => simp [AgreeAll]
  | [], y :: ys => simp [AgreeAll, sortAll]
  | x :: xs, [] => simp [AgreeAll, sortAll]
  | x :: xs, y :: ys =>
    rw [AgreeAll, sortAll, sortAll, List.cons.injEq, ← agree_iff x h.1 h'.1,
      ← agreeAll_iff xs h.2 h'.2]
    constructor
    · rintro ⟨y', ys', heq, hagree⟩
      cases heq
      exact hagree
    · exact fun hagree => ⟨y, ys, rfl, hagree⟩
termination_by structural trees

theorem agreeMember_iff (member : String × Tree α) {members : List (String × Tree α)}
    (h : DistinctKeysMember member) (h' : ∀ member ∈ members, DistinctKeys member.2) :
    AgreeMember member members ↔ sortMember member ∈ sortMembers members := by
  match member with
  | (key, tree) =>
    rw [AgreeMember, sortMember, mem_sortMembers]
    refine exists_congr fun tree' => and_congr_right fun hmem => ?_
    rw [agree_iff tree h (h' _ hmem), eq_comm]
termination_by structural member

theorem agreeMembers_iff (members : List (String × Tree α)) {members' : List (String × Tree α)}
    (h : DistinctKeysMembers members) (h' : ∀ member ∈ members', DistinctKeys member.2) :
    AgreeMembers members members' ↔ ∀ member ∈ sortMembers members, member ∈ sortMembers members' := by
  match members with
  | [] => simp [AgreeMembers, sortMembers]
  | member :: members =>
    rw [AgreeMembers, sortMembers, List.forall_mem_cons, agreeMember_iff member h.1 h',
      agreeMembers_iff members h.2 h']
termination_by structural members

end

/-! ### Texts -/

section Text

variable (leafText : α → List Char) (keyText : String → List Char)

mutual

/-- The text of a tree. -/
def text : Tree α → List Char
  | leaf a => leafText a
  | arr xs => '[' :: join (texts xs) ++ [']']
  | obj members => '{' :: join (memberTexts members) ++ ['}']
termination_by structural tree => tree

def texts : List (Tree α) → List (List Char)
  | [] => []
  | tree :: trees => text tree :: texts trees
termination_by structural trees => trees

def memberText : String × Tree α → List Char
  | (key, tree) => keyText key ++ ':' :: text tree
termination_by structural member => member

def memberTexts : List (String × Tree α) → List (List Char)
  | [] => []
  | member :: members => memberText member :: memberTexts members
termination_by structural members => members

end

end Text

/-- What may follow the text of a tree: nothing, a comma or a closing bracket. -/
def Follows (rest : List Char) : Prop := ∀ c cs, rest = c :: cs → c = ',' ∨ c = ']' ∨ c = '}'

theorem follows_nil : Follows [] := fun _ _ h => by cases h

theorem follows_comma (cs : List Char) : Follows (',' :: cs) := fun _ _ h => by
  cases h
  exact .inl rfl

theorem follows_bracket (cs : List Char) : Follows (']' :: cs) := fun _ _ h => by
  cases h
  exact .inr (.inl rfl)

theorem follows_brace (cs : List Char) : Follows ('}' :: cs) := fun _ _ h => by
  cases h
  exact .inr (.inr rfl)

/-- **Leaves and keys that can be read in one way**: where what may follow begins, a leaf has ended,
and none begins with a bracket or a comma; a key ends at a colon. -/
structure Readable (leafText : α → List Char) (keyText : String → List Char) (IsLeaf : α → Prop)
    (IsKey : String → Prop) : Prop where
  leaf_inj : ∀ {a a' rest rest'}, IsLeaf a → IsLeaf a' → Follows rest → Follows rest' →
    leafText a ++ rest = leafText a' ++ rest' → a = a' ∧ rest = rest'
  leaf_head : ∀ {a c cs}, IsLeaf a → leafText a = c :: cs → c ∉ ['[', ']', '{', '}', ',']
  key_inj : ∀ {key key' rest rest'}, IsKey key → IsKey key' →
    keyText key ++ ':' :: rest = keyText key' ++ ':' :: rest' → key = key' ∧ rest = rest'
  key_head : ∀ {key rest cs}, IsKey key → keyText key ++ ':' :: rest ≠ '}' :: cs

section Read

variable (leafText : α → List Char) (IsLeaf : α → Prop) (IsKey : String → Prop)

mutual

/-- The leaves and keys of the tree can be read, and no array has one leaf without text. -/
def Legible : Tree α → Prop
  | leaf a => IsLeaf a
  | arr xs => (∀ a, xs = [leaf a] → leafText a ≠ []) ∧ LegibleAll xs
  | obj members => LegibleMembers members
termination_by structural tree => tree

def LegibleAll : List (Tree α) → Prop
  | [] => True
  | tree :: trees => Legible tree ∧ LegibleAll trees
termination_by structural trees => trees

def LegibleMember : String × Tree α → Prop
  | (key, tree) => IsKey key ∧ Legible tree
termination_by structural member => member

def LegibleMembers : List (String × Tree α) → Prop
  | [] => True
  | member :: members => LegibleMember member ∧ LegibleMembers members
termination_by structural members => members

end

variable {leafText IsLeaf IsKey} {keyText : String → List Char}

theorem legibleMembers_iff {members : List (String × Tree α)} :
    LegibleMembers leafText IsLeaf IsKey members ↔
      ∀ member ∈ members, IsKey member.1 ∧ Legible leafText IsLeaf IsKey member.2 := by
  induction members with
  | nil => simp [LegibleMembers]
  | cons member members ih =>
    obtain ⟨key, tree⟩ := member
    rw [LegibleMembers, ih, List.forall_mem_cons]
    rfl

mutual

/-- A tree stays legible when its keys are sorted. -/
theorem legible_sortKeys (tree : Tree α) (h : Legible leafText IsLeaf IsKey tree) :
    Legible leafText IsLeaf IsKey (sortKeys tree) := by
  match tree with
  | leaf a => exact h
  | arr xs =>
    exact ⟨fun a hone => h.1 a (eq_of_sortAll_eq_leaf hone), legibleAll_sortAll xs h.2⟩
  | obj members =>
    have hsorted := legibleMembers_iff.mp (legibleMembers_sortMembers members h)
    exact legibleMembers_iff.mpr fun member hmem => hsorted member ((perm_sortByKey _).subset hmem)
termination_by structural tree

theorem legibleAll_sortAll (trees : List (Tree α)) (h : LegibleAll leafText IsLeaf IsKey trees) :
    LegibleAll leafText IsLeaf IsKey (sortAll trees) := by
  match trees with
  | [] => trivial
  | tree :: trees => exact ⟨legible_sortKeys tree h.1, legibleAll_sortAll trees h.2⟩
termination_by structural trees

theorem legibleMember_sortMember (member : String × Tree α)
    (h : LegibleMember leafText IsLeaf IsKey member) :
    LegibleMember leafText IsLeaf IsKey (sortMember member) := by
  match member with
  | (key, tree) => exact ⟨h.1, legible_sortKeys tree h.2⟩
termination_by structural member

theorem legibleMembers_sortMembers (members : List (String × Tree α))
    (h : LegibleMembers leafText IsLeaf IsKey members) :
    LegibleMembers leafText IsLeaf IsKey (sortMembers members) := by
  match members with
  | [] => trivial
  | member :: members =>
    exact ⟨legibleMember_sortMember member h.1, legibleMembers_sortMembers members h.2⟩
termination_by structural members

end

/-- The text of a tree begins with no comma and no closing bracket. -/
theorem head_text (h : Readable leafText keyText IsLeaf IsKey) {tree : Tree α}
    (htree : Legible leafText IsLeaf IsKey tree) {c : Char} {cs : List Char}
    (heq : text leafText keyText tree = c :: cs) : c ∉ [']', '}', ','] := by
  cases tree with
  | leaf a =>
    have hhead := h.leaf_head htree heq
    simp only [List.mem_cons, List.not_mem_nil, or_false, not_or] at hhead ⊢
    exact ⟨hhead.2.1, hhead.2.2.2⟩
  | arr xs =>
    cases heq
    decide
  | obj members =>
    cases heq
    decide

/-- What follows a text among others. -/
def closing (bracket : Char) (rest : List Char) : List (List Char) → List Char
  | [] => bracket :: rest
  | texts => ',' :: (join texts ++ bracket :: rest)

theorem join_cons_append (bracket : Char) (rest text : List Char) (texts : List (List Char)) :
    join (text :: texts) ++ bracket :: rest = text ++ closing bracket rest texts := by
  cases texts with
  | nil => rfl
  | cons text' texts => rw [join_cons_cons, List.append_assoc, closing, List.cons_append]; simp

theorem follows_closing_bracket (rest : List Char) (texts : List (List Char)) :
    Follows (closing ']' rest texts) := by
  cases texts with
  | nil => exact follows_bracket rest
  | cons text texts => exact follows_comma _

theorem follows_closing_brace (rest : List Char) (texts : List (List Char)) :
    Follows (closing '}' rest texts) := by
  cases texts with
  | nil => exact follows_brace rest
  | cons text texts => exact follows_comma _

/-- A leaf is not read as an array or an object. -/
theorem leaf_append_ne (h : Readable leafText keyText IsLeaf IsKey) {a : α} (ha : IsLeaf a)
    {rest : List Char} (hrest : Follows rest) {c : Char} (hc : c = '[' ∨ c = '{') (cs : List Char) :
    leafText a ++ rest ≠ c :: cs := by
  intro heq
  cases htext : leafText a with
  | nil =>
    rw [htext] at heq
    obtain rfl | rfl | rfl := hrest c cs heq <;> simp at hc
  | cons c' cs' =>
    rw [htext] at heq
    obtain ⟨rfl, -⟩ := List.cons.inj heq
    have hhead := h.leaf_head ha htext
    obtain rfl | rfl := hc <;> simp at hhead

/-- An array that begins with a tree is not read as the empty array. -/
theorem bracket_ne (h : Readable leafText keyText IsLeaf IsKey) {tree : Tree α} {trees : List (Tree α)}
    (htree : Legible leafText IsLeaf IsKey tree)
    (hne : ∀ a, tree :: trees = [leaf a] → leafText a ≠ []) (rest rest' : List Char) :
    ']' :: rest ≠ join (texts leafText keyText (tree :: trees)) ++ ']' :: rest' := by
  intro heq
  rw [texts, join_cons_append] at heq
  cases htext : text leafText keyText tree with
  | cons c cs =>
    rw [htext] at heq
    obtain ⟨rfl, -⟩ := List.cons.inj heq
    exact absurd (head_text h htree htext) (by decide)
  | nil =>
    rw [htext, List.nil_append] at heq
    cases trees with
    | cons tree' trees => cases heq
    | nil =>
      cases tree with
      | leaf a => exact hne a rfl htext
      | arr xs => cases htext
      | obj members => cases htext

mutual

/-- **Texts can be read in one way**, whatever follows them. -/
theorem text_append_inj (h : Readable leafText keyText IsLeaf IsKey) (tree : Tree α) {tree' : Tree α}
    (htree : Legible leafText IsLeaf IsKey tree) (htree' : Legible leafText IsLeaf IsKey tree')
    {rest rest' : List Char} (hrest : Follows rest) (hrest' : Follows rest')
    (heq : text leafText keyText tree ++ rest = text leafText keyText tree' ++ rest') :
    tree = tree' ∧ rest = rest' := by
  match tree with
  | leaf a =>
    cases tree' with
    | leaf a' =>
      obtain ⟨rfl, hsame⟩ := h.leaf_inj htree htree' hrest hrest' heq
      exact ⟨rfl, hsame⟩
    | arr ys => exact absurd heq (leaf_append_ne h htree hrest (.inl rfl) _)
    | obj members => exact absurd heq (leaf_append_ne h htree hrest (.inr rfl) _)
  | arr xs =>
    cases tree' with
    | leaf a' => exact absurd heq.symm (leaf_append_ne h htree' hrest' (.inl rfl) _)
    | obj members => cases heq
    | arr ys =>
      simp only [text, List.cons_append, List.append_assoc, List.nil_append, List.cons.injEq,
        true_and] at heq
      match xs, ys with
      | [], [] => exact ⟨rfl, (List.cons.inj heq).2⟩
      | [], y :: ys => exact absurd heq (bracket_ne h htree'.2.1 htree'.1 _ _)
      | x :: xs, [] => exact absurd heq.symm (bracket_ne h htree.2.1 htree.1 _ _)
      | x :: xs, y :: ys =>
        obtain ⟨hsame, hrest⟩ := texts_append_inj h (x :: xs) (List.cons_ne_nil x xs)
          (List.cons_ne_nil y ys) htree.2 htree'.2 heq
        exact ⟨congrArg arr hsame, hrest⟩
  | obj members =>
    cases tree' with
    | leaf a' => exact absurd heq.symm (leaf_append_ne h htree' hrest' (.inr rfl) _)
    | arr ys => cases heq
    | obj members' =>
      simp only [text, List.cons_append, List.append_assoc, List.nil_append, List.cons.injEq,
        true_and] at heq
      obtain ⟨hsame, hrest⟩ := memberTexts_append_inj h members htree htree' heq
      exact ⟨congrArg obj hsame, hrest⟩
termination_by structural tree

theorem texts_append_inj (h : Readable leafText keyText IsLeaf IsKey) (trees : List (Tree α))
    (hne : trees ≠ []) {trees' : List (Tree α)} (hne' : trees' ≠ [])
    (htrees : LegibleAll leafText IsLeaf IsKey trees)
    (htrees' : LegibleAll leafText IsLeaf IsKey trees') {rest rest' : List Char}
    (heq : join (texts leafText keyText trees) ++ ']' :: rest =
      join (texts leafText keyText trees') ++ ']' :: rest') :
    trees = trees' ∧ rest = rest' := by
  match trees, trees' with
  | [], _ => exact absurd rfl hne
  | _ :: _, [] => exact absurd rfl hne'
  | x :: xs, y :: ys =>
    rw [texts, texts, join_cons_append, join_cons_append] at heq
    obtain ⟨rfl, hclosing⟩ := text_append_inj h x htrees.1 htrees'.1 (follows_closing_bracket _ _)
      (follows_closing_bracket _ _) heq
    match xs, ys with
    | [], [] => exact ⟨rfl, (List.cons.inj hclosing).2⟩
    | [], _ :: _ => cases hclosing
    | _ :: _, [] => cases hclosing
    | x' :: xs, y' :: ys =>
      obtain ⟨hsame, hrest⟩ := texts_append_inj h (x' :: xs) (List.cons_ne_nil x' xs)
        (List.cons_ne_nil y' ys) htrees.2 htrees'.2 (List.cons.inj hclosing).2
      exact ⟨congrArg (x :: ·) hsame, hrest⟩
termination_by structural trees

theorem memberText_append_inj (h : Readable leafText keyText IsLeaf IsKey) (member : String × Tree α)
    {member' : String × Tree α} (hmember : LegibleMember leafText IsLeaf IsKey member)
    (hmember' : LegibleMember leafText IsLeaf IsKey member') {rest rest' : List Char}
    (hrest : Follows rest) (hrest' : Follows rest')
    (heq : memberText leafText keyText member ++ rest = memberText leafText keyText member' ++ rest') :
    member = member' ∧ rest = rest' := by
  match member, member' with
  | (key, tree), (key', tree') =>
    simp only [memberText, List.append_assoc, List.cons_append] at heq
    obtain ⟨rfl, hvalue⟩ := h.key_inj hmember.1 hmember'.1 heq
    obtain ⟨rfl, hsame⟩ := text_append_inj h tree hmember.2 hmember'.2 hrest hrest' hvalue
    exact ⟨rfl, hsame⟩
termination_by structural member

theorem memberTexts_append_inj (h : Readable leafText keyText IsLeaf IsKey)
    (members : List (String × Tree α)) {members' : List (String × Tree α)}
    (hmembers : LegibleMembers leafText IsLeaf IsKey members)
    (hmembers' : LegibleMembers leafText IsLeaf IsKey members') {rest rest' : List Char}
    (heq : join (memberTexts leafText keyText members) ++ '}' :: rest =
      join (memberTexts leafText keyText members') ++ '}' :: rest') :
    members = members' ∧ rest = rest' := by
  have hbrace : ∀ {member : String × Tree α} {members rest cs},
      LegibleMember leafText IsLeaf IsKey member →
      join (memberTexts leafText keyText (member :: members)) ++ '}' :: rest ≠ '}' :: cs := by
    intro member members rest cs hmember
    obtain ⟨key, tree⟩ := member
    rw [memberTexts, join_cons_append, memberText, List.append_assoc, List.cons_append]
    exact h.key_head hmember.1
  match members, members' with
  | [], [] => exact ⟨rfl, (List.cons.inj heq).2⟩
  | [], _ :: _ => exact absurd heq.symm (hbrace hmembers'.1)
  | _ :: _, [] => exact absurd heq (hbrace hmembers.1)
  | m :: ms, n :: ns =>
    rw [memberTexts, memberTexts, join_cons_append, join_cons_append] at heq
    obtain ⟨rfl, hclosing⟩ := memberText_append_inj h m hmembers.1 hmembers'.1
      (follows_closing_brace _ _) (follows_closing_brace _ _) heq
    match ms, ns with
    | [], [] => exact ⟨rfl, (List.cons.inj hclosing).2⟩
    | [], _ :: _ => cases hclosing
    | _ :: _, [] => cases hclosing
    | m' :: ms, n' :: ns =>
      obtain ⟨hsame, hrest⟩ := memberTexts_append_inj h (m' :: ms) hmembers.2 hmembers'.2
        (List.cons.inj hclosing).2
      exact ⟨congrArg (m :: ·) hsame, hrest⟩
termination_by structural members

end

end Read

end Tree

end Json
