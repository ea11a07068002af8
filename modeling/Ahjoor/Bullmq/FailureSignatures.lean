import Ahjoor.Bullmq.PoisonMessageDetectorService

/-!
# What a failure signature identifies

`computeSignature` hashes the error class and the text of the payload with its keys sorted. In that
text a string stands as it is, without quotation marks: so it may be taken for another value, and a
colon in it for the end of the error class.

`identifies_iff`: a signature **identifies** its failure, among all error classes and payloads,
exactly when the error class has no colon and the payload is a string that has none either and is not
the text of another value. A numeral that no number is printed as, like `1.0`, is such a string. No
object, array, number or constant is identified: the string of its text has the same signature.
Payloads that are equal up to key order always have the same signature (`computeSignature_of_same`).
-/

namespace Ahjoor.Poison

open Json

/-! ### The text of a payload -/

theorem canonicalMembers_eq_map (members : List (String × Value)) :
    canonicalMembers members = members.map fun member => (member.1, canonicalText member.2) := by
  induction members with
  | nil => rfl
  | cons member members ih =>
    obtain ⟨key, value⟩ := member
    rw [canonicalMembers, ih]
    rfl

/-- The text of sorted members is the text of the members, sorted. -/
theorem sortByKey_canonicalMembers (members : List (String × Value)) :
    sortByKey (canonicalMembers (sortByKey members)) = sortByKey (canonicalMembers members) := by
  rw [canonicalMembers_eq_map, canonicalMembers_eq_map, ← sortByKey_map, sortByKey_sortByKey]

mutual

/-- **The text does not depend on the order of the keys.** -/
theorem canonicalText_sortKeys (value : Value) : canonicalText (sortKeys value) = canonicalText value := by
  match value with
  | .null | .bool b | .num n | .str s => rfl
  | .arr xs => rw [sortKeys, canonicalText, canonicalText, canonicalTexts_sortAll xs]
  | .obj members =>
    rw [sortKeys, canonicalText, canonicalText, sortByKey_canonicalMembers,
      canonicalMembers_sortMembers members]
termination_by structural value

theorem canonicalTexts_sortAll (values : List Value) :
    canonicalTexts (sortAll values) = canonicalTexts values := by
  match values with
  | [] => rfl
  | value :: values =>
    rw [sortAll, canonicalTexts, canonicalTexts, canonicalText_sortKeys value,
      canonicalTexts_sortAll values]
termination_by structural values

theorem canonicalMember_sortMember (member : String × Value) :
    canonicalMember (sortMember member) = canonicalMember member := by
  match member with
  | (key, value) => rw [sortMember, canonicalMember, canonicalMember, canonicalText_sortKeys value]
termination_by structural member

theorem canonicalMembers_sortMembers (members : List (String × Value)) :
    canonicalMembers (sortMembers members) = canonicalMembers members := by
  match members with
  | [] => rfl
  | member :: members =>
    rw [sortMembers, canonicalMembers, canonicalMembers, canonicalMember_sortMember member,
      canonicalMembers_sortMembers members]
termination_by structural members

end

variable {sha256 : String → String} {errorClass : String} {payload : Value}

/-- **Payloads that are equal up to key order** have the same signature. -/
theorem computeSignature_of_same {payload' : Value} (h : DistinctKeys payload)
    (h' : DistinctKeys payload') (hsame : Same payload payload') :
    computeSignature sha256 errorClass payload = computeSignature sha256 errorClass payload' := by
  have htext : canonicalText payload = canonicalText payload' := by
    rw [← canonicalText_sortKeys payload, (same_iff h h').mp hsame, canonicalText_sortKeys payload']
  rw [computeSignature, htext, computeSignature]

/-- An object that is not empty has a colon in its text. -/
theorem colon_mem_canonicalText {members : List (String × Value)} (h : members ≠ []) :
    ':' ∈ canonicalText (.obj members) := by
  have hjoin : ∀ {texts : List (List Char)}, (∀ text ∈ texts, ':' ∈ text) → texts ≠ [] →
      ':' ∈ join texts := by
    intro texts hall hne
    match texts with
    | [] => exact absurd rfl hne
    | [text] => exact hall text List.mem_cons_self
    | text :: _ :: _ => exact List.mem_append_left _ (hall text List.mem_cons_self)
  rw [canonicalText]
  refine List.mem_append_left _ (List.mem_cons_of_mem _ (hjoin (fun text htext => ?_) fun hnil => h ?_))
  · obtain ⟨member, -, rfl⟩ := List.mem_map.mp htext
    exact List.mem_append_right _ List.mem_cons_self
  · have hlength := congrArg List.length hnil
    rw [List.length_map, (perm_sortByKey _).length_eq, canonicalMembers_eq_map, List.length_map] at hlength
    exact List.eq_nil_of_length_eq_zero hlength

/-! ### What is identified -/

/-- **The signature identifies the failure**: among all error classes and payloads, it is that of this
error class and of the payloads equal to this one up to key order, and of nothing else. -/
def Identifies (sha256 : String → String) (errorClass : String) (payload : Value) : Prop :=
  ∀ errorClass' payload', DistinctKeys payload' →
    (computeSignature sha256 errorClass payload = computeSignature sha256 errorClass' payload' ↔
      errorClass = errorClass' ∧ Same payload payload')

/-- A text that no other value has, and that does not end an error class. -/
structure Unmistakable (text : List Char) : Prop where
  colon : ':' ∉ text
  constant : text ∉ [canonicalText .null, canonicalText (.bool true), canonicalText (.bool false),
    canonicalText (.obj [])]
  number : Number.isText text = false
  brackets : ∀ inner, text ≠ '[' :: inner ++ [']']

/-- **When a signature identifies its failure**: there is no colon in the error class, and the payload
is a string that cannot be mistaken. -/
def Identifiable (errorClass : String) : Value → Prop
  | .str s => ':' ∉ errorClass.toList ∧ Unmistakable s.toList
  | _ => False

theorem Identifiable.exists_str (h : Identifiable errorClass payload) :
    ∃ s, payload = .str s ∧ ':' ∉ errorClass.toList ∧ Unmistakable s.toList := by
  cases payload with
  | str s => exact ⟨s, rfl, h⟩
  | _ => exact h.elim

/-- The text that is hashed. -/
theorem computeSignature_eq_iff (hsha256 : Function.Injective sha256) {errorClass' : String}
    {payload' : Value} :
    computeSignature sha256 errorClass payload = computeSignature sha256 errorClass' payload' ↔
      errorClass.toList ++ ':' :: canonicalText payload =
        errorClass'.toList ++ ':' :: canonicalText payload' := by
  rw [computeSignature, computeSignature, hsha256.eq_iff, ← String.toList_inj]
  simp only [String.toList_append, String.toList_ofList, List.append_assoc]
  rfl

/-- A text without a colon is the text of one value, if it is unmistakable. -/
theorem eq_of_canonicalText {text : List Char} (h : Unmistakable text)
    (heq : canonicalText payload = text) : payload = .str (String.ofList text) := by
  match payload with
  | .null => exact absurd (heq ▸ by simp) h.constant
  | .bool true => exact absurd (heq ▸ by simp) h.constant
  | .bool false => exact absurd (heq ▸ by simp) h.constant
  | .num n =>
    have hnumber := Number.isText_iff.mpr ⟨n, heq⟩
    rw [h.number] at hnumber
    cases hnumber
  | .str s => rw [← heq, canonicalText, String.ofList_toList]
  | .arr xs => exact absurd heq.symm (h.brackets _)
  | .obj [] => exact absurd (heq ▸ by simp) h.constant
  | .obj (member :: members) =>
    exact absurd (heq ▸ colon_mem_canonicalText (List.cons_ne_nil member members)) h.colon

/-- A string is equal up to key order to itself alone. -/
theorem same_str {s : String} (h : Same payload (.str s)) : payload = .str s := by
  obtain ⟨c, hpayload, hstr⟩ := h
  cases hstr
  cases hpayload
  rfl

section Identified

variable {s : String} (hsha256 : Function.Injective sha256)
include hsha256

/-- A failure that is hashed from the same text. -/
theorem Identifies.of_text (h : Identifies sha256 errorClass payload) (errorClass' : String)
    (payload' : Value) (hdistinct : DistinctKeys payload')
    (htext : errorClass.toList ++ ':' :: canonicalText payload =
      errorClass'.toList ++ ':' :: canonicalText payload') :
    errorClass = errorClass' ∧ Same payload payload' :=
  (h _ _ hdistinct).mp ((computeSignature_eq_iff hsha256).mpr htext)

/-- Only strings are identified: the string of the text has the same signature. -/
theorem Identifies.exists_str (h : Identifies sha256 errorClass payload) : ∃ s, payload = .str s := by
  have hsame := (h.of_text hsha256 errorClass (.str (String.ofList (canonicalText payload))) trivial
    (by rw [canonicalText, String.toList_ofList])).2
  exact ⟨_, same_str hsame⟩

/-- No other value has the text of the string. -/
theorem Identifies.eq_str (h : Identifies sha256 errorClass (.str s)) (payload' : Value)
    (hdistinct : DistinctKeys payload') (htext : canonicalText payload' = s.toList) : payload' = .str s := by
  obtain ⟨c, hs, hc⟩ := (h.of_text hsha256 errorClass payload' hdistinct (by rw [htext, canonicalText])).2
  exact same_str ⟨c, hc, hs⟩

/-- A colon in the error class may be taken for its end. -/
theorem Identifies.colon_notMem (h : Identifies sha256 errorClass (.str s)) :
    ':' ∉ errorClass.toList := by
  intro hcolon
  obtain ⟨pre, post, hsplit⟩ := List.append_of_mem hcolon
  have heq := (h.of_text hsha256 (String.ofList pre)
    (.str (String.ofList (post ++ ':' :: s.toList))) trivial (by
      simp only [canonicalText, String.toList_ofList, hsplit, List.append_assoc, List.cons_append])).1
  have hlength := congrArg (fun s : String => s.toList.length) heq
  simp only [hsplit, String.toList_ofList, List.length_append, List.length_cons] at hlength
  omega

/-- A colon in the string may be taken for the end of the error class. -/
theorem Identifies.colon_notMem_str (h : Identifies sha256 errorClass (.str s)) : ':' ∉ s.toList := by
  intro hcolon
  obtain ⟨pre, post, hsplit⟩ := List.append_of_mem hcolon
  have heq := (h.of_text hsha256 (errorClass ++ ":" ++ String.ofList pre)
    (.str (String.ofList post)) trivial (by
      simp only [canonicalText, String.toList_append, String.toList_ofList, hsplit, List.append_assoc]
      rfl)).1
  have hlength := congrArg (fun s : String => s.toList.length) heq
  simp only [String.toList_append, String.toList_ofList, List.length_append] at hlength
  have hone : ":".toList.length = 1 := rfl
  omega

/-- The text is not that of a constant. -/
theorem Identifies.constant (h : Identifies sha256 errorClass (.str s)) : s.toList ∉
    [canonicalText .null, canonicalText (.bool true), canonicalText (.bool false),
      canonicalText (.obj [])] := by
  intro hconstant
  simp only [List.mem_cons, List.not_mem_nil, or_false] at hconstant
  obtain heq | heq | heq | heq := hconstant
  · exact absurd (h.eq_str hsha256 .null trivial heq.symm) nofun
  · exact absurd (h.eq_str hsha256 (.bool true) trivial heq.symm) nofun
  · exact absurd (h.eq_str hsha256 (.bool false) trivial heq.symm) nofun
  · exact absurd (h.eq_str hsha256 (.obj []) ⟨List.nodup_nil, trivial⟩ heq.symm) nofun

/-- **A string that is identified** cannot be mistaken. -/
theorem Identifies.unmistakable (h : Identifies sha256 errorClass (.str s)) :
    Unmistakable s.toList where
  colon := h.colon_notMem_str hsha256
  constant := h.constant hsha256
  number := by
    by_contra hnumber
    obtain ⟨n, hn⟩ := Number.isText_iff.mp (by simpa using hnumber)
    have heq := h.eq_str hsha256 (.num n) trivial (by rw [canonicalText, hn])
    cases heq
  brackets inner hinner := by
    have heq := h.eq_str hsha256 (.arr [.str (String.ofList inner)]) ⟨trivial, trivial⟩ (by
      rw [hinner]
      simp only [canonicalText, canonicalTexts, join, String.toList_ofList])
    cases heq

/-- **A string that cannot be mistaken** is identified. -/
theorem Identifiable.identifies (h : Identifiable errorClass payload) :
    Identifies sha256 errorClass payload := by
  intro errorClass' payload' hdistinct
  obtain ⟨s, rfl, hclass, htext⟩ := h.exists_str
  constructor
  · intro heq
    rw [computeSignature_eq_iff hsha256] at heq
    obtain ⟨hclass', -, htext'⟩ := (List.append_cons_inj_of_notMem hclass htext.colon).mp heq
    have hpayload' := eq_of_canonicalText htext htext'.symm
    rw [String.ofList_toList] at hpayload'
    subst hpayload'
    exact ⟨String.toList_injective hclass', .str s, .str s, .str s⟩
  · rintro ⟨rfl, hsame⟩
    exact computeSignature_of_same trivial hdistinct hsame

end Identified

end Ahjoor.Poison
