import Ahjoor.Json.Text
import Mathlib.Tactic.Cases

/-!
# Reading JSON texts

`parse` reads a text that `print` has printed back to the value (`parse_stringify`); so printing is
injective, and a printed value is read off the front of a longer text.
-/

namespace Json

/-! ### Strings -/

/-- The value of a hexadecimal digit. -/
def hexValue (c : Char) : Option ℕ :=
  if c.isDigit then some (c.toNat - 48)
  else if 'a' ≤ c ∧ c ≤ 'f' then some (c.toNat - 87)
  else if 'A' ≤ c ∧ c ≤ 'F' then some (c.toNat - 55)
  else none

/-- The value of four hexadecimal digits, and what follows them. -/
def hex4 : List Char → Option (ℕ × List Char)
  | a :: b :: c :: d :: cs => do
      let a ← hexValue a
      let b ← hexValue b
      let c ← hexValue c
      let d ← hexValue d
      some (((a * 16 + b) * 16 + c) * 16 + d, cs)
  | _ => none

/-- The character of a high surrogate and the low one that is escaped after it. -/
def surrogates (high : ℕ) : List Char → Option (Char × List Char)
  | '\\' :: 'u' :: cs => do
      let (low, cs) ← hex4 cs
      if high < 0xDC00 ∧ 0xDC00 ≤ low ∧ low ≤ 0xDFFF then
        some (Char.ofNat (0x10000 + (high - 0xD800) * 0x400 + (low - 0xDC00)), cs)
      else none
  | _ => none

/-- The character after `\u`: one code unit, or a pair of surrogates. A surrogate on its own is no
character, and is read as the replacement character. -/
def unicode (cs : List Char) : Option (Char × List Char) := do
  let (high, cs) ← hex4 cs
  if high < 0xD800 ∨ 0xDFFF < high then some (Char.ofNat high, cs)
  else some ((surrogates high cs).getD (Char.ofNat 0xFFFD, cs))

/-- The character that a letter escapes. -/
def unescape (letter : Char) : Option Char :=
  if letter = '/' then some '/' else (escapes.find? (·.2 = letter)).map (·.1)

/-- The character after a backslash. -/
def escaped : List Char → Option (Char × List Char)
  | [] => none
  | letter :: cs => if letter = 'u' then unicode cs else (unescape letter).map fun c => (c, cs)

/-- A string up to its closing quotation mark, and what follows it. -/
def parseString : ℕ → List Char → Option (List Char × List Char)
  | 0, _ => none
  | _ + 1, [] => none
  | fuel + 1, c :: cs =>
      if c = '"' then some ([], cs)
      else if c = '\\' then do
        let (c, cs) ← escaped cs
        let (rest, cs) ← parseString fuel cs
        some (c :: rest, cs)
      else if c.toNat < 32 then none
      else do
        let (rest, cs) ← parseString fuel cs
        some (c :: rest, cs)

/-! ### Values -/

/-- White space between tokens. -/
def isSpace (c : Char) : Bool := c = ' ' || c = '\t' || c = '\n' || c = '\r'

/-- Without leading white space. -/
def skipSpace (cs : List Char) : List Char := cs.dropWhile isSpace

/-- What follows `word` at the front. -/
def parseWord (word cs : List Char) (value : Value) : Option (Value × List Char) :=
  if word.isPrefixOf cs then some (value, cs.drop word.length) else none

/-- A number at the front, unless it is too large for a double. -/
def parseNumber (cs : List Char) : Option (Value × List Char) :=
  if isNumeral (cs.takeWhile isNumberChar) then
    (Number.read (cs.takeWhile isNumberChar)).map fun n => (.num n, cs.dropWhile isNumberChar)
  else none

mutual

/-- A value at the front, and what follows it. -/
def parseValue : ℕ → List Char → Option (Value × List Char)
  | 0, _ => none
  | fuel + 1, cs =>
      match skipSpace cs with
      | [] => none
      | c :: cs =>
          if c = 'n' then parseWord ['u', 'l', 'l'] cs .null
          else if c = 't' then parseWord ['r', 'u', 'e'] cs (.bool true)
          else if c = 'f' then parseWord ['a', 'l', 's', 'e'] cs (.bool false)
          else if c = '"' then (parseString fuel cs).map fun (s, cs) => (.str (String.ofList s), cs)
          else if c = '[' then
            match skipSpace cs with
            | ']' :: cs => some (.arr [], cs)
            | cs => (parseAll fuel cs).map fun (values, cs) => (.arr values, cs)
          else if c = '{' then
            match skipSpace cs with
            | '}' :: cs => some (.obj [], cs)
            | cs => (parseMembers fuel cs).map fun (members, cs) => (.obj members, cs)
          else parseNumber (c :: cs)

/-- Values between commas, up to the closing bracket. -/
def parseAll : ℕ → List Char → Option (List Value × List Char)
  | 0, _ => none
  | fuel + 1, cs => do
      let (value, cs) ← parseValue fuel cs
      match skipSpace cs with
      | ',' :: cs => do
          let (values, cs) ← parseAll fuel cs
          some (value :: values, cs)
      | ']' :: cs => some ([value], cs)
      | _ => none

/-- A key with its value. -/
def parseMember : ℕ → List Char → Option ((String × Value) × List Char)
  | 0, _ => none
  | fuel + 1, cs =>
      match skipSpace cs with
      | '"' :: cs => do
          let (key, cs) ← parseString fuel cs
          match skipSpace cs with
          | ':' :: cs => (parseValue fuel cs).map fun (value, cs) => ((String.ofList key, value), cs)
          | _ => none
      | _ => none

/-- Members between commas, up to the closing brace. -/
def parseMembers : ℕ → List Char → Option (List (String × Value) × List Char)
  | 0, _ => none
  | fuel + 1, cs => do
      let (member, cs) ← parseMember fuel cs
      match skipSpace cs with
      | ',' :: cs => do
          let (members, cs) ← parseMembers fuel cs
          some (member :: members, cs)
      | '}' :: cs => some ([member], cs)
      | _ => none

end

/-- A text that is one value, as it is written: a key that is written twice is there twice. -/
def read (cs : List Char) : Option Value :=
  match parseValue cs.length cs with
  | some (value, rest) => if skipSpace rest = [] then some value else none
  | none => none

/-! ### What was printed is read back -/

section Strings

theorem hexValue_digitChar : ∀ d < 16, hexValue (Nat.digitChar d) = some d := by decide

theorem unescape_of_mem : ∀ p ∈ escapes, unescape p.2 = some p.1 ∧ p.2 ≠ 'u' := by decide

/-- A control character is read back from its escape. -/
theorem unicode_control {n : ℕ} (hn : n < 32) (cs : List Char) :
    unicode ('0' :: '0' :: Nat.digitChar (n / 16) :: Nat.digitChar (n % 16) :: cs) =
      some (Char.ofNat n, cs) := by
  have hzero : hexValue '0' = some 0 := rfl
  have hhigh := hexValue_digitChar (n / 16) (by omega)
  have hlow := hexValue_digitChar (n % 16) (by omega)
  have hvalue : ((0 * 16 + 0) * 16 + n / 16) * 16 + n % 16 = n := by omega
  have hdigits : hex4 ('0' :: '0' :: Nat.digitChar (n / 16) :: Nat.digitChar (n % 16) :: cs) =
      some (n, cs) := by
    simp only [hex4, hzero, hhigh, hlow, Option.bind_eq_bind, Option.bind_some, hvalue]
  have hscalar : n < 0xD800 ∨ 0xDFFF < n := .inl (by omega)
  rw [unicode, hdigits]
  exact if_pos hscalar

/-- A printed character is read back. -/
theorem parseString_quoteChar (fuel : ℕ) (c : Char) (cs : List Char) :
    parseString (fuel + 1) (quoteChar c ++ cs) =
      (parseString fuel cs).map fun p => (c :: p.1, p.2) := by
  have hbackslash : ('\\' : Char) ≠ '"' := by decide
  unfold quoteChar
  split
  next c' letter hfound =>
    have hmem := List.mem_of_find?_eq_some hfound
    have hsame := List.find?_some hfound
    obtain rfl : c' = c := of_decide_eq_true hsame
    obtain ⟨hletter, hnot⟩ := unescape_of_mem _ hmem
    change parseString (fuel + 1) ('\\' :: letter :: cs) = _
    have hescaped : escaped (letter :: cs) = some (c', cs) := by
      rw [escaped, if_neg hnot, hletter]
      rfl
    rw [parseString, if_neg hbackslash, if_pos rfl, hescaped, Option.bind_eq_bind, Option.bind_some]
    dsimp only
    cases parseString fuel cs <;> rfl
  next hnone =>
    have hplain : ∀ p ∈ escapes, p.1 ≠ c := fun p hp => by
      simpa using List.find?_eq_none.mp hnone p hp
    have hquote : c ≠ '"' := fun h => hplain ('"', '"') (by decide) h.symm
    have hslash : c ≠ '\\' := fun h => hplain ('\\', '\\') (by decide) h.symm
    split
    next hcontrol =>
      have hescaped : escaped ('u' :: '0' :: '0' :: Nat.digitChar (c.toNat / 16) ::
          Nat.digitChar (c.toNat % 16) :: cs) = some (c, cs) := by
        rw [escaped, if_pos rfl, unicode_control hcontrol, Char.ofNat_toNat]
      change parseString (fuel + 1) ('\\' :: 'u' :: '0' :: '0' :: _ :: _ :: cs) = _
      rw [parseString, if_neg hbackslash, if_pos rfl, hescaped, Option.bind_eq_bind, Option.bind_some]
      dsimp only
      cases parseString fuel cs <;> rfl
    next hprintable =>
      change parseString (fuel + 1) (c :: cs) = _
      rw [parseString, if_neg hquote, if_neg hslash, if_neg hprintable]
      cases parseString fuel cs <;> rfl

/-- **A printed string** is read back. -/
theorem parseString_quote {fuel : ℕ} {cs : List Char} (hfuel : cs.length < fuel) (rest : List Char) :
    parseString fuel (cs.flatMap quoteChar ++ '"' :: rest) = some (cs, rest) := by
  induction cs generalizing fuel with
  | nil =>
    obtain ⟨fuel, rfl⟩ := Nat.exists_eq_succ_of_ne_zero (Nat.ne_of_gt hfuel)
    rfl
  | cons c cs ih =>
    obtain ⟨fuel, rfl⟩ := Nat.exists_eq_succ_of_ne_zero (Nat.ne_of_gt (Nat.lt_of_le_of_lt (Nat.zero_le _) hfuel))
    rw [List.flatMap_cons, List.append_assoc, parseString_quoteChar, ih (Nat.lt_of_succ_lt_succ hfuel)]
    rfl

theorem length_le_flatMap_quoteChar (cs : List Char) : cs.length ≤ (cs.flatMap quoteChar).length := by
  have hpos : ∀ c, 1 ≤ (quoteChar c).length := by
    intro c
    unfold quoteChar
    split
    · exact Nat.le_add_left 1 1
    · split <;> exact Nat.le_add_left 1 _
  induction cs with
  | nil => exact Nat.le_refl 0
  | cons c cs ih =>
    rw [List.flatMap_cons, List.length_append, List.length_cons]
    have hc := hpos c
    omega

end Strings

/-! ### What is read is shorter -/

section Lengths

theorem length_of_hex4 {cs cs' : List Char} {n : ℕ} (h : hex4 cs = some (n, cs')) :
    cs'.length < cs.length := by
  unfold hex4 at h
  split at h
  next a b c d rest =>
    simp only [Option.bind_eq_bind, Option.bind_eq_some_iff] at h
    obtain ⟨_, -, _, -, _, -, _, -, h⟩ := h
    cases h
    simp only [List.length_cons]
    omega
  next => cases h

theorem length_of_surrogates {high : ℕ} {cs cs' : List Char} {c : Char}
    (h : surrogates high cs = some (c, cs')) : cs'.length < cs.length := by
  unfold surrogates at h
  split at h
  next rest =>
    obtain ⟨⟨low, after⟩, hlow, h⟩ := Option.bind_eq_some_iff.mp h
    have hlength := length_of_hex4 hlow
    dsimp only at h
    split at h
    · obtain ⟨-, rfl⟩ := Prod.mk.inj (Option.some.inj h)
      simp only [List.length_cons]
      omega
    · cases h
  next => cases h

theorem length_of_unicode {cs cs' : List Char} {c : Char} (h : unicode cs = some (c, cs')) :
    cs'.length < cs.length := by
  obtain ⟨⟨high, after⟩, hhigh, h⟩ := Option.bind_eq_some_iff.mp h
  have hlength := length_of_hex4 hhigh
  dsimp only at h
  split at h
  · cases h
    exact hlength
  · cases hpair : surrogates high after with
    | none =>
      rw [hpair] at h
      cases h
      exact hlength
    | some pair =>
      obtain ⟨c', after'⟩ := pair
      rw [hpair] at h
      cases h
      exact (length_of_surrogates hpair).trans hlength

theorem length_of_escaped {cs cs' : List Char} {c : Char} (h : escaped cs = some (c, cs')) :
    cs'.length < cs.length := by
  cases cs with
  | nil => cases h
  | cons letter cs =>
    rw [escaped] at h
    split at h
    · exact (length_of_unicode h).trans (Nat.lt_succ_self _)
    · obtain ⟨c', -, heq⟩ := Option.map_eq_some_iff.mp h
      cases heq
      exact Nat.lt_succ_self _

/-- **A string** is read from a longer text. -/
theorem length_of_parseString {fuel : ℕ} {cs s rest : List Char}
    (h : parseString fuel cs = some (s, rest)) : s.length + rest.length < cs.length := by
  induction fuel generalizing cs s with
  | zero => cases h
  | succ fuel ih =>
    cases cs with
    | nil => cases h
    | cons c cs =>
      rw [parseString] at h
      split at h
      next =>
        cases h
        exact Nat.lt_of_le_of_lt (Nat.zero_add _).le (Nat.lt_succ_self _)
      next =>
        split at h
        next =>
          obtain ⟨⟨c', cs'⟩, hescaped, h⟩ := Option.bind_eq_some_iff.mp h
          obtain ⟨⟨s', rest'⟩, hstring, h⟩ := Option.bind_eq_some_iff.mp h
          cases h
          have hlength := ih hstring
          have hshorter := length_of_escaped hescaped
          simp only [List.length_cons]
          omega
        next =>
          split at h
          · cases h
          · obtain ⟨⟨s', rest'⟩, hstring, h⟩ := Option.bind_eq_some_iff.mp h
            cases h
            have hlength := ih hstring
            simp only [List.length_cons]
            omega

theorem value_of_parseWord {word cs rest : List Char} {value value' : Value}
    (h : parseWord word cs value = some (value', rest)) : value' = value := by
  unfold parseWord at h
  split at h
  · cases h
    rfl
  · cases h

theorem value_of_parseNumber {cs rest : List Char} {value : Value}
    (h : parseNumber cs = some (value, rest)) : ∃ n, value = .num n := by
  unfold parseNumber at h
  split at h
  · obtain ⟨n, -, heq⟩ := Option.map_eq_some_iff.mp h
    cases heq
    exact ⟨n, rfl⟩
  · cases h

/-- A string that is a value is read between quotation marks. -/
theorem length_of_parseValue_str {fuel : ℕ} {cs rest : List Char} {s : String}
    (h : parseValue fuel cs = some (.str s, rest)) : s.toList.length < cs.length := by
  cases fuel with
  | zero => cases h
  | succ fuel =>
  rw [parseValue] at h
  split at h
  next => cases h
  next c cs' hskip =>
  have hlength : cs'.length < cs.length := by
    have hle := (List.dropWhile_sublist (l := cs) isSpace).length_le
    rw [← skipSpace, hskip, List.length_cons] at hle
    omega
  split at h
  · cases value_of_parseWord h
  split at h
  · cases value_of_parseWord h
  split at h
  · cases value_of_parseWord h
  split at h
  next =>
    obtain ⟨⟨s', rest'⟩, hstring, heq⟩ := Option.map_eq_some_iff.mp h
    cases heq
    have hshorter := length_of_parseString hstring
    rw [String.toList_ofList]
    omega
  split at h
  · split at h
    · cases h
    · obtain ⟨_, -, heq⟩ := Option.map_eq_some_iff.mp h
      cases heq
  split at h
  · split at h
    · cases h
    · obtain ⟨_, -, heq⟩ := Option.map_eq_some_iff.mp h
      cases heq
  · obtain ⟨n, hn⟩ := value_of_parseNumber h
    cases hn

/-- **No text is read as itself.** -/
theorem read_ne_str (text : String) : read text.toList ≠ some (.str text) := by
  intro h
  unfold read at h
  split at h
  next value rest hvalue =>
    split at h
    · cases h
      exact absurd (length_of_parseValue_str hvalue) (lt_irrefl _)
    · cases h
  next => cases h

end Lengths

section Values

/-- What follows a value is not part of a numeral. -/
def Delimited (rest : List Char) : Prop := ∀ c cs, rest = c :: cs → isNumberChar c = false

theorem delimited_cons {c : Char} (h : isNumberChar c = false) (cs : List Char) : Delimited (c :: cs) := by
  intro c' cs' heq
  cases heq
  exact h

theorem skipSpace_cons {c : Char} (h : isSpace c = false) (cs : List Char) :
    skipSpace (c :: cs) = c :: cs :=
  List.dropWhile_cons_of_neg (by simp [h])

/-- The characters with which the text of a value may begin. -/
def isHead (c : Char) : Bool :=
  c.isDigit || c = '-' || c = 'n' || c = 't' || c = 'f' || c = '"' || c = '[' || c = '{'

theorem isSpace_of_isHead {c : Char} (h : isHead c = true) : isSpace c = false := by
  by_contra hspace
  have hcases : ((c = ' ' ∨ c = '\t') ∨ c = '\n') ∨ c = '\r' := by
    simpa only [isSpace, Bool.not_eq_false, Bool.or_eq_true, decide_eq_true_eq] using hspace
  rcases hcases with ((rfl | rfl) | rfl) | rfl <;> cases h

theorem ne_bracket_of_isHead {c : Char} (h : isHead c = true) : c ≠ ']' := by
  rintro rfl
  cases h

theorem exists_print (value : Value) : ∃ c cs, print value = c :: cs ∧ isHead c = true := by
  cases value with
  | num n =>
    obtain ⟨c, cs, htext, hc⟩ := n.exists_cons
    refine ⟨c, cs, htext, ?_⟩
    rcases hc with hdigit | rfl
    · simp [isHead, hdigit]
    · rfl
  | bool b => cases b <;> exact ⟨_, _, rfl, rfl⟩
  | _ => exact ⟨_, _, rfl, rfl⟩

theorem join_cons_cons (text text' : List Char) (texts : List (List Char)) :
    join (text :: text' :: texts) = text ++ ',' :: join (text' :: texts) := rfl

/-- **The text of a number** is read back. -/
theorem parseNumber_text (n : Number) {rest : List Char} (hrest : Delimited rest) :
    parseNumber (n.text ++ rest) = some (.num n, rest) := by
  have hnone : rest.takeWhile isNumberChar = [] ∧ rest.dropWhile isNumberChar = rest := by
    cases rest with
    | nil => exact ⟨rfl, rfl⟩
    | cons c cs =>
      have hc : ¬ isNumberChar c = true := Bool.eq_false_iff.mp (hrest c cs rfl)
      exact ⟨List.takeWhile_cons_of_neg hc, List.dropWhile_cons_of_neg hc⟩
  have htake : (n.text ++ rest).takeWhile isNumberChar = n.text := by
    rw [List.takeWhile_append_of_pos n.forall_mem, hnone.1, List.append_nil]
  have hdrop : (n.text ++ rest).dropWhile isNumberChar = rest := by
    rw [List.dropWhile_append_of_pos n.forall_mem, hnone.2]
  rw [parseNumber, htake, hdrop, if_pos n.valid, n.read_text, Option.map_some]

/-- A number is where nothing else begins. -/
theorem parseValue_num (n : Number) {fuel : ℕ} {rest : List Char} (hrest : Delimited rest) :
    parseValue (fuel + 1) (n.text ++ rest) = some (.num n, rest) := by
  obtain ⟨c, cs, htext, hc⟩ := n.exists_cons
  have hnot : c ≠ 'n' ∧ c ≠ 't' ∧ c ≠ 'f' ∧ c ≠ '"' ∧ c ≠ '[' ∧ c ≠ '{' ∧ isSpace c = false := by
    rcases hc with hdigit | rfl
    · refine ⟨?_, ?_, ?_, ?_, ?_, ?_, isSpace_of_isHead (by simp [isHead, hdigit])⟩ <;>
        (rintro rfl; cases hdigit)
    · decide
  have hnumber := parseNumber_text n hrest
  rw [htext, List.cons_append] at hnumber ⊢
  rw [parseValue, skipSpace_cons hnot.2.2.2.2.2.2]
  simp only [hnot, if_false]
  exact hnumber

theorem parseValue_quote {fuel : ℕ} {s : String} (hfuel : s.toList.length < fuel) (rest : List Char) :
    parseValue (fuel + 1) (quote s.toList ++ rest) = some (.str s, rest) := by
  have hread : parseValue (fuel + 1) ('"' :: (s.toList.flatMap quoteChar ++ '"' :: rest)) =
      (parseString fuel (s.toList.flatMap quoteChar ++ '"' :: rest)).map
        fun (s, cs) => (.str (String.ofList s), cs) := rfl
  simp only [quote, List.cons_append, List.append_assoc, List.nil_append]
  rw [hread, parseString_quote hfuel, Option.map_some]
  dsimp only
  rw [String.ofList_toList]

/-- An array whose first value begins with `c`. -/
theorem parseValue_bracket (fuel : ℕ) {c : Char} (hc : isHead c = true) (cs : List Char) :
    parseValue (fuel + 1) ('[' :: c :: cs) =
      (parseAll fuel (c :: cs)).map fun (values, cs) => (.arr values, cs) := by
  have hread : parseValue (fuel + 1) ('[' :: c :: cs) =
      match skipSpace (c :: cs) with
      | ']' :: cs => some (.arr [], cs)
      | cs => (parseAll fuel cs).map fun (values, cs) => (.arr values, cs) := rfl
  rw [hread, skipSpace_cons (isSpace_of_isHead hc)]
  split
  next cs' heq => exact absurd (List.cons.inj heq).1 (ne_bracket_of_isHead hc)
  next => rfl

/-- An object that is not empty. -/
theorem parseValue_brace (fuel : ℕ) (cs : List Char) :
    parseValue (fuel + 1) ('{' :: '"' :: cs) =
      (parseMembers fuel ('"' :: cs)).map fun (members, cs) => (.obj members, cs) := rfl

/-- The text of several values begins with that of the first. -/
theorem exists_join (c : Char) (cs : List Char) (texts : List (List Char)) :
    ∃ cs', join ((c :: cs) :: texts) = c :: cs' := by
  cases texts with
  | nil => exact ⟨cs, rfl⟩
  | cons text texts => exact ⟨_, rfl⟩

theorem exists_printMember (member : String × Value) : ∃ cs, printMember member = '"' :: cs := by
  obtain ⟨key, value⟩ := member
  exact ⟨_, rfl⟩

mutual

/-- **A printed value** is read back, whatever follows it. -/
theorem parseValue_print (value : Value) {fuel : ℕ} (hfuel : (print value).length ≤ fuel)
    {rest : List Char} (hrest : Delimited rest) :
    parseValue fuel (print value ++ rest) = some (value, rest) := by
  obtain ⟨fuel, rfl⟩ : ∃ n, fuel = n + 1 := by
    obtain ⟨c, cs, htext, -⟩ := exists_print value
    rw [htext, List.length_cons] at hfuel
    exact ⟨fuel - 1, by omega⟩
  match value with
  | .null => rfl
  | .bool true => rfl
  | .bool false => rfl
  | .num n => exact parseValue_num n hrest
  | .str s =>
    have hlength := length_le_flatMap_quoteChar s.toList
    refine parseValue_quote ?_ rest
    simp only [print, quote, List.length_append, List.length_cons, List.length_nil] at hfuel
    omega
  | .arr [] => rfl
  | .arr (x :: xs) =>
    simp only [print, List.length_append, List.length_cons, List.length_nil] at hfuel
    have hlength : (join (printAll (x :: xs))).length < fuel := by omega
    have hread := parseAll_printAll (x :: xs) (List.cons_ne_nil x xs) hlength rest
    obtain ⟨c, cs, htext, hc⟩ := exists_print x
    obtain ⟨cs', hjoin⟩ := exists_join c cs (printAll xs)
    have hprint : print (.arr (x :: xs)) ++ rest = '[' :: c :: (cs' ++ ']' :: rest) := by
      simp only [print, printAll, htext, hjoin, List.cons_append, List.append_assoc, List.nil_append]
    rw [printAll, htext, hjoin, List.cons_append] at hread
    rw [hprint, parseValue_bracket fuel hc, hread]
    rfl
  | .obj [] => rfl
  | .obj (member :: members) =>
    simp only [print, List.length_append, List.length_cons, List.length_nil] at hfuel
    have hlength : (join (printMembers (member :: members))).length < fuel := by omega
    have hread := parseMembers_printMembers (member :: members) (List.cons_ne_nil member members)
      hlength rest
    obtain ⟨cs, htext⟩ := exists_printMember member
    obtain ⟨cs', hjoin⟩ := exists_join '"' cs (printMembers members)
    have hprint : print (.obj (member :: members)) ++ rest = '{' :: '"' :: (cs' ++ '}' :: rest) := by
      simp only [print, printMembers, htext, hjoin, List.cons_append, List.append_assoc, List.nil_append]
    rw [printMembers, htext, hjoin, List.cons_append] at hread
    rw [hprint, parseValue_brace fuel, hread]
    rfl
termination_by structural value

/-- **Printed values** are read back. -/
theorem parseAll_printAll (values : List Value) (hne : values ≠ []) {fuel : ℕ}
    (hfuel : (join (printAll values)).length < fuel) (rest : List Char) :
    parseAll fuel (join (printAll values) ++ ']' :: rest) = some (values, rest) := by
  obtain ⟨fuel, rfl⟩ : ∃ n, fuel = n + 1 := ⟨fuel - 1, by omega⟩
  match values with
  | [] => exact absurd rfl hne
  | [x] =>
    have hlength : (print x).length ≤ fuel := Nat.le_of_lt_succ hfuel
    have hread := parseValue_print x hlength (delimited_cons (c := ']') rfl rest)
    have htext : join (printAll [x]) ++ ']' :: rest = print x ++ ']' :: rest := rfl
    rw [htext, parseAll, hread, Option.bind_eq_bind, Option.bind_some]
    rfl
  | x :: y :: ys =>
    simp only [printAll, join_cons_cons, List.length_append, List.length_cons] at hfuel
    have hlength : (print x).length ≤ fuel := by omega
    have hlength' : (join (printAll (y :: ys))).length < fuel := by
      rw [printAll]
      omega
    have htail := parseAll_printAll (y :: ys) (List.cons_ne_nil y ys) hlength' rest
    have hread := parseValue_print x hlength
      (delimited_cons (c := ',') rfl (join (printAll (y :: ys)) ++ ']' :: rest))
    have htext : join (printAll (x :: y :: ys)) ++ ']' :: rest =
        print x ++ ',' :: (join (printAll (y :: ys)) ++ ']' :: rest) := by
      simp only [printAll, join_cons_cons, List.append_assoc, List.cons_append]
    rw [htext, parseAll, hread, Option.bind_eq_bind, Option.bind_some]
    dsimp only
    rw [skipSpace_cons rfl]
    simp only [htail, Option.bind_eq_bind, Option.bind_some]
termination_by structural values

/-- **A printed member** is read back. -/
theorem parseMember_printMember (member : String × Value) {fuel : ℕ}
    (hfuel : (printMember member).length ≤ fuel) {rest : List Char} (hrest : Delimited rest) :
    parseMember fuel (printMember member ++ rest) = some (member, rest) := by
  match member with
  | (key, value) =>
    have hlength := length_le_flatMap_quoteChar key.toList
    simp only [printMember, quote, List.length_append, List.length_cons, List.length_nil] at hfuel
    obtain ⟨fuel, rfl⟩ : ∃ n, fuel = n + 1 := ⟨fuel - 1, by omega⟩
    have hkey : key.toList.length < fuel := by omega
    have hvalue : (print value).length ≤ fuel := by omega
    have htext : printMember (key, value) ++ rest =
        '"' :: (key.toList.flatMap quoteChar ++ '"' :: ':' :: (print value ++ rest)) := by
      simp only [printMember, quote, List.cons_append, List.append_assoc, List.nil_append]
    have hread := parseValue_print value hvalue hrest
    rw [htext, parseMember, skipSpace_cons rfl]
    simp only [parseString_quote hkey, Option.bind_eq_bind, Option.bind_some]
    rw [skipSpace_cons rfl]
    simp only [hread, Option.map_some, String.ofList_toList]
termination_by structural member

/-- **Printed members** are read back. -/
theorem parseMembers_printMembers (members : List (String × Value)) (hne : members ≠ []) {fuel : ℕ}
    (hfuel : (join (printMembers members)).length < fuel) (rest : List Char) :
    parseMembers fuel (join (printMembers members) ++ '}' :: rest) = some (members, rest) := by
  obtain ⟨fuel, rfl⟩ : ∃ n, fuel = n + 1 := ⟨fuel - 1, by omega⟩
  match members with
  | [] => exact absurd rfl hne
  | [m] =>
    have hlength : (printMember m).length ≤ fuel := Nat.le_of_lt_succ hfuel
    have hread := parseMember_printMember m hlength (delimited_cons (c := '}') rfl rest)
    have htext : join (printMembers [m]) ++ '}' :: rest = printMember m ++ '}' :: rest := rfl
    rw [htext, parseMembers, hread, Option.bind_eq_bind, Option.bind_some]
    rfl
  | m :: n :: ms =>
    simp only [printMembers, join_cons_cons, List.length_append, List.length_cons] at hfuel
    have hlength : (printMember m).length ≤ fuel := by omega
    have hlength' : (join (printMembers (n :: ms))).length < fuel := by
      rw [printMembers]
      omega
    have htail := parseMembers_printMembers (n :: ms) (List.cons_ne_nil n ms) hlength' rest
    have hread := parseMember_printMember m hlength
      (delimited_cons (c := ',') rfl (join (printMembers (n :: ms)) ++ '}' :: rest))
    have htext : join (printMembers (m :: n :: ms)) ++ '}' :: rest =
        printMember m ++ ',' :: (join (printMembers (n :: ms)) ++ '}' :: rest) := by
      simp only [printMembers, join_cons_cons, List.append_assoc, List.cons_append]
    rw [htext, parseMembers, hread, Option.bind_eq_bind, Option.bind_some]
    dsimp only
    rw [skipSpace_cons rfl]
    simp only [htail, Option.bind_eq_bind, Option.bind_some]
termination_by structural members

end

/-- **The round trip**: a printed text is one value, the one that was printed. -/
theorem read_print (value : Value) : read (print value) = some value := by
  have hend : Delimited [] := fun c cs heq => by cases heq
  have hread := parseValue_print value (Nat.le_refl (print value).length) hend
  rw [List.append_nil] at hread
  rw [read, hread]
  rfl

/-- **Printing is injective.** -/
theorem print_injective : Function.Injective print := by
  intro a b h
  have hread := read_print a
  rw [h, read_print b] at hread
  exact (Option.some.inj hread).symm

theorem stringify_injective : Function.Injective stringify :=
  fun _ _ h => print_injective (String.ofList_injective h)

end Values

end Json
