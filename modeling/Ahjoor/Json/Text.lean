import Ahjoor.Json.Number

/-!
# JSON values and their texts

A number is a finite double; an object is the list of its members in the order of its keys. `print` is
`JSON.stringify` without indentation, on characters.
Strings are sequences of Unicode characters: there are no lone surrogates.
-/

namespace Json

/-! ### Values -/

/-- A JSON value. -/
inductive Value
  | null
  | bool (b : Bool)
  | num (n : Number)
  | str (s : String)
  | arr (xs : List Value)
  | obj (members : List (String × Value))

/-! ### Printing -/

/-- What is escaped by a letter, and the letter. -/
def escapes : List (Char × Char) :=
  [('"', '"'), ('\\', '\\'), ('\x08', 'b'), ('\t', 't'), ('\n', 'n'), ('\x0c', 'f'), ('\r', 'r')]

/-- A character of a string. -/
def quoteChar (c : Char) : List Char :=
  match escapes.find? (·.1 = c) with
  | some (_, letter) => ['\\', letter]
  | none =>
      if c.toNat < 32 then
        ['\\', 'u', '0', '0', Nat.digitChar (c.toNat / 16), Nat.digitChar (c.toNat % 16)]
      else [c]

/-- A string between quotation marks. -/
def quote (cs : List Char) : List Char := '"' :: cs.flatMap quoteChar ++ ['"']

/-- `texts.join(',')`. -/
def join : List (List Char) → List Char
  | [] => []
  | [text] => text
  | text :: texts => text ++ ',' :: join texts

mutual

/-- `JSON.stringify(value)`. -/
def print : Value → List Char
  | .null => ['n', 'u', 'l', 'l']
  | .bool true => ['t', 'r', 'u', 'e']
  | .bool false => ['f', 'a', 'l', 's', 'e']
  | .num n => n.text
  | .str s => quote s.toList
  | .arr xs => '[' :: join (printAll xs) ++ [']']
  | .obj members => '{' :: join (printMembers members) ++ ['}']
termination_by structural value => value

def printAll : List Value → List (List Char)
  | [] => []
  | value :: values => print value :: printAll values
termination_by structural values => values

def printMember : String × Value → List Char
  | (key, value) => quote key.toList ++ ':' :: print value
termination_by structural member => member

def printMembers : List (String × Value) → List (List Char)
  | [] => []
  | member :: members => printMember member :: printMembers members
termination_by structural members => members

end

/-- `JSON.stringify(value)`, as a string. -/
def stringify (value : Value) : String := String.ofList (print value)

end Json
