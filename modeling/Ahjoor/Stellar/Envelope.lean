import Ahjoor.Stellar.StellarService

/-!
# Replies and envelopes

What `getTransaction` replies and what the SDK decodes an envelope into are dynamically typed: a
field may be missing or hold anything, a method may be missing, throw or return nothing. This module
has these values, and the methods of the Stellar service that read a contract call off them.

The function name is compared with ASCII text, and asset codes are ASCII text. Every argument of a
call is an object of its own.
-/

namespace Ahjoor

/-! ### Fields -/

/-- A field of a reply. -/
inductive Field
  /-- it is missing, `undefined` or `null` -/
  | absent
  | text (s : String)
  /-- anything else, as `String(…)` prints it -/
  | other (printed : String)
  deriving DecidableEq, Repr

/-- `a ?? b`. -/
def Field.or : Field → Field → Field
  | absent, b => b
  | a, _ => a

/-- `String(a ?? '')`. -/
def Field.print : Field → String
  | absent => ""
  | text s | other s => s

/-- `typeof a === 'string'`, and it is not empty. -/
def Field.text? : Field → Option String
  | text s => if s = "" then none else some s
  | _ => none

/-- A string or `null`. -/
def Field.ofOption : Option String → Field
  | some s => text s
  | none => absent

/-! ### Methods -/

/-- A method of an object, by what a call of it does. -/
inductive Method (α : Type)
  | missing
  | throws (e : Exc)
  | returns (value : Option α)

/-- `object.method?.()`. -/
def Method.call {α : Type} : Method α → Except Exc (Option α)
  | missing => .ok none
  | throws e => .error e
  | returns value => .ok value

/-- `value?.method?.()`. -/
def optionalCall {α β : Type} (value : Option α) (method : α → Method β) :
    Except Exc (Option β) :=
  match value with
  | some a => (method a).call
  | none => .ok none

/-! ### Numerals -/

/-- A white space or a line terminator. -/
def isSpace (c : Char) : Bool :=
  let n := c.toNat
  9 ≤ n && n ≤ 13 || 0x2000 ≤ n && n ≤ 0x200a ||
    [0x20, 0xa0, 0x1680, 0x2028, 0x2029, 0x202f, 0x205f, 0x3000, 0xfeff].contains n

/-- Some digits. -/
def isDigits (cs : List Char) : Bool := !cs.isEmpty && cs.all Char.isDigit

/-- Without a leading sign. -/
def unsigned : List Char → List Char
  | '+' :: cs | '-' :: cs => cs
  | cs => cs

/-- Digits with at most one point. -/
def isMantissa (cs : List Char) : Bool :=
  match cs.span (· ≠ '.') with
  | (whole, []) => isDigits whole
  | (whole, _ :: fraction) => isDigits (whole ++ fraction)

/-- A decimal numeral without a sign. -/
def isUnsignedDecimal (cs : List Char) : Bool :=
  cs = "Infinity".toList ||
    match cs.span fun c => c ≠ 'e' && c ≠ 'E' with
    | (mantissa, []) => isMantissa mantissa
    | (mantissa, _ :: exponent) => isMantissa mantissa && isDigits (unsigned exponent)

/-- The digits of the bases 16, 8 and 2. -/
def isDigitOf (base : Char) (c : Char) : Bool :=
  match base.toLower with
  | 'x' => c.isDigit || 'a' ≤ c.toLower && c.toLower ≤ 'f'
  | 'o' => '0' ≤ c && c ≤ '7'
  | 'b' => c = '0' || c = '1'
  | _ => false

/-- `!isNaN(Number(s))`. -/
def isNumeric (s : String) : Bool :=
  match ((s.toList.dropWhile isSpace).reverse.dropWhile isSpace).reverse with
  | [] => true
  | '0' :: base :: c :: cs => (c :: cs).all (isDigitOf base) || isUnsignedDecimal ('0' :: base :: c :: cs)
  | cs => isUnsignedDecimal (unsigned cs)

/-- `s.length`. -/
def utf16Length (s : String) : ℕ :=
  (s.toList.map fun c => if c.toNat < 0x10000 then 1 else 2).sum

/-- `const [code, issuer] = s.split(':')` of a string that includes `':'`. -/
def splitAtColon (s : String) : String × String :=
  let rest := (s.toList.dropWhile (· ≠ ':')).drop 1
  (String.ofList (s.toList.takeWhile (· ≠ ':')), String.ofList (rest.takeWhile (· ≠ ':')))

namespace Xdr

/-! ### Decoded envelopes -/

/-- `i128()` and `u128()`. -/
structure Parts where
  hi : ℤ
  lo : ℤ

/-- An argument of a call. -/
structure ScVal where
  i128 : Method Parts := .missing
  u128 : Method Parts := .missing
  i64 : Method ℤ := .missing
  u64 : Method ℤ := .missing
  i32 : Method ℤ := .missing
  u32 : Method ℤ := .missing
  sym : Method String := .missing
  str : Method String := .missing
  toString : Method String := .missing

/-- An address: the contract that it is of, and the `toString` of the object. -/
structure ScAddress where
  contract : String
  toString : Method String := .missing

/-- A contract call. The name is an object with a `toString`. -/
structure InvokeContract where
  contractAddress : Method ScAddress := .missing
  functionName : Method (Method String) := .missing
  args : Method (List ScVal) := .missing

structure HostFunction where
  invokeContract : Method InvokeContract := .missing

structure InvokeHostFunctionOp where
  hostFunction : Method HostFunction := .missing

structure OperationBody where
  invokeHostFunctionOp : Method InvokeHostFunctionOp := .missing

structure Operation where
  body : Method OperationBody := .missing

structure TxContainer where
  operations : Method (List Operation) := .missing

structure TxV1 where
  tx : Method TxContainer := .missing

structure Envelope where
  v1 : Method TxV1 := .missing
  tx : Method TxContainer := .missing

/-- The contract call of an operation, if it is one. -/
def Operation.call (operation : Operation) : Except Exc (Option InvokeContract) := do
  let body ← operation.body.call
  let invokeOp ← optionalCall body (·.invokeHostFunctionOp)
  let hostFunction ← optionalCall invokeOp (·.hostFunction)
  optionalCall hostFunction (·.invokeContract)

/-- `txContainer`. -/
def Envelope.txContainer (envelope : Envelope) : Except Exc (Option TxContainer) := do
  let v1 ← envelope.v1.call
  match ← optionalCall v1 (·.tx) with
  | some txContainer => pure (some txContainer)
  | none => envelope.tx.call

/-- `txContainer?.operations?.() ?? []`. -/
def Envelope.operations (envelope : Envelope) : Except Exc (List Operation) := do
  let txContainer ← envelope.txContainer
  let operations ← optionalCall txContainer (·.operations)
  pure (operations.getD [])

/-! ### Reading -/

/-- The printed value of a method that prints one, else of the next. -/
def typed {α : Type} (method : Method α) (print : α → String) (next : Option String) :
    Option String :=
  match method with
  | .missing => next
  | .throws _ | .returns none => none
  | .returns (some a) => some (print a)

/-- `((hi << BigInt(64)) + lo).toString()`. -/
def Parts.print (parts : Parts) : String := s!"{parts.hi * 2 ^ 64 + parts.lo}"

/-- `readScValAsString(scVal)`. -/
def readScValAsString (scVal : ScVal) : Option String :=
  typed scVal.i128 Parts.print <|
  typed scVal.u128 Parts.print <|
  typed scVal.i64 (fun n => s!"{n}") <|
  typed scVal.u64 (fun n => s!"{n}") <|
  typed scVal.i32 (fun n => s!"{n}") <|
  typed scVal.u32 (fun n => s!"{n}") <|
  typed scVal.sym id <|
  typed scVal.str id <|
  match scVal.toString with
  | .returns (some str) => if str ≠ "" && isNumeric str then some str else none
  | _ => none

/-- `String(value?.toString?.() ?? '')`, where the value is what a method returns. -/
def readText {α : Type} (method : Method α) (toString : α → Method String) : Except Exc String := do
  let value ← method.call
  let text ← optionalCall value toString
  pure (text.getD "")

/-- `s || null`, and `null` if it throws. -/
def orNull : Except Exc String → Option String
  | .ok s => if s = "" then none else some s
  | .error _ => none

/-- `readFunctionName(invokeContract)`. -/
def readFunctionName (invokeContract : InvokeContract) : Option String :=
  orNull ((readText invokeContract.functionName id).map lowerCase)

/-- `readContractAddress(invokeContract)`. -/
def readContractAddress (invokeContract : InvokeContract) : Option String :=
  orNull (readText invokeContract.contractAddress ScAddress.toString)

end Xdr

end Ahjoor
