import Ahjoor.Contributions.Payments
import Ahjoor.Stellar.Envelope

/-!
# Contract events

What the listener reads off a transaction: its diagnostic events, as far as they are named
`ContributionReceived` or `RoundCompleted`, with the fields that the handlers look for under several
names each. A Soroban value is represented by what the SDK's `scValToNative` makes of it.
-/

namespace Ahjoor.EventListener

/-! ### Values -/

/-- What `scValToNative` returns. It makes numbers of integers of 32 bits only; of booleans and larger
integers, and of objects, what `String(value)` gives is kept. -/
inductive Native
  /-- `undefined` or `null` -/
  | nullish
  | string (s : String)
  | number (n : ℤ)
  | primitive (text : String)
  | object (text : String) (fields : List (String × Native))

namespace Native

/-- `String(value ?? '')`. -/
def text : Native → String
  | nullish => ""
  | string s | primitive s | object s _ => s
  | number n => toString n

/-- `value ?? other`. -/
def coalesce : Native → Native → Native
  | nullish, other => other
  | value, _ => value

end Native

/-- A `Record<string, unknown>`. -/
abbrev Payload := List (String × Native)

/-- `payload[key]`. -/
def Payload.field (payload : Payload) (key : String) : Native :=
  ((payload.find? (·.1 = key)).map (·.2)).getD .nullish

/-! ### Events -/

/-- The topics and the data of a contract event. -/
structure ContractEvent where
  topics : List (Except Exc Native)
  data : Option (Except Exc Native)

/-- The metadata of a transaction: `switch()`, and the diagnostic events with what `event()` gives. -/
structure TransactionMeta where
  version : ℕ
  diagnosticEvents : List (Option ContractEvent)

/-- What the SDK makes of XDR; `Number(text)` where it is finite, and the key that a text denotes, with
the exception of a query whose column does not take them. -/
structure Sdk where
  /-- `xdr.TransactionMeta.fromXDR(resultMetaXdr, 'base64')` -/
  fromXDR : String → Except Exc TransactionMeta
  number : String → Option (Except Exc ℤ)
  uuid : String → Except Exc Uuid

inductive EventName
  | contributionReceived | roundCompleted
  deriving DecidableEq, Repr

structure ParsedDiagnosticEvent where
  name : EventName
  payload : Payload

/-- The event that a topic or a field names, in upper or lower case. -/
def eventNamed (value : Native) : Option EventName :=
  if lowerCase value.text = "contributionreceived" then some .contributionReceived
  else if lowerCase value.text = "roundcompleted" then some .roundCompleted
  else none

/-- `extractEventName(topics, payload)`. -/
def extractEventName (topics : List Native) (payload : Native) : Option EventName :=
  match topics.findSome? eventNamed, payload with
  | some name, _ => some name
  | none, .object _ fields =>
      eventNamed (((Payload.field fields "eventName").coalesce (Payload.field fields "event")).coalesce
        (Payload.field fields "type"))
  | none, _ => none

/-- `normalizeContractEvent(contractEvent)`: an event that cannot be read is passed over. -/
def normalizeContractEvent (contractEvent : Option ContractEvent) : Option ParsedDiagnosticEvent := do
  let event ← contractEvent
  let topics ← (event.topics.mapM id).toOption
  let dataNative ← (event.data.getD (.ok .nullish)).toOption
  let name ← extractEventName topics dataNative
  match dataNative with
  | .object _ fields => pure { name, payload := fields }
  | value => pure { name, payload := [("value", value)] }

/-- `parseDiagnosticEvents(resultMetaXdr)`. -/
def parseDiagnosticEvents (sdk : Sdk) (resultMetaXdr : Option String) :
    Except Exc (List ParsedDiagnosticEvent) :=
  match resultMetaXdr.filter (· ≠ "") with
  | none => .ok []
  | some xdr => do
      let txMeta ← sdk.fromXDR xdr
      if txMeta.version = 3 ∨ txMeta.version = 4 then
        pure (txMeta.diagnosticEvents.filterMap normalizeContractEvent)
      else pure []

/-! ### Fields -/

/-- `value.trim().length > 0`. -/
def notBlank (s : String) : Bool := s.toList.any fun c => !isSpace c

/-- `readString(payload, keys)`. -/
def readString (payload : Payload) (keys : List String) : Option String :=
  keys.findSome? fun key =>
    match payload.field key with
    | .string s => if notBlank s then some s else none
    | _ => none

/-- `readNumber(payload, keys)`, with what a column of integers makes of the number. -/
def readNumber (sdk : Sdk) (payload : Payload) (keys : List String) :
    Option (Except Exc ℤ) :=
  keys.findSome? fun key =>
    match payload.field key with
    | .number n => some (.ok n)
    | .string s => if notBlank s then sdk.number s else none
    | _ => none

end Ahjoor.EventListener
