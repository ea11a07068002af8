import Ahjoor.Groups.Entities
import Mathlib.Algebra.Group.Nat.Defs
import Mathlib.Data.List.TakeWhile

/-!
# Field encryption

Column values are encrypted with AES-256-GCM under the active key of a registry. In *legacy*
mode there is one key, possibly with a previous one, and a ciphertext is bare base64; in
*versioned* mode the keys form a ring under version numbers and a ciphertext carries the label
`vN:` of the version it was encrypted with. Decryption reads the label if there is one, and tries
every key of the registry, the labelled one first.

The cipher, `JSON.parse` and the conversions between numbers and strings belong to the runtime.
`Node` collects what the module relies on: the cipher decrypts what it encrypted under the same
key, rejects every other key and everything that has been written in front of a ciphertext, and
base64 has no `:`; integers below `10 ^ 21` are printed as digits, larger ones in exponential
notation. A plaintext is a well-formed Unicode string.
-/

namespace Ahjoor

/-- A key as bytes. -/
abbrev Key := List UInt8

/-- What the module uses of the runtime. -/
structure Node where
  /-- `Object.entries(JSON.parse(s))` for an object of strings; `none` where it throws. -/
  jsonEntries : String → Option (List (String × String))
  /-- `Number(s)`, where that is a non-negative integer. -/
  toNumber : String → Option ℕ
  /-- A number in a template literal. -/
  toText : ℕ → String
  /-- `n - 1` on numbers, for `n > 0`. -/
  pred : ℕ → ℕ
  /-- base64 of the iv, the tag and the AES-256-GCM encryption of a plaintext. -/
  encipher : Key → List UInt8 → String → String
  /-- The plaintext of a payload; `none` where the key or the tag is wrong. -/
  decipher : Key → String → Option String
  toText_digits : ∀ n < 10 ^ 21, toText n ≠ "" ∧ ∀ c ∈ (toText n).toList, c.isDigit = true
  toText_exponent : ∀ n, 10 ^ 21 ≤ n → ':' ∉ (toText n).toList ∧ ∃ c ∈ (toText n).toList, c.isDigit = false
  toNumber_toText : ∀ s n, toNumber s = some n → toNumber (toText n) = some n
  decipher_encipher : ∀ key iv p, decipher key (encipher key iv p) = some p
  decipher_of_ne : ∀ key key' iv p, key' ≠ key → decipher key' (encipher key iv p) = none
  decipher_labelled : ∀ key key' iv p label,
    decipher key' ("v" ++ label ++ ":" ++ encipher key iv p) = none
  colon_not_mem : ∀ key iv p, ':' ∉ (encipher key iv p).toList

/-! ### The registry -/

/-- `Buffer.from(raw, 'hex')`: the bytes up to the first pair that is not hexadecimal. -/
def hexBytes : List Char → List UInt8
  | a :: b :: cs =>
      match hexDigit? a, hexDigit? b with
      | some x, some y => UInt8.ofNat (16 * x + y) :: hexBytes cs
      | _, _ => []
  | _ => []
where
  /-- The value of a hexadecimal digit. -/
  hexDigit? (c : Char) : Option ℕ :=
    if c.isDigit then some (c.toNat - '0'.toNat)
    else if 'a' ≤ c ∧ c ≤ 'f' then some (c.toNat - 'a'.toNat + 10)
    else if 'A' ≤ c ∧ c ≤ 'F' then some (c.toNat - 'A'.toNat + 10)
    else none

/-- `parseHexKey(raw, label)`. -/
def parseHexKey (raw label : String) : Except Exc Key :=
  let buf := hexBytes raw.toList
  if buf.length ≠ 32 then .error (.error s!"{label} must be 32 bytes (64 hex chars)") else .ok buf

inductive RegistryMode
  | legacy | versioned
  deriving DecidableEq, Repr

/-- `KeyRegistry`; the map of keys lists its entries in the order of insertion. -/
structure KeyRegistry where
  mode : RegistryMode
  keys : List (ℕ × Key)
  activeVersion : ℕ
  legacyCurrent : Key
  legacyPrevious : Option Key
  deriving DecidableEq, Repr

/-- `RegistryEnv`: the environment variables. -/
structure RegistryEnv where
  keysJson : Option String := none
  activeVersionEnv : Option String := none
  currentEnv : Option String := none
  previousEnv : Option String := none
  currentVersionEnv : Option String := none
  previousVersionEnv : Option String := none

/-- `keys.set(version, key)`: an entry that is there keeps its place. -/
def setKey (keys : List (ℕ × Key)) (version : ℕ) (key : Key) : List (ℕ × Key) :=
  if (keys.lookup version).isSome then
    keys.map fun e => if e.1 = version then (version, key) else e
  else keys ++ [(version, key)]

section

variable (node : Node)

/-- `parseVersion(raw, label)`. -/
def parseVersion (raw label : String) : Except Exc ℕ :=
  match node.toNumber raw with
  | some version => .ok version
  | none => .error (.error s!"{label} must be a non-negative integer")

/-- The loop over the entries of `DB_FIELD_ENCRYPTION_KEYS`. -/
def readKeys : List (ℕ × Key) → List (String × String) → Except Exc (List (ℕ × Key))
  | keys, [] => .ok keys
  | keys, (rawVersion, hex) :: entries => do
      let version ← parseVersion node rawVersion
        ("DB_FIELD_ENCRYPTION_KEYS key \"" ++ rawVersion ++ "\"")
      let key ← parseHexKey hex ("DB_FIELD_ENCRYPTION_KEYS[\"" ++ rawVersion ++ "\"]")
      readKeys (setKey keys version key) entries

/-- `Math.max(...keys.keys())`. -/
def maxVersion (keys : List (ℕ × Key)) : ℕ := keys.foldl (fun n e => max n e.1) 0

/-- A registry of versioned keys. -/
def versionedRegistry (keys : List (ℕ × Key)) (activeVersion : ℕ) (active : Key) : KeyRegistry where
  mode := .versioned
  keys
  activeVersion
  legacyCurrent := active
  legacyPrevious := none

/-- The active version of a key ring: the one that is set, or the highest. -/
def ringActiveVersion (env : RegistryEnv) (keys : List (ℕ × Key)) : Except Exc ℕ :=
  if truthy env.activeVersionEnv then
    parseVersion node (env.activeVersionEnv.getD "") "DB_FIELD_ENCRYPTION_ACTIVE_KEY_VERSION"
  else .ok (maxVersion keys)

/-- The explicit key ring. -/
def buildRing (env : RegistryEnv) (keysJson : String) : Except Exc KeyRegistry := do
  let some parsed := node.jsonEntries keysJson
    | .error (.error "DB_FIELD_ENCRYPTION_KEYS must be valid JSON: \x7b\"<version>\":\"<64 hex chars>\"\x7d")
  let keys ← readKeys node [] parsed
  if keys.isEmpty then .error (.error "DB_FIELD_ENCRYPTION_KEYS must contain at least one key")
  else
    let activeVersion ← ringActiveVersion node env keys
    match keys.lookup activeVersion with
    | some active => .ok (versionedRegistry keys activeVersion active)
    | none => .error (.error
        s!"DB_FIELD_ENCRYPTION_ACTIVE_KEY_VERSION {node.toText activeVersion} is not present in DB_FIELD_ENCRYPTION_KEYS")

/-- The version of the previous key. -/
def previousVersion (env : RegistryEnv) (activeVersion : ℕ) : Except Exc ℕ :=
  if truthy env.previousVersionEnv then
    parseVersion node (env.previousVersionEnv.getD "") "DB_FIELD_ENCRYPTION_KEY_PREVIOUS_VERSION"
  else if activeVersion = 0 then
    .error (.error "DB_FIELD_ENCRYPTION_KEY_PREVIOUS_VERSION must be a non-negative integer")
  else .ok (node.pred activeVersion)

/-- The current key under its version, with the previous one if it is set. -/
def buildPair (env : RegistryEnv) : Except Exc KeyRegistry := do
  if truthy env.currentEnv then
    let activeVersion ← parseVersion node (env.currentVersionEnv.getD "")
      "DB_FIELD_ENCRYPTION_KEY_VERSION"
    let current ← parseHexKey (env.currentEnv.getD "") "DB_FIELD_ENCRYPTION_KEY"
    if truthy env.previousEnv then
      let previous ← previousVersion node env activeVersion
      if previous = activeVersion then .error (.error
        "DB_FIELD_ENCRYPTION_KEY_PREVIOUS_VERSION must differ from DB_FIELD_ENCRYPTION_KEY_VERSION")
      else
        let key ← parseHexKey (env.previousEnv.getD "") "DB_FIELD_ENCRYPTION_KEY_PREVIOUS"
        .ok (versionedRegistry [(activeVersion, current), (previous, key)] activeVersion current)
    else .ok (versionedRegistry [(activeVersion, current)] activeVersion current)
  else .error (.error "Missing env var: DB_FIELD_ENCRYPTION_KEY")

/-- The single key, with the previous one if it is a key. -/
def buildLegacy (env : RegistryEnv) : Except Exc KeyRegistry := do
  if truthy env.currentEnv then
    let legacyCurrent ← parseHexKey (env.currentEnv.getD "") "DB_FIELD_ENCRYPTION_KEY"
    let prev := hexBytes (env.previousEnv.getD "").toList
    .ok {
      mode := .legacy
      keys := []
      activeVersion := 0
      legacyCurrent
      legacyPrevious := if truthy env.previousEnv && prev.length == 32 then some prev else none }
  else .error (.error "Missing env var: DB_FIELD_ENCRYPTION_KEY")

/-- `buildRegistry(env)`. -/
def buildRegistry (env : RegistryEnv) : Except Exc KeyRegistry :=
  if truthy env.keysJson then buildRing node env (env.keysJson.getD "")
  else if truthy env.currentVersionEnv then buildPair node env
  else buildLegacy env

end

/-! ### Ciphertexts -/

/-- `/^v(\d+):/` on a value: the digits of the label and what follows it. -/
def versionPrefix? (value : String) : Option (String × String) :=
  match value.toList with
  | 'v' :: cs =>
      match cs.takeWhile Char.isDigit, cs.dropWhile Char.isDigit with
      | d :: ds, ':' :: payload => some (String.ofList (d :: ds), String.ofList payload)
      | _, _ => none
  | _ => none

/-- The payload of a ciphertext: what follows its label, if it has one. -/
def payloadOf (ciphertext : String) : String :=
  ((versionPrefix? ciphertext).map (·.2)).getD ciphertext

/-- The versions whose keys `candidateKeys` tries in versioned mode: the labelled one, the active
one, then all of them in descending order, each once. -/
def candidateVersions (registry : KeyRegistry) (version : Option ℕ) : List ℕ :=
  let versions := (registry.keys.map (·.1)).mergeSort fun a b => b ≤ a
  (version.toList ++ registry.activeVersion :: versions).eraseDups

/-- `candidateKeys(registry, version)`. -/
def candidateKeys (registry : KeyRegistry) (version : Option ℕ) : List Key :=
  match registry.mode with
  | .legacy => registry.legacyCurrent :: registry.legacyPrevious.toList
  | .versioned => (candidateVersions registry version).filterMap fun v => registry.keys.lookup v

/-- The key that `encrypt` uses. -/
def encryptionKey (registry : KeyRegistry) : Option Key :=
  match registry.mode with
  | .versioned => registry.keys.lookup registry.activeVersion
  | .legacy => some registry.legacyCurrent

section

variable (node : Node)

/-- `encrypt(plaintext)`, with the random `iv` that it draws. -/
def encrypt (registry : KeyRegistry) (iv : List UInt8) (plaintext : String) : Except Exc String :=
  match encryptionKey registry with
  | none => .error (.error "The \"key\" argument must be of type string or an instance of Buffer")
  | some key =>
      let payload := node.encipher key iv plaintext
      match registry.mode with
      | .versioned => .ok ("v" ++ node.toText registry.activeVersion ++ ":" ++ payload)
      | .legacy => .ok payload

/-- `getCiphertextKeyVersion(value)`. -/
def getCiphertextKeyVersion (value : String) : Option ℕ :=
  (versionPrefix? value).bind fun m => node.toNumber m.1

/-- `decrypt(ciphertext)`. -/
def decrypt (registry : KeyRegistry) (ciphertext : String) : Except Exc String :=
  let payload := payloadOf ciphertext
  match (candidateKeys registry (getCiphertextKeyVersion node ciphertext)).findSome? fun key =>
      node.decipher key payload with
  | some result => .ok result
  | none => .error (.error "Failed to decrypt field: invalid key or corrupted data")

/-- `getActiveKeyVersion()`. -/
def getActiveKeyVersion (registry : KeyRegistry) : Option ℕ :=
  match registry.mode with
  | .versioned => some registry.activeVersion
  | .legacy => none

/-- `encryptedTransformer.to(value)`. -/
def encryptedTransformerTo (registry : KeyRegistry) (iv : List UInt8) (value : Option String) :
    Except Exc (Option String) :=
  match value with
  | none => .ok none
  | some value => (encrypt node registry iv value).map some

/-- `encryptedTransformer.from(value)`. -/
def encryptedTransformerFrom (registry : KeyRegistry) (value : Option String) : Option String :=
  value.map fun value =>
    match decrypt node registry value with
    | .ok plaintext => plaintext
    | .error _ => value

end

end Ahjoor
