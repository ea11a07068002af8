import Ahjoor.Decimal.Arithmetic
import Ahjoor.Encryption.FieldEncryption

/-!
# Ciphertexts across configurations

A ciphertext written under one registry is read under another one exactly when that one has the
key, whatever the modes and whatever version numbers the two give it: a wrong key is rejected, so
the order in which the keys are tried does not matter, and the label only has to be recognized
and taken off. A label is recognized as long as its version prints as digits.
-/

namespace Ahjoor

section

variable {node : Node} {registry : KeyRegistry}

/-! ### Registries -/

/-- The map of keys has one entry a version, and in versioned mode the active version is there. -/
structure KeyRegistry.Wellformed (registry : KeyRegistry) : Prop where
  nodup : (registry.keys.map (·.1)).Nodup
  active : registry.mode = .versioned → ∃ key, registry.keys.lookup registry.activeVersion = some key

/-- The registry has the key. -/
def KeyRegistry.HasKey (registry : KeyRegistry) (key : Key) : Prop :=
  match registry.mode with
  | .legacy => key = registry.legacyCurrent ∨ registry.legacyPrevious = some key
  | .versioned => ∃ version, (version, key) ∈ registry.keys

theorem lookup_of_mem {keys : List (ℕ × Key)} (hnodup : (keys.map (·.1)).Nodup) {version : ℕ}
    {key : Key} (h : (version, key) ∈ keys) : keys.lookup version = some key := by
  induction keys with
  | nil => cases h
  | cons e keys ih =>
    rw [List.map_cons, List.nodup_cons] at hnodup
    rcases List.mem_cons.mp h with rfl | h
    · exact List.lookup_cons_self
    · have hne : version ≠ e.1 := by
        rintro rfl
        exact hnodup.1 (List.mem_map.mpr ⟨_, h, rfl⟩)
      rw [List.lookup_cons, beq_eq_false_iff_ne.mpr hne]
      exact ih hnodup.2 h

theorem mem_of_lookup {keys : List (ℕ × Key)} {version : ℕ} {key : Key}
    (h : keys.lookup version = some key) : (version, key) ∈ keys := by
  obtain ⟨l₁, l₂, rfl, -⟩ := List.lookup_eq_some_iff.mp h
  exact List.mem_append_right _ List.mem_cons_self

theorem nodup_setKey {keys : List (ℕ × Key)} (h : (keys.map (·.1)).Nodup) (version : ℕ) (key : Key) :
    ((setKey keys version key).map (·.1)).Nodup := by
  unfold setKey
  split
  next hsome =>
    have hsame : (keys.map fun e => if e.1 = version then (version, key) else e).map (·.1) =
        keys.map (·.1) := by
      rw [List.map_map]
      refine List.map_congr_left fun e _ => ?_
      by_cases he : e.1 = version <;> simp [he]
    rw [hsame]
    exact h
  next hnone =>
    rw [List.map_append, List.map_singleton]
    refine List.nodup_append.mpr ⟨h, by simp, ?_⟩
    rintro v hv w hw rfl
    obtain rfl := List.mem_singleton.mp hw
    obtain ⟨e, he, rfl⟩ := List.mem_map.mp hv
    exact hnone (List.lookup_isSome_iff.mpr ⟨e, he, by simp⟩)

theorem ok_of_bind {α β : Type} {x : Except Exc α} {f : α → Except Exc β} {b : β}
    (h : (x >>= f) = .ok b) : ∃ a, x = .ok a ∧ f a = .ok b := by
  cases x with
  | error e => cases h
  | ok a => exact ⟨a, rfl, h⟩

theorem nodup_readKeys {entries : List (String × String)} {keys keys' : List (ℕ × Key)}
    (h : readKeys node keys entries = .ok keys') (hnodup : (keys.map (·.1)).Nodup) :
    (keys'.map (·.1)).Nodup := by
  induction entries generalizing keys with
  | nil =>
    obtain rfl := Except.ok.inj h
    exact hnodup
  | cons e entries ih =>
    obtain ⟨version, -, h⟩ := ok_of_bind h
    obtain ⟨key, -, h⟩ := ok_of_bind h
    exact ih h (nodup_setKey hnodup version key)

theorem wellformed_of_buildRing {env : RegistryEnv} {keysJson : String}
    (h : buildRing node env keysJson = .ok registry) : registry.Wellformed := by
  unfold buildRing at h
  split at h
  next parsed hparsed =>
    obtain ⟨keys, hkeys, h⟩ := ok_of_bind h
    split at h
    · cases h
    obtain ⟨activeVersion, -, h⟩ := ok_of_bind h
    split at h
    next active hactive =>
      obtain rfl := Except.ok.inj h
      exact ⟨nodup_readKeys hkeys List.nodup_nil, fun _ => ⟨active, hactive⟩⟩
    next => cases h
  next => cases h

theorem wellformed_of_buildPair {env : RegistryEnv} (h : buildPair node env = .ok registry) :
    registry.Wellformed := by
  unfold buildPair at h
  split at h
  next =>
    obtain ⟨activeVersion, -, h⟩ := ok_of_bind h
    obtain ⟨current, -, h⟩ := ok_of_bind h
    split at h
    · obtain ⟨previous, -, h⟩ := ok_of_bind h
      split at h
      · cases h
      next hne =>
        obtain ⟨key, -, h⟩ := ok_of_bind h
        obtain rfl := Except.ok.inj h
        exact ⟨by simpa [versionedRegistry] using Ne.symm hne,
          fun _ => ⟨current, List.lookup_cons_self⟩⟩
    · obtain rfl := Except.ok.inj h
      exact ⟨by simp [versionedRegistry], fun _ => ⟨current, List.lookup_cons_self⟩⟩
  next => cases h

theorem wellformed_of_buildLegacy {env : RegistryEnv} (h : buildLegacy env = .ok registry) :
    registry.Wellformed := by
  unfold buildLegacy at h
  split at h
  next =>
    obtain ⟨current, -, h⟩ := ok_of_bind h
    obtain rfl := Except.ok.inj h
    exact ⟨List.nodup_nil, fun hmode => by cases hmode⟩
  next => cases h

/-- **Every registry that is built is well-formed.** -/
theorem wellformed_of_buildRegistry {env : RegistryEnv} (h : buildRegistry node env = .ok registry) :
    registry.Wellformed := by
  unfold buildRegistry at h
  split at h
  · exact wellformed_of_buildRing h
  · split at h
    · exact wellformed_of_buildPair h
    · exact wellformed_of_buildLegacy h


/-! ### Labels -/

theorem versionPrefix?_of_colon_not_mem {value : String} (h : ':' ∉ value.toList) :
    versionPrefix? value = none := by
  unfold versionPrefix?
  split
  next cs hcs =>
    split
    next d ds payload _ hdrop =>
      have hmem : ':' ∈ cs := (List.dropWhile_sublist _).subset (hdrop ▸ List.mem_cons_self)
      exact absurd (hcs ▸ List.mem_cons_of_mem _ hmem) h
    next => rfl
  next => rfl

/-- A label of digits is recognized. -/
theorem versionPrefix?_label {label : String} (hne : label ≠ "")
    (hdigits : ∀ c ∈ label.toList, c.isDigit = true) (payload : String) :
    versionPrefix? ("v" ++ label ++ ":" ++ payload) = some (label, payload) := by
  obtain ⟨d, ds, hds⟩ : ∃ d ds, label.toList = d :: ds :=
    List.exists_cons_of_ne_nil fun h => hne (String.toList_eq_nil_iff.mp h)
  have htake : (label.toList ++ ':' :: payload.toList).takeWhile Char.isDigit = label.toList := by
    rw [List.takeWhile_append_of_pos hdigits]
    simp [show ':'.isDigit = false by decide]
  have hdrop : (label.toList ++ ':' :: payload.toList).dropWhile Char.isDigit =
      ':' :: payload.toList := by
    rw [List.dropWhile_append_of_pos hdigits]
    simp [show ':'.isDigit = false by decide]
  have hlist : ("v" ++ label ++ ":" ++ payload).toList = 'v' :: (label.toList ++ ':' :: payload.toList) := by
    simp [String.toList_append]
  have hlabel : String.ofList (d :: ds) = label := by rw [← hds, String.ofList_toList]
  simp only [versionPrefix?, hlist, htake, hdrop]
  rw [hds]
  simp only [hlabel, String.ofList_toList]

/-- A label with anything but digits in it is not. -/
theorem versionPrefix?_eq_none {label : String} (hcolon : ':' ∉ label.toList)
    (hdigit : ∃ c ∈ label.toList, c.isDigit = false) (payload : String) :
    versionPrefix? ("v" ++ label ++ ":" ++ payload) = none := by
  obtain ⟨c, hc, hdigit⟩ := hdigit
  -- what follows the digits starts inside the label
  obtain ⟨d, ds, hds⟩ : ∃ d ds, label.toList.dropWhile Char.isDigit = d :: ds := by
    refine List.exists_cons_of_ne_nil fun h => ?_
    rw [List.dropWhile_eq_nil_iff.mp h c hc] at hdigit
    cases hdigit
  have hd : d ≠ ':' := by
    rintro rfl
    exact hcolon ((List.dropWhile_sublist _).subset (hds ▸ List.mem_cons_self))
  have hdrop : (label.toList ++ ':' :: payload.toList).dropWhile Char.isDigit =
      d :: (ds ++ ':' :: payload.toList) := by
    rw [List.dropWhile_append, hds]
    rfl
  have hlist : ("v" ++ label ++ ":" ++ payload).toList = 'v' :: (label.toList ++ ':' :: payload.toList) := by
    simp [String.toList_append]
  simp only [versionPrefix?, hlist, hdrop]
  split
  next heq => exact absurd (List.cons.inj heq).1 hd
  next => rfl


/-! ### Decryption -/

/-- **`decrypt` tries exactly the keys of the registry**, whatever the label says. -/
theorem mem_candidateKeys (hr : registry.Wellformed) (version : Option ℕ) {key : Key} :
    key ∈ candidateKeys registry version ↔ registry.HasKey key := by
  unfold candidateKeys KeyRegistry.HasKey
  cases registry.mode with
  | legacy => simp
  | versioned =>
    constructor
    · intro h
      obtain ⟨v, -, hv⟩ := List.mem_filterMap.mp h
      exact ⟨v, mem_of_lookup hv⟩
    · rintro ⟨v, hv⟩
      refine List.mem_filterMap.mpr ⟨v, ?_, lookup_of_mem hr.nodup hv⟩
      have hmem : v ∈ registry.keys.map (·.1) := List.mem_map.mpr ⟨_, hv, rfl⟩
      rw [candidateVersions, List.mem_eraseDups]
      exact List.mem_append_right _ (List.mem_cons_of_mem _ (List.mem_mergeSort.mpr hmem))

/-- A payload is read with its key. -/
theorem decrypt_of_hasKey (hr : registry.Wellformed) {ciphertext p : String} {key : Key}
    {iv : List UInt8} (hpayload : payloadOf ciphertext = node.encipher key iv p)
    (hkey : registry.HasKey key) : decrypt node registry ciphertext = .ok p := by
  have hfind : (candidateKeys registry (getCiphertextKeyVersion node ciphertext)).findSome?
      (fun key => node.decipher key (payloadOf ciphertext)) = some p := by
    rw [hpayload]
    have hmem := (mem_candidateKeys hr (getCiphertextKeyVersion node ciphertext)).mpr hkey
    generalize candidateKeys registry (getCiphertextKeyVersion node ciphertext) = keys at hmem
    induction keys with
    | nil => cases hmem
    | cons k keys ih =>
      rw [List.findSome?_cons]
      by_cases hk : k = key
      · rw [hk, node.decipher_encipher]
      · rw [node.decipher_of_ne key k iv p hk]
        exact ih ((List.mem_cons.mp hmem).resolve_left fun h => hk h.symm)
  simp only [decrypt, hfind]

/-- A payload that every key of the registry rejects is not read. -/
theorem decrypt_of_rejected {ciphertext : String}
    (h : ∀ key ∈ candidateKeys registry (getCiphertextKeyVersion node ciphertext),
      node.decipher key (payloadOf ciphertext) = none) :
    ∃ e, decrypt node registry ciphertext = .error e := by
  simp only [decrypt, List.findSome?_eq_none_iff.mpr h]
  exact ⟨_, rfl⟩

theorem encryptedTransformerFrom_of_error {ciphertext : String} {e : Exc}
    (h : decrypt node registry ciphertext = .error e) :
    encryptedTransformerFrom node registry (some ciphertext) = some ciphertext := by
  simp only [encryptedTransformerFrom, Option.map_some, h]

/-! ### Two configurations -/

/-- What one registry writes, the other one reads when it has the key, and rejects otherwise. -/
def ReadAcross (node : Node) (registry₁ registry₂ : KeyRegistry) (iv : List UInt8)
    (plaintext : String) : Prop :=
  ∃ key ciphertext, encryptionKey registry₁ = some key ∧
    encrypt node registry₁ iv plaintext = .ok ciphertext ∧
    (registry₂.HasKey key → decrypt node registry₂ ciphertext = .ok plaintext) ∧
    (¬ registry₂.HasKey key → (∃ e, decrypt node registry₂ ciphertext = .error e) ∧
      encryptedTransformerFrom node registry₂ (some ciphertext) = some ciphertext)

/-- The registry labels what it encrypts, if at all, with digits. -/
def KeyRegistry.LabelsInDigits (registry : KeyRegistry) : Prop :=
  registry.mode = .versioned → registry.activeVersion < 10 ^ 21

instance (registry : KeyRegistry) : Decidable registry.LabelsInDigits :=
  inferInstanceAs (Decidable (_ → _))

variable (node) in
/-- What a registry writes: a payload, bare or under the label of the active version. -/
theorem encrypt_cases (hr : registry.Wellformed) (iv : List UInt8) (p : String) :
    ∃ key ciphertext, encryptionKey registry = some key ∧
      encrypt node registry iv p = .ok ciphertext ∧
      (registry.LabelsInDigits → payloadOf ciphertext = node.encipher key iv p) ∧
      (¬ registry.LabelsInDigits → ∀ key', node.decipher key' (payloadOf ciphertext) = none) := by
  cases hmode : registry.mode with
  | legacy =>
    have hcolon := node.colon_not_mem registry.legacyCurrent iv p
    refine ⟨registry.legacyCurrent, node.encipher registry.legacyCurrent iv p, by
      simp [encryptionKey, hmode], by simp [encrypt, encryptionKey, hmode], fun _ => ?_, fun h => ?_⟩
    · rw [payloadOf, versionPrefix?_of_colon_not_mem hcolon]
      rfl
    · exact absurd (fun hversioned => by rw [hmode] at hversioned; cases hversioned) h
  | versioned =>
    obtain ⟨key, hkey⟩ := hr.active hmode
    refine ⟨key, "v" ++ node.toText registry.activeVersion ++ ":" ++ node.encipher key iv p, by
      simp [encryptionKey, hmode, hkey], by simp [encrypt, encryptionKey, hmode, hkey],
      fun h => ?_, fun h key' => ?_⟩
    · obtain ⟨hne, hdigits⟩ := node.toText_digits _ (h hmode)
      rw [payloadOf, versionPrefix?_label hne hdigits]
      rfl
    · have hlarge : 10 ^ 21 ≤ registry.activeVersion :=
        not_lt.mp fun hlt => h fun _ => hlt
      obtain ⟨hcolon, hdigit⟩ := node.toText_exponent _ hlarge
      rw [payloadOf, versionPrefix?_eq_none hcolon hdigit]
      exact node.decipher_labelled ..

/-- **A ciphertext is read across configurations exactly when** the writing registry labels in
digits, or the reading one does not have the key. -/
theorem readAcross_iff (node : Node) {env₁ env₂ : RegistryEnv} {registry₁ registry₂ : KeyRegistry}
    (h₁ : buildRegistry node env₁ = .ok registry₁) (h₂ : buildRegistry node env₂ = .ok registry₂)
    (iv : List UInt8) (plaintext : String) :
    ReadAcross node registry₁ registry₂ iv plaintext ↔
      registry₁.LabelsInDigits ∨ ∀ key ∈ encryptionKey registry₁, ¬ registry₂.HasKey key := by
  have hr₂ := wellformed_of_buildRegistry h₂
  obtain ⟨key, c, hkey, hc, hpayload, hrejected⟩ :=
    encrypt_cases node (wellformed_of_buildRegistry h₁) iv plaintext
  constructor
  · rintro ⟨key', c', hkey', hc', hread, -⟩
    rw [hkey] at hkey'
    rw [hc] at hc'
    cases hkey'
    cases hc'
    by_contra hnot
    obtain ⟨hdigits, hhas⟩ := not_or.mp hnot
    have hhas : registry₂.HasKey key := by
      by_contra hlacks
      exact hhas fun k hk => by rwa [← Option.some.inj (hkey.symm.trans hk)]
    obtain ⟨e, he⟩ : ∃ e, decrypt node registry₂ c = .error e :=
      decrypt_of_rejected fun k _ => hrejected hdigits k
    rw [hread hhas] at he
    cases he
  · intro hcond
    refine ⟨key, c, hkey, hc, fun hhas => ?_, fun hlacks => ?_⟩
    · have hdigits : registry₁.LabelsInDigits := hcond.resolve_right fun h => h key hkey hhas
      exact decrypt_of_hasKey hr₂ (hpayload hdigits) hhas
    · have herror : ∃ e, decrypt node registry₂ c = .error e := by
        refine decrypt_of_rejected fun k hk => ?_
        by_cases hdigits : registry₁.LabelsInDigits
        · rw [hpayload hdigits]
          refine node.decipher_of_ne _ _ _ _ ?_
          rintro rfl
          exact hlacks ((mem_candidateKeys hr₂ _).mp hk)
        · exact hrejected hdigits k
      obtain ⟨e, he⟩ := herror
      exact ⟨⟨e, he⟩, encryptedTransformerFrom_of_error he⟩


end

/-! ### A small runtime -/

namespace Sample

/-- The text of a key: a letter for each byte, and a terminator. -/
def keyText (key : Key) : List Char := key.map fun b => Char.ofNat (b.toNat + 256)

theorem toNat_keyLetter (b : UInt8) : (Char.ofNat (b.toNat + 256)).toNat = b.toNat + 256 := by
  have hall : ∀ n < 256, (Char.ofNat (n + 256)).toNat = n + 256 := by decide +kernel
  exact hall b.toNat b.toNat_lt

theorem keyText_injective : Function.Injective keyText := by
  refine List.map_injective_iff.mpr fun b b' h => ?_
  have hnat := congrArg Char.toNat h
  simp only [toNat_keyLetter, Nat.add_right_cancel_iff] at hnat
  exact UInt8.toNat_inj.mp hnat

theorem le_of_mem_keyText {key : Key} {c : Char} (h : c ∈ keyText key) : 256 ≤ c.toNat := by
  obtain ⟨b, -, rfl⟩ := List.mem_map.mp h
  rw [toNat_keyLetter]
  omega

/-- A plaintext without colons. -/
def escape : List Char → List Char
  | [] => []
  | ':' :: cs => '%' :: 'c' :: escape cs
  | '%' :: cs => '%' :: 'p' :: escape cs
  | c :: cs => c :: escape cs

/-- The plaintext back. -/
def unescape : List Char → List Char
  | '%' :: 'c' :: cs => ':' :: unescape cs
  | '%' :: 'p' :: cs => '%' :: unescape cs
  | c :: cs => c :: unescape cs
  | [] => []

theorem unescape_escape (cs : List Char) : unescape (escape cs) = cs := by
  fun_induction escape cs with
  | case1 => rfl
  | case2 cs ih => rw [unescape, ih]
  | case3 cs ih => rw [unescape, ih]
  | case4 c cs hcolon hpercent ih =>
    rw [unescape, ih]
    · rintro _ rfl
      exact absurd rfl hpercent
    · rintro _ rfl
      exact absurd rfl hpercent

theorem colon_not_mem_escape (cs : List Char) : ':' ∉ escape cs := by
  fun_induction escape cs <;> simp_all [eq_comm]

/-- The text of the key, and then the plaintext. -/
def encipher (key : Key) (plaintext : String) : String :=
  String.ofList (keyText key ++ ';' :: escape plaintext.toList)

/-- The plaintext after the text of the key. -/
def decipher (key : Key) (payload : String) : Option String :=
  if payload.toList.takeWhile (· != ';') = keyText key then
    some (String.ofList (unescape ((payload.toList.dropWhile (· != ';')).drop 1)))
  else none

theorem semicolon_not_mem_keyText {key : Key} : ∀ c ∈ keyText key, (c != ';') = true := by
  intro c hc
  rw [bne_iff_ne]
  rintro rfl
  exact absurd (le_of_mem_keyText hc) (by decide)

theorem decipher_encipher (key key' : Key) (p : String) :
    decipher key' (encipher key p) = if key = key' then some p else none := by
  have htake : (keyText key ++ ';' :: escape p.toList).takeWhile (· != ';') = keyText key := by
    rw [List.takeWhile_append_of_pos semicolon_not_mem_keyText]
    simp
  have hdrop : ((keyText key ++ ';' :: escape p.toList).dropWhile (· != ';')).drop 1 =
      escape p.toList := by
    rw [List.dropWhile_append_of_pos semicolon_not_mem_keyText]
    simp
  simp only [decipher, encipher, String.toList_ofList, htake, hdrop, unescape_escape,
    String.ofList_toList, keyText_injective.eq_iff]

theorem decipher_labelled (key key' : Key) (p label : String) :
    decipher key' ("v" ++ label ++ ":" ++ encipher key p) = none := by
  refine if_neg fun h => ?_
  have hlist : ("v" ++ label ++ ":" ++ encipher key p).toList =
      'v' :: (label ++ ":" ++ encipher key p).toList := by
    simp [String.toList_append]
  rw [hlist, List.takeWhile_cons_of_pos (by decide)] at h
  have hv : 'v' ∈ keyText key' := h ▸ List.mem_cons_self
  exact absurd (le_of_mem_keyText hv) (by decide)

theorem colon_not_mem_encipher (key : Key) (p : String) : ':' ∉ (encipher key p).toList := by
  simp only [encipher, String.toList_ofList, List.mem_append, List.mem_cons, not_or]
  exact ⟨fun h => absurd (le_of_mem_keyText h) (by decide), by decide, colon_not_mem_escape _⟩

/-- `Number(s)` on digits below `10 ^ 21`, and on `1e21` in both spellings. -/
def toNumber (s : String) : Option ℕ :=
  if s = "1e21" ∨ s = "1e+21" then some (10 ^ 21)
  else (Decimal.digitsVal? 0 s.toList).filter (· < 10 ^ 21)

/-- The digits of a number below `10 ^ 21`. -/
def toText (n : ℕ) : String :=
  if n < 10 ^ 21 then String.ofList (Decimal.fixedDigits (Nat.log 10 n + 1) n) else "1e+21"

theorem isDigit_of_mem_toText {n : ℕ} (hn : n < 10 ^ 21) {c : Char} (h : c ∈ (toText n).toList) :
    c.isDigit = true := by
  rw [toText, if_pos hn, String.toList_ofList] at h
  exact Decimal.isDigit_of_mem_fixedDigits h

theorem toNumber_toText {n : ℕ} (hn : n ≤ 10 ^ 21) : toNumber (toText n) = some n := by
  rcases hn.lt_or_eq with hlt | rfl
  · have hne : ¬ (toText n = "1e21" ∨ toText n = "1e+21") := by
      rintro (h | h) <;>
        exact absurd (isDigit_of_mem_toText (c := 'e') hlt (by rw [h]; decide)) (by decide)
    have hval : Decimal.digitsVal? 0 (toText n).toList = some n := by
      rw [toText, if_pos hlt, String.toList_ofList, Decimal.digitsVal?_fixedDigits,
        Nat.mod_eq_of_lt (Nat.lt_pow_succ_log_self (by decide) n)]
    rw [toNumber, if_neg hne, hval, Option.filter_some, if_pos (by simpa using hlt)]
  · decide +kernel

theorem le_of_toNumber {s : String} {n : ℕ} (h : toNumber s = some n) : n ≤ 10 ^ 21 := by
  unfold toNumber at h
  split at h
  · rw [← Option.some.inj h]
  · exact (of_decide_eq_true (Option.filter_eq_some_iff.mp h).2).le

/-- A runtime with a readable cipher, and no JSON. -/
def node : Node where
  jsonEntries _ := none
  toNumber
  toText
  pred n := n - 1
  encipher key _ := encipher key
  decipher
  toText_digits n hn := by
    refine ⟨fun h => ?_, fun c => isDigit_of_mem_toText hn⟩
    rw [toText, if_pos hn] at h
    have hlength := congrArg (fun s : String => s.toList.length) h
    simp at hlength
  toText_exponent n hn := by
    rw [toText, if_neg (not_lt.mpr hn)]
    exact ⟨by decide, 'e', by decide, by decide⟩
  toNumber_toText s n h := toNumber_toText (le_of_toNumber h)
  decipher_encipher key _ p := by rw [decipher_encipher, if_pos rfl]
  decipher_of_ne key key' _ p h := by rw [decipher_encipher, if_neg h.symm]
  decipher_labelled key key' _ := decipher_labelled key key'
  colon_not_mem key _ := colon_not_mem_encipher key

/-- A key under a version. -/
def keyEnv (version : String) : RegistryEnv where
  currentEnv := some "1111111111111111111111111111111111111111111111111111111111111111"
  currentVersionEnv := some version

/-- The registry of `keyEnv`. -/
def keyRegistry (version : ℕ) : KeyRegistry :=
  versionedRegistry [(version, List.replicate 32 17)] version (List.replicate 32 17)

end Sample

/-- Version 2 reads what it has written. -/
theorem readAcross_sample :
    ReadAcross Sample.node (Sample.keyRegistry 2) (Sample.keyRegistry 2) [] "p" :=
  have hbuild : buildRegistry Sample.node (Sample.keyEnv "2") = .ok (Sample.keyRegistry 2) := by
    decide +kernel
  (readAcross_iff Sample.node hbuild hbuild [] "p").mpr (.inl (by decide))

/-- Version `1e21` does not read what it has written. -/
theorem not_readAcross :
    buildRegistry Sample.node (Sample.keyEnv "1e21") = .ok (Sample.keyRegistry (10 ^ 21)) ∧
      ¬ ReadAcross Sample.node (Sample.keyRegistry (10 ^ 21)) (Sample.keyRegistry (10 ^ 21)) [] "p" := by
  refine ⟨by decide +kernel, ?_⟩
  rintro ⟨key, c, hkey, hc, hread, -⟩
  have hhas : (Sample.keyRegistry (10 ^ 21)).HasKey key :=
    ⟨10 ^ 21, mem_of_lookup (by simpa [encryptionKey, Sample.keyRegistry, versionedRegistry] using hkey)⟩
  have hfails : (encrypt Sample.node (Sample.keyRegistry (10 ^ 21)) [] "p").bind
      (decrypt Sample.node (Sample.keyRegistry (10 ^ 21))) ≠ .ok "p" := by decide +kernel
  rw [hc] at hfails
  exact hfails (hread hhas)

end Ahjoor
