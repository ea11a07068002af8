import Ahjoor.Stellar.Envelope

/-!
# Challenges and signed envelopes

The text that a wallet is asked to sign, the nonce that is read off such a text, and what the Stellar
SDK makes of an envelope. A nonce survives the way through the text.
-/

namespace Ahjoor.StellarAuth

/-! ### Challenges -/

/-- The text of a challenge. -/
def challengeText (walletAddress nonce : String) (timestamp : ℤ) : String :=
  "Sign this message to authenticate with Cheese Platform.\n\nWallet: " ++ walletAddress ++
    "\nNonce: " ++ nonce ++ "\nTimestamp: " ++ toString timestamp

/-- What comes after `\nNonce:`, in upper or lower case, at the beginning. -/
def afterLabel : List Char → Option (List Char)
  | '\n' :: n :: o :: n' :: c :: e :: ':' :: rest =>
      if [n, o, n', c, e].map Char.toLower = ['n', 'o', 'n', 'c', 'e'] then some rest else none
  | _ => none

/-- The group of `\s*([^\n]+)` at the beginning: if there are only spaces, the last of them that is
no line feed is given back. -/
def firstLine (cs : List Char) : Option (List Char) :=
  match cs.dropWhile isSpace with
  | [] => (cs.reverse.find? (· ≠ '\n')).map fun c => [c]
  | after => some (after.takeWhile (· ≠ '\n'))

/-- The group of the first match of `/\nNonce:\s*([^\n]+)/i`. -/
def matchNonce : List Char → Option (List Char)
  | [] => none
  | c :: cs =>
      match (afterLabel (c :: cs)).bind firstLine with
      | some group => some group
      | none => matchNonce cs

/-- `s.trim()`. -/
def trim (cs : List Char) : List Char :=
  ((cs.dropWhile isSpace).reverse.dropWhile isSpace).reverse

/-- `extractNonceFromChallenge(challenge)`, where it does not throw. -/
def extractNonceFromChallenge (challenge : String) : Option String :=
  (matchNonce challenge.toList).map fun group => String.ofList (trim group)

/-- What `crypto.randomBytes(32).toString('hex')` may be. -/
def isNonce (nonce : String) : Bool :=
  nonce.toList.length = 64 && nonce.toList.all fun c => c.isDigit || 'a' ≤ c && c ≤ 'f'

section Nonce

variable {cs : List Char}

/-- No label begins within the text, whatever follows it. -/
def unlabelled : List Char → Bool
  | [] => true
  | [c] => c ≠ '\n'
  | c :: d :: cs => (c ≠ '\n' || d.toLower ≠ 'n') && unlabelled (d :: cs)

theorem unlabelled_of_line {line : List Char} (hline : '\n' ∉ line) : unlabelled line = true := by
  induction line with
  | nil => rfl
  | cons c line ih =>
    have hc : c ≠ '\n' := fun h => hline (h ▸ List.mem_cons_self)
    have hrest := ih fun h => hline (List.mem_cons_of_mem c h)
    cases line with
    | nil => exact decide_eq_true hc
    | cons d line =>
      rw [unlabelled, hrest, decide_eq_true hc]
      rfl

theorem afterLabel_eq_none {c : Char} (h : ∀ d rest, cs = d :: rest → c = '\n' → d.toLower ≠ 'n') :
    afterLabel (c :: cs) = none := by
  unfold afterLabel
  split
  next n o n' c' e rest heq =>
    obtain ⟨hc, hcs⟩ := List.cons.inj heq
    split
    next hlabel => exact absurd (List.cons.inj hlabel).1 (h _ _ hcs hc)
    next => rfl
  next => rfl

/-- Such a text is passed over. -/
theorem matchNonce_append {text : List Char} (htext : unlabelled text = true) (cs : List Char) :
    matchNonce (text ++ cs) = matchNonce cs := by
  induction text with
  | nil => rfl
  | cons c text ih =>
    have hskip : unlabelled text = true → afterLabel (c :: (text ++ cs)) = none →
        matchNonce (c :: text ++ cs) = matchNonce cs := by
      intro hrest hnone
      rw [List.cons_append, matchNonce, hnone]
      exact ih hrest
    cases text with
    | nil =>
      have hc : c ≠ '\n' := of_decide_eq_true htext
      exact hskip rfl (afterLabel_eq_none fun _ _ _ h => absurd h hc)
    | cons d text =>
      obtain ⟨hfirst, hrest⟩ := Bool.and_eq_true_iff.mp htext
      refine hskip hrest (afterLabel_eq_none fun d' rest heq hc => ?_)
      obtain ⟨rfl, -⟩ := List.cons.inj heq
      rcases Bool.or_eq_true_iff.mp hfirst with hne | hne
      · exact absurd hc (of_decide_eq_true hne)
      · exact of_decide_eq_true hne

theorem not_isSpace_of_hex {c : Char} (hc : (c.isDigit || 'a' ≤ c && c ≤ 'f') = true) :
    isSpace c = false := by
  have hrange : 0x30 ≤ c.toNat ∧ c.toNat ≤ 0x39 ∨ 0x61 ≤ c.toNat ∧ c.toNat ≤ 0x66 := by
    simp only [Char.isDigit, Bool.or_eq_true, Bool.and_eq_true, decide_eq_true_eq, Char.le_def,
      UInt32.le_iff_toNat_le] at hc
    exact hc
  simp only [isSpace, Bool.or_eq_false_iff, Bool.and_eq_false_iff, decide_eq_false_iff_not,
    List.contains_eq_mem, List.mem_cons, List.not_mem_nil, or_false]
  omega

theorem trim_of_not_isSpace (h : ∀ c ∈ cs, isSpace c = false) : trim cs = cs := by
  have hdrop : ∀ {cs : List Char}, (∀ c ∈ cs, isSpace c = false) → cs.dropWhile isSpace = cs := by
    intro cs hcs
    cases cs with
    | nil => rfl
    | cons c cs => exact List.dropWhile_cons_of_neg (by rw [hcs c List.mem_cons_self]; exact nofun)
  rw [trim, hdrop h, hdrop fun c hc => h c (List.mem_reverse.mp hc), List.reverse_reverse]

/-- **The nonce is read back** from the text of a challenge. -/
theorem extractNonceFromChallenge_challengeText {walletAddress nonce : String}
    (hwallet : '\n' ∉ walletAddress.toList) (hnonce : isNonce nonce = true) (timestamp : ℤ) :
    extractNonceFromChallenge (challengeText walletAddress nonce timestamp) = some nonce := by
  have hspaces : ∀ c ∈ nonce.toList, isSpace c = false := fun c hc =>
    not_isSpace_of_hex (List.all_eq_true.mp (Bool.and_eq_true_iff.mp hnonce).2 c hc)
  have hlength : nonce.toList.length = 64 := of_decide_eq_true (Bool.and_eq_true_iff.mp hnonce).1
  generalize hn : nonce.toList = n at hspaces hlength
  have hlabelText : "\nNonce: ".toList = ['\n', 'N', 'o', 'n', 'c', 'e', ':', ' '] := by decide +kernel
  have hlineText : "\nTimestamp: ".toList = '\n' :: "Timestamp: ".toList := by decide +kernel
  have hheader : unlabelled
      "Sign this message to authenticate with Cheese Platform.\n\nWallet: ".toList = true := by
    decide +kernel
  obtain ⟨rest, hrest⟩ : ∃ rest, "\nTimestamp: ".toList ++ (toString timestamp).toList = '\n' :: rest := by
    rw [hlineText]
    exact ⟨_, List.cons_append⟩
  have htext : (challengeText walletAddress nonce timestamp).toList =
      "Sign this message to authenticate with Cheese Platform.\n\nWallet: ".toList ++
        (walletAddress.toList ++ (['\n', 'N', 'o', 'n', 'c', 'e', ':', ' '] ++ (n ++ '\n' :: rest))) := by
    unfold challengeText
    simp only [String.toList_append, List.append_assoc, hlabelText, hn, hrest]
  -- the line that begins with the label
  have hlabel : afterLabel ('\n' :: 'N' :: 'o' :: 'n' :: 'c' :: 'e' :: ':' :: ' ' :: (n ++ '\n' :: rest)) =
      some (' ' :: (n ++ '\n' :: rest)) := rfl
  have hline : firstLine (' ' :: (n ++ '\n' :: rest)) = some n := by
    obtain ⟨c, n, rfl⟩ := List.exists_cons_of_length_pos (by omega : 0 < n.length)
    have hc := hspaces c List.mem_cons_self
    have hdrop : (' ' :: (c :: n ++ '\n' :: rest)).dropWhile isSpace = c :: n ++ '\n' :: rest := by
      rw [List.dropWhile_cons_of_pos (by decide)]
      exact List.dropWhile_cons_of_neg (by rw [hc]; exact nofun)
    have hfeed : ∀ d ∈ c :: n, decide (d ≠ '\n') = true := by
      intro d hd
      refine decide_eq_true fun h => ?_
      have hspace := hspaces d hd
      rw [h] at hspace
      exact absurd hspace (by decide)
    rw [firstLine, hdrop]
    change some ((c :: n ++ '\n' :: rest).takeWhile _) = _
    rw [List.takeWhile_append_of_pos hfeed, List.takeWhile_cons_of_neg (by decide), List.append_nil]
  have hmatch : matchNonce (['\n', 'N', 'o', 'n', 'c', 'e', ':', ' '] ++ (n ++ '\n' :: rest)) = some n := by
    simp only [List.cons_append, List.nil_append]
    rw [matchNonce, hlabel, Option.bind_some, hline]
  rw [extractNonceFromChallenge, htext, matchNonce_append hheader,
    matchNonce_append (unlabelled_of_line hwallet), hmatch, Option.map_some,
    trim_of_not_isSpace hspaces, ← hn, String.ofList_toList]

end Nonce

/-! ### Envelopes -/

/-- What the signatures of a transaction cover: its time bounds, and everything else that it says. -/
structure TransactionBody where
  timeBounds : Option (ℤ × ℤ)
  content : List String
  deriving DecidableEq, Repr

/-- A signature with the hint of its key. -/
structure DecoratedSignature where
  hint : String
  signature : String
  deriving DecidableEq, Repr

/-- What an envelope is parsed into. -/
structure Transaction where
  body : TransactionBody
  signatures : List DecoratedSignature
  deriving DecidableEq, Repr

/-- The Stellar SDK, with the configured network. -/
structure Sdk where
  isValidEd25519PublicKey : String → Bool
  /-- the raw key, where `Keypair.fromPublicKey` does not throw -/
  fromPublicKey : String → Option String
  signatureHint : String → String
  /-- where `TransactionBuilder.fromXDR` does not throw -/
  fromXDR : String → Option Transaction
  hash : TransactionBody → String
  /-- `keyPair.verify(hash, signature)`, where it does not throw -/
  verify : String → String → String → Option Bool

variable (sdk : Sdk)

/-- The loop of `verifyEnvelopeSignature`, with its `catch`. -/
def verifySignatures (key hash : String) : List DecoratedSignature → Bool
  | [] => false
  | decorated :: rest =>
      if sdk.signatureHint key ≠ decorated.hint then verifySignatures key hash rest
      else
        match sdk.verify key hash decorated.signature with
        | some true => true
        | some false => verifySignatures key hash rest
        | none => false

/-- `verifyEnvelopeSignature(walletAddress, signedEnvelopeXdr)`. -/
def verifyEnvelopeSignature (walletAddress signedEnvelopeXdr : String) : Bool :=
  match sdk.fromPublicKey walletAddress, sdk.fromXDR signedEnvelopeXdr with
  | some key, some transaction =>
      verifySignatures sdk key (sdk.hash transaction.body) transaction.signatures
  | _, _ => false

/-- The seconds by which a clock may be off. -/
def TIMEBOUND_SKEW_SECONDS : ℤ := 30

/-- The time is within the time bounds. -/
def withinTimebounds (timeBounds : ℤ × ℤ) (now : ℤ) : Bool :=
  !(now / 1000 < timeBounds.1 - TIMEBOUND_SKEW_SECONDS ||
    timeBounds.2 + TIMEBOUND_SKEW_SECONDS < now / 1000)

theorem verify_of_verifySignatures {sdk : Sdk} {key hash : String} {signatures : List DecoratedSignature}
    (h : verifySignatures sdk key hash signatures = true) :
    ∃ decorated ∈ signatures, sdk.verify key hash decorated.signature = some true := by
  induction signatures with
  | nil => cases h
  | cons decorated rest ih =>
    have hrest : verifySignatures sdk key hash rest = true →
        ∃ d ∈ decorated :: rest, sdk.verify key hash d.signature = some true := by
      intro h
      obtain ⟨d, hd, hverify⟩ := ih h
      exact ⟨d, List.mem_cons_of_mem _ hd, hverify⟩
    rw [verifySignatures] at h
    split at h
    next => exact hrest h
    next =>
      split at h
      next hverify => exact ⟨decorated, List.mem_cons_self, hverify⟩
      next => exact hrest h
      next => cases h

/-- A signature that is accepted is one by the key of the wallet over the transaction. -/
theorem verify_of_verifyEnvelopeSignature {sdk : Sdk} {walletAddress signedEnvelopeXdr : String}
    (h : verifyEnvelopeSignature sdk walletAddress signedEnvelopeXdr = true) :
    ∃ key transaction, sdk.fromPublicKey walletAddress = some key ∧
      sdk.fromXDR signedEnvelopeXdr = some transaction ∧ ∃ decorated ∈ transaction.signatures,
        sdk.verify key (sdk.hash transaction.body) decorated.signature = some true := by
  unfold verifyEnvelopeSignature at h
  split at h
  next key transaction hkey htransaction =>
    exact ⟨key, transaction, hkey, htransaction, verify_of_verifySignatures h⟩
  next => cases h

end Ahjoor.StellarAuth
