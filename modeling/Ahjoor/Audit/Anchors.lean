import Ahjoor.Audit.AuditAnchorService

/-!
# Anchors on the ledger

The hash is written as the bytes of its text and read as the hexadecimal digits of these bytes, twice
as many characters. So an anchor never verifies, and the comparison of an unchanged head with its
anchor on the ledger warns of a mismatch.
-/

namespace Ahjoor.Audit

section Verifying

variable {Ledger : Type} (network : Network Ledger) (config : Config)

/-! ### What is claimed -/

/-- What is submitted has a hash, and can be loaded under it. -/
def Network.Recorded : Prop :=
  ∀ secret operations ledger txHash ledger',
    network.submitTransaction secret operations ledger = (.ok txHash, ledger') →
      txHash ≠ "" ∧ network.loadTransaction ledger' txHash = .ok (some operations)

/-- **The anchor verifies**: the hash that is anchored by the transaction is found in it, and no other
hash is. -/
def Verifies (chainId headHash txHash : String) (ledger : Ledger) : Prop :=
  verifyStellarAnchor network config txHash chainId headHash ledger = true ∧
    ∀ other, other ≠ headHash →
      verifyStellarAnchor network config txHash chainId other ledger = false

/-- **An alarm means a change**: where the last anchor of the chain is the one on the ledger,
`verifyLatestAnchor` reports a mismatch only if the head has another hash than the anchored one. -/
def AlarmsOnChange (chainId chainPartition headHash txHash : String) (ledger : Ledger) : Prop :=
  ∀ (w : World Ledger) (row : AuditLog) (anchor : AuditAnchor) (v : Verification),
    w.ledger = ledger →
    chainHead (some chainId) chainPartition w.rows = .ok (chainId, some row) →
    latestAnchor chainId chainPartition w.anchors = some anchor →
    anchor.anchorType = "STELLAR" → anchor.stellarTxHash = some txHash →
    anchor.chainHeadHash = headHash →
    verifyLatestAnchor network config (some chainId) chainPartition w = .ok v → v.ok = false →
      row.hash ≠ some headHash

/-! ### Bytes and digits -/

theorem length_hex (bytes : List UInt8) : (hex bytes).toList.length = 2 * bytes.length := by
  rw [hex, String.toList_ofList]
  induction bytes with
  | nil => rfl
  | cons b bytes ih =>
    rw [List.flatMap_cons, List.length_append, ih, List.length_cons, List.length_cons, List.length_cons,
      List.length_nil]
    omega

/-- A text has no more characters than bytes. -/
theorem length_le_utf8 (text : String) : text.toList.length ≤ (utf8 text).length := by
  rw [utf8]
  induction text.toList with
  | nil => exact le_rfl
  | cons c cs ih =>
    have hc : 0 < (String.utf8EncodeChar c).length :=
      List.length_pos_iff.mpr String.utf8EncodeChar_ne_nil
    rw [List.flatMap_cons, List.length_append, List.length_cons]
    omega

/-- **The round trip** fails for every text but the empty one. -/
theorem hex_utf8_ne {text : String} (h : text ≠ "") : hex (utf8 text) ≠ text := by
  intro heq
  have hlength := length_hex (utf8 text)
  rw [heq] at hlength
  have hle := length_le_utf8 text
  have hnil : text.toList = [] := List.eq_nil_of_length_eq_zero (by omega)
  exact h (String.toList_eq_nil_iff.mp hnil)

/-! ### No anchor verifies -/

variable {network config}

/-- The transaction of an anchor. -/
theorem recorded_of_anchorOnStellar (hrecorded : network.Recorded)
    {chainId headHash txHash : String} {ledger ledger' : Ledger}
    (hanchored : anchorOnStellar network config chainId headHash ledger = (.ok txHash, ledger')) :
    config.rpcUrl.isSome ∧ txHash ≠ "" ∧ network.loadTransaction ledger' txHash =
      .ok (some [.manageData (dataName chainId) (utf8 headHash)]) := by
  rw [anchorOnStellar] at hanchored
  split at hanchored
  · cases hanchored
  · cases hanchored
  · rename_i hrpc _
    exact ⟨by rw [hrpc]; rfl, hrecorded _ _ _ _ _ hanchored⟩

/-- **An anchor that has been submitted** is there, and is not recognised. -/
theorem verifyStellarAnchor_eq_false (hrecorded : network.Recorded) {chainId headHash txHash : String}
    {ledger ledger' : Ledger} (hne : headHash ≠ "")
    (hanchored : anchorOnStellar network config chainId headHash ledger = (.ok txHash, ledger')) :
    verifyStellarAnchor network config txHash chainId headHash ledger' = false := by
  obtain ⟨hrpc, -, hload⟩ := recorded_of_anchorOnStellar hrecorded hanchored
  obtain ⟨url, hurl⟩ := Option.isSome_iff_exists.mp hrpc
  rw [verifyStellarAnchor, hurl, hload]
  simp only [findsAnchor, hex_utf8_ne hne, decide_false, Bool.and_false, Bool.or_false]

/-- The warning. -/
theorem verifyAnchor_of_eq_false {chainId headHash txHash : String} {anchor : AuditAnchor}
    {ledger : Ledger} (hstellar : anchor.onStellar = some txHash)
    (hverify : verifyStellarAnchor network config txHash chainId headHash ledger = false) :
    verifyAnchor network config chainId headHash anchor ledger =
      found headHash anchor false
        "Stellar anchor mismatch WARNING: Stellar anchor mismatch on-chain!" := by
  rw [verifyAnchor, hstellar]
  simp only [hverify, Bool.false_eq_true, if_false]

/-- A table of one row, and one anchor of it. -/
def oneAnchored (chainId chainPartition headHash txHash : String) (ledger : Ledger) : World Ledger where
  rows := [{ id := "row", action := "LOGIN", resource := "auth", timestamp := 0, hash := some headHash
             chainId := some chainId, chainPartition := some chainPartition }]
  anchors := [{ id := "anchor", chainId, chainPartition, chainHeadHash := headHash
                anchorType := "STELLAR", stellarTxHash := some txHash, payload := .null, sequence := 1 }]
  ledger

/-- **A false alarm**: the head is the one that has been anchored. -/
theorem not_alarmsOnChange {chainId chainPartition headHash txHash : String} {ledger : Ledger}
    (hne : headHash ≠ "") (htxHash : txHash ≠ "")
    (hverify : verifyStellarAnchor network config txHash chainId headHash ledger = false) :
    ¬ AlarmsOnChange network config chainId chainPartition headHash txHash ledger := by
  intro halarms
  let w := oneAnchored chainId chainPartition headHash txHash ledger
  have hhead : chainHead (some chainId) chainPartition w.rows =
      .ok (chainId, some (w.rows.head (List.cons_ne_nil _ _))) := by
    simp [w, oneAnchored, chainHead, AuditLog.isIn, pure, Except.pure, bind, Except.bind]
  have hlatest : latestAnchor chainId chainPartition w.anchors =
      some (w.anchors.head (List.cons_ne_nil _ _)) := by
    simp [w, oneAnchored, latestAnchor]
  have hanchor : (w.anchors.head (List.cons_ne_nil _ _)).onStellar = some txHash := by
    exact nonEmpty_of_ne htxHash
  have hresult : verifyLatestAnchor network config (some chainId) chainPartition w =
      .ok (verifyAnchor network config chainId headHash (w.anchors.head (List.cons_ne_nil _ _))
        ledger) := by
    have hhash : nonEmpty (w.rows.head (List.cons_ne_nil _ _)).hash = some headHash :=
      nonEmpty_of_ne hne
    simp only [verifyLatestAnchor, hhead, hlatest, bind, Except.bind, Option.bind_some, hhash]
    rfl
  refine halarms w _ _ _ rfl hhead hlatest rfl rfl rfl hresult ?_ rfl
  rw [verifyAnchor_of_eq_false hanchor hverify]
  rfl

/-- **No anchor verifies**, and each can raise a false alarm. -/
theorem not_verifies (hrecorded : network.Recorded)
    {chainId headHash txHash : String} {ledger ledger' : Ledger} (hne : headHash ≠ "")
    (hanchored : anchorOnStellar network config chainId headHash ledger = (.ok txHash, ledger'))
    (chainPartition : String) :
    ¬ Verifies network config chainId headHash txHash ledger' ∧
      ¬ AlarmsOnChange network config chainId chainPartition headHash txHash ledger' := by
  have hverify := verifyStellarAnchor_eq_false hrecorded hne hanchored
  obtain ⟨-, htxHash, -⟩ := recorded_of_anchorOnStellar hrecorded hanchored
  refine ⟨fun h => ?_, not_alarmsOnChange hne htxHash hverify⟩
  rw [Verifies, hverify] at h
  exact absurd h.1 Bool.false_ne_true

end Verifying

/-! ### A hash that is anchored -/

/-- A ledger that shows its last transaction. -/
def lastTransaction : Network (Option (List Operation)) where
  submitTransaction := fun _ operations _ => (.ok "9a1f", some operations)
  loadTransaction := fun ledger txHash => .ok (if txHash = "9a1f" then ledger else none)

theorem recorded_lastTransaction : lastTransaction.Recorded := by
  intro secret operations ledger txHash ledger' h
  cases h
  exact ⟨by decide, rfl⟩

/-- A URL and a secret. -/
def configured : Config where
  stellarRpcUrl := some "https://soroban-testnet.stellar.org"
  auditAnchorStellarSecret := some "secret"

/-- The digest of the empty text. -/
def emptyDigest : String := "e3b0c44298fc1c149afbf4c8996fb92427ae41e4649b934ca495991b7852b855"

/-- What the ledger shows after the digest has been anchored. -/
def anchoredLedger : Option (List Operation) :=
  some [.manageData "audit_anchor_chain" (utf8 emptyDigest)]

theorem not_verifies_emptyDigest :
    ¬ Verifies lastTransaction configured "chain" emptyDigest "9a1f" anchoredLedger ∧
      ¬ AlarmsOnChange lastTransaction configured "chain" "GLOBAL" emptyDigest "9a1f"
        anchoredLedger := by
  have hanchored : anchorOnStellar lastTransaction configured "chain" emptyDigest none =
      (.ok "9a1f", anchoredLedger) := rfl
  exact not_verifies recorded_lastTransaction (by decide) hanchored "GLOBAL"

/-- **The hash that has been anchored is not found**. -/
theorem not_forall_verifies :
    ¬ ∀ (chainId headHash txHash : String) (ledger : Option (List Operation)),
      anchorOnStellar lastTransaction configured chainId headHash none = (.ok txHash, ledger) →
        Verifies lastTransaction configured chainId headHash txHash ledger := by
  intro h
  have hfound := (h "chain" emptyDigest "9a1f" _ rfl).1
  exact absurd hfound (by decide +kernel)

end Ahjoor.Audit
