import Ahjoor.Payouts.Protocol
import Mathlib.Data.List.TakeWhile

/-!
# What a hash of `disbursePayout` stands for

`disbursePayout` returns a hash; the payout records it and reports success. When every argument
of the contract call encodes, the hash is returned only after the call has been handed to the
network. Otherwise the operation is replaced by a plain object, of which no transaction can be
built, and the hash is made up. The amounts that the payout service passes are decimal numerals,
and `BigInt` refuses those with a point: among them all sums, which `toFixed(7)` has printed.
-/

namespace Ahjoor

open Async StellarService PayoutService

variable {sdk : Sdk} {cfg : Config} {contractAddress recipientWallet amount assetCode : String}
  {assetIssuer : Option String} {onBeforeSubmit : Option (String → Service PayoutTransaction Unit)}

/-! ### The amounts that are paid -/

/-- `/^\d+(\.\d+)?$/`, the format of a group's `contributionAmount`. -/
def isDecimalNumber (s : String) : Bool :=
  let ip := s.toList.takeWhile Char.isDigit
  match s.toList.dropWhile Char.isDigit with
  | [] => !ip.isEmpty
  | '.' :: fp => !ip.isEmpty && !fp.isEmpty && fp.all Char.isDigit
  | _ => false

/-- The amounts that `computePayoutAmount` can return. -/
def PayoutAmount (amount : String) : Prop :=
  ∃ (group : Group) (contributions : List Contribution),
    isDecimalNumber group.contributionAmount = true ∧ payoutAmount group contributions = .ok amount

/-- An amount is a sum in fixed notation, or the one that the group is configured with. -/
theorem PayoutAmount.cases (h : PayoutAmount amount) :
    (∃ total, amount = Decimal.toFixed 7 total) ∨ isDecimalNumber amount = true := by
  obtain ⟨group, contributions, hformat, hamount⟩ := h
  unfold payoutAmount at hamount
  split at hamount
  · obtain rfl := Except.ok.inj hamount
    exact .inr hformat
  · cases hsum : sumContributions 0 contributions with
    | error e => rw [hsum] at hamount; cases hamount
    | ok total =>
      rw [hsum] at hamount
      exact .inl ⟨total, (Except.ok.inj hamount).symm⟩

theorem digitsVal?_eq_none {cs : List Char} {c : Char} (hc : c ∈ cs) (hdigit : c.isDigit = false)
    (acc : ℕ) : Decimal.digitsVal? acc cs = none := by
  induction cs generalizing acc with
  | nil => cases hc
  | cons d cs ih =>
    rw [Decimal.digitsVal?]
    split
    next hd =>
      rcases List.mem_cons.mp hc with rfl | hc
      · rw [hdigit] at hd; cases hd
      · exact ih hc _
    next => rfl

theorem exists_digitsVal? {cs : List Char} (h : ∀ c ∈ cs, c.isDigit = true) (acc : ℕ) :
    ∃ n, Decimal.digitsVal? acc cs = some n := by
  induction cs generalizing acc with
  | nil => exact ⟨acc, rfl⟩
  | cons c cs ih =>
    rw [Decimal.digitsVal?, if_pos (h c List.mem_cons_self)]
    exact ih (fun d hd => h d (List.mem_cons_of_mem c hd)) _

/-- `BigInt` throws on a numeral with a decimal point. -/
theorem bigInt?_of_point (h : '.' ∈ amount.toList) : bigInt? amount = none := by
  unfold bigInt?
  split
  next c cs heq =>
    rw [heq] at h
    rw [digitsVal?_eq_none ((List.mem_cons.mp h).resolve_left (by decide)) (by decide)]
    rfl
  next c cs heq =>
    rw [heq] at h
    rw [digitsVal?_eq_none ((List.mem_cons.mp h).resolve_left (by decide)) (by decide)]
    rfl
  next => rw [digitsVal?_eq_none h (by decide)]; rfl

/-- An amount without a point is a string of digits, which `BigInt` reads. -/
theorem PayoutAmount.exists_bigInt? (h : PayoutAmount amount) (hpoint : '.' ∉ amount.toList) :
    ∃ n : ℕ, bigInt? amount = some (n : ℤ) := by
  have hformat : isDecimalNumber amount = true := h.cases.resolve_left fun ⟨total, htotal⟩ =>
    hpoint (htotal ▸ Decimal.point_mem_toFixed 7 total)
  have hsplit := List.takeWhile_append_dropWhile (p := Char.isDigit) (l := amount.toList)
  have hdigits : ∀ c ∈ amount.toList, c.isDigit = true := by
    unfold isDecimalNumber at hformat
    split at hformat
    next hdrop =>
      rw [hdrop, List.append_nil] at hsplit
      rw [← hsplit]
      exact fun c hc => List.mem_takeWhile_imp hc
    next fp hdrop =>
      rw [← hsplit, hdrop] at hpoint
      exact absurd (List.mem_append_right _ List.mem_cons_self) hpoint
    next => cases hformat
  obtain ⟨n, hn⟩ := exists_digitsVal? hdigits 0
  refine ⟨n, ?_⟩
  unfold bigInt?
  split
  next c cs heq => exact absurd (hdigits '-' (by rw [heq]; exact List.mem_cons_self)) (by decide)
  next c cs heq => exact absurd (hdigits '+' (by rw [heq]; exact List.mem_cons_self)) (by decide)
  next => rw [hn]; rfl

/-! ### Hashes and transactions -/

/-- The operation can give this reply. -/
def Possible (e : Entry Op.Ret) : Prop :=
  ∃ pid choice w w', exec e.1 pid choice w = some (e.2, w')

/-- A transaction whose operation pays exactly this amount to the recipient through the contract
was handed to `sendTransaction`. -/
def Disbursed (contractAddress recipientWallet amount : String) (L : Log Op.Ret) : Prop :=
  ∃ n i initial tx reply, ⟨.rpc n i initial (.sendTransaction tx), reply⟩ ∈ L ∧
    ∃ (units : ℤ) (asset : Asset), bigInt? amount = some units ∧
      tx.operation = .contractCall contractAddress "disburse_payout"
        [.address recipientWallet, .i128 units, .asset asset]

/-- Every execution of `disbursePayout` that returns a hash has disbursed the amount. -/
def HashMeansDisbursed (sdk : Sdk) (cfg : Config) (contractAddress recipientWallet amount : String)
    (onBeforeSubmit : Option (String → Service PayoutTransaction Unit))
    (assetCode assetIssuer : Option String) : Prop :=
  ∀ s hash t L,
    Ends Possible (disbursePayout sdk cfg contractAddress recipientWallet amount onBeforeSubmit
      assetCode assetIssuer s) [] (.ok hash, t) L →
    Disbursed contractAddress recipientWallet amount L

/-- The call is refused at once. -/
def Refused (cfg : Config) (contractAddress recipientWallet amount : String) : Prop :=
  contractAddress = "" ∨ recipientWallet = "" ∨ amount = "" ∨ ¬ cfg.Valid

instance : Decidable (Refused cfg contractAddress recipientWallet amount) :=
  inferInstanceAs (Decidable (_ ∨ _ ∨ _ ∨ _))

/-- The SDK takes the contract's address, the recipient's and the asset. -/
def Encodes (sdk : Sdk) (contractAddress recipientWallet assetCode : String)
    (assetIssuer : Option String) : Prop :=
  sdk.validContract contractAddress = true ∧ sdk.validAddress recipientWallet = true ∧
    ∃ asset, buildAsset sdk assetCode assetIssuer = .ok asset ∧ sdk.encodesAsset asset = true

/-- The amount has no decimal point and fits 128 bits. -/
def IntegerAmount (amount : String) : Prop :=
  '.' ∉ amount.toList ∧ ∀ n ∈ bigInt? amount, n < 2 ^ 127

/-- What the argument for the amount encodes. -/
theorem of_i128Val?_eq_some {v : ScVal} (h : Sdk.i128Val? amount = some v) :
    ∃ units, v = .i128 units ∧ bigInt? amount = some units ∧ units < 2 ^ 127 := by
  obtain ⟨units, hunits, hval⟩ := Option.bind_eq_some_iff.mp h
  split at hval
  next hfits =>
    obtain rfl := Option.some.inj hval
    exact ⟨units, rfl, hunits, hfits.2⟩
  next => cases hval

/-- The argument for the amount encodes exactly when it is an integer that fits. -/
theorem PayoutAmount.exists_i128Val? (h : PayoutAmount amount) :
    (∃ units, bigInt? amount = some units ∧ Sdk.i128Val? amount = some (.i128 units)) ↔
      IntegerAmount amount := by
  constructor
  · rintro ⟨units, hunits, hval⟩
    refine ⟨fun hpoint => ?_, fun n hn => ?_⟩
    · rw [bigInt?_of_point hpoint] at hunits
      cases hunits
    · obtain ⟨units', -, hunits', hlt⟩ := of_i128Val?_eq_some hval
      obtain rfl : units' = n := Option.some.inj (hunits'.symm.trans hn)
      exact hlt
  · rintro ⟨hpoint, hfits⟩
    obtain ⟨n, hn⟩ := h.exists_bigInt? hpoint
    refine ⟨n, hn, ?_⟩
    have hnonneg := Int.natCast_nonneg n
    rw [Sdk.i128Val?, hn, Option.bind_some, if_pos ⟨by omega, hfits n hn⟩]

/-- Which operation `disbursePayout` builds: the contract call when every argument encodes. -/
theorem disburseOperation_eq_call {units : ℤ} (hcode : Encodes sdk contractAddress recipientWallet
    assetCode assetIssuer) (hunits : Sdk.i128Val? amount = some (.i128 units)) :
    ∃ asset, disburseOperation sdk contractAddress recipientWallet amount assetCode assetIssuer =
      .contractCall contractAddress "disburse_payout"
        [.address recipientWallet, .i128 units, .asset asset] := by
  obtain ⟨hcontract, haddress, asset, hasset, hencodes⟩ := hcode
  refine ⟨asset, ?_⟩
  simp [disburseOperation, hasset, Sdk.contractCall?, hcontract, Sdk.addressVal?, haddress, hunits,
    Sdk.assetVal?, hencodes]

/-- Otherwise it is a plain object. -/
theorem disburseOperation_eq_plain (h : ¬ (Encodes sdk contractAddress recipientWallet assetCode
    assetIssuer ∧ ∃ units, bigInt? amount = some units ∧ Sdk.i128Val? amount = some (.i128 units))) :
    disburseOperation sdk contractAddress recipientWallet amount assetCode assetIssuer =
      .plainObject contractAddress "disburse_payout" := by
  unfold disburseOperation
  split
  next asset hasset =>
    rw [Sdk.contractCall?]
    split
    next hcontract =>
      cases haddress : sdk.addressVal? recipientWallet with
      | none => rfl
      | some address =>
        cases hval : Sdk.i128Val? amount with
        | none => rfl
        | some v =>
          cases hencodes : sdk.assetVal? asset with
          | none => rfl
          | some a =>
            obtain ⟨units, rfl, hunits, -⟩ := of_i128Val?_eq_some hval
            have hwallet : sdk.validAddress recipientWallet = true := by
              by_contra hinvalid
              simp [Sdk.addressVal?, hinvalid] at haddress
            have hasset' : sdk.encodesAsset asset = true := by
              by_contra hinvalid
              simp [Sdk.assetVal?, hinvalid] at hencodes
            exact absurd ⟨⟨hcontract, hwallet, asset, hasset, hasset'⟩, units, hunits, hval⟩ h
    next => rfl
  next => rfl

/-! ### An encoded call is sent -/

/-- A transaction with the operation `op` was handed to `sendTransaction`. -/
def Sent (op : Operation) (L : Log Op.Ret) : Prop :=
  ∃ n i initial tx reply, ⟨.rpc n i initial (.sendTransaction tx), reply⟩ ∈ L ∧ tx.operation = op

section Sends

variable {σ : Type} {callback : Option (String → Service σ Unit)} {s : σ} {L : Log Op.Ret}

/-- Preparing a transaction leaves its operation alone. -/
theorem obeys_prepareIfSupported (cfg : Config) (tx : Transaction) :
    Obeys (fun _ _ => True) (prepareIfSupported cfg tx : Service σ Transaction)
      (fun tx' _ _ => tx'.operation = tx.operation) (fun _ _ _ => True) s L := by
  unfold prepareIfSupported
  split
  · exact Obeys.bind_any fun fee t L' _ => Obeys.pure rfl
  · exact Obeys.pure rfl

/-- A transaction that could be built is sent before its hash is returned. -/
theorem obeys_submitDisbursement_sends (sdk : Sdk) (cfg : Config) (tx : Transaction) :
    Obeys (fun _ _ => True) (submitDisbursement sdk cfg callback tx)
      (fun _ _ => Sent tx.operation) (fun _ _ _ => True) s L := by
  refine Obeys.bind ((obeys_prepareIfSupported cfg tx).mono (fun tx' s L hop => ?_)
    fun _ _ _ _ => trivial)
  refine Obeys.bind_any fun fee s L _ => Obeys.bind_any fun _ s L _ => Obeys.bind_any fun _ s L _ => ?_
  refine Obeys.bind ((obeys_request cfg (P := fun _ => True) (A := fun _ => True)
    ⟨fun _ _ _ _ => trivial, fun _ _ _ _ _ => trivial⟩ (fun _ _ _ => trivial) trivial).mono
    (fun reply s L hsent => ?_) fun _ _ _ _ => trivial)
  obtain ⟨-, -, n, i, initial, start, hmem⟩ := hsent
  exact Obeys.bind_any fun _ t L' hL' => Obeys.pure ⟨n, i, initial, _, _, hL'.subset hmem, hop⟩

/-- **The rule for an encoded call**: a hash is returned after the call was sent. -/
theorem obeys_disbursePayout_sends (sdk : Sdk) (cfg : Config)
    {contractAddress recipientWallet amount : String} {assetCode assetIssuer : Option String}
    {method : String} {args : List ScVal}
    (hop : disburseOperation sdk contractAddress recipientWallet amount (assetCode.getD "XLM")
      assetIssuer = .contractCall contractAddress method args) :
    Obeys (fun _ _ => True)
      (disbursePayout sdk cfg contractAddress recipientWallet amount callback assetCode assetIssuer)
      (fun _ _ => Sent (.contractCall contractAddress method args)) (fun _ _ _ => True) s L := by
  refine Obeys.bind_any fun _ s L _ => Obeys.bind_any fun _ s L _ => Obeys.bind_any fun _ s L _ =>
    Obeys.bind_any fun _ s L _ => Obeys.bind_any fun _ s L _ => Obeys.bind_any fun _ s L _ => ?_
  refine Obeys.tryCatch (Obeys.mono (X := fun _ _ _ => True) ?_ (fun _ _ _ h => h)
    fun _ _ _ _ => Obeys.throw trivial)
  refine Obeys.bind_any fun keyPair s L _ => ?_
  rw [hop]
  exact obeys_submitDisbursement_sends sdk cfg _

end Sends

/-! ### A call that does not encode -/

/-- A possible reply to an operation that sends nothing. -/
def Unsent (e : Entry Op.Ret) : Prop := Possible e ∧ e.1.isSend = false

section MadeUp

variable {σ : Type} {s : σ} {L : Log Op.Ret}

theorem ends_throwIf {c : Bool} {e : Exc} (hc : c = false) :
    Ends Unsent ((throwIf c e : Service σ Unit) s) L (.ok (), s) L := by
  subst hc
  exact .ret _ _

theorem ends_validateConfiguration (hcfg : cfg.Valid) :
    Ends Unsent ((validateConfiguration cfg : Service σ Unit) s) L (.ok (), s) L :=
  .andThen (ends_throwIf (by simpa using hcfg.1)) <| .andThen (ends_throwIf (by simpa using hcfg.2.1)) <|
    ends_throwIf (by simpa using hcfg.2.2)

variable (σ s L) in
/-- A request that fails for good. -/
theorem ends_withFailover (hcfg : cfg.Valid) (req : Request)
    (hreq : (Op.rpc cfg.rpcUrls.length 0 none req).isSend = false) :
    ∃ L', Ends Unsent ((withFailover cfg req : Service σ req.Reply) s) L
      (.error (.error "down"), s) L' := by
  obtain ⟨n, hn⟩ := Nat.exists_eq_succ_of_ne_zero (List.length_pos_iff.mpr hcfg.1).ne'
  rw [withFailover, hn, tryUrls, Nat.sub_self]
  rw [hn] at hreq
  have hdown : isTransientRpcFailure (.error "down") = false := by decide +kernel
  have hpossible : Possible ⟨.rpc n.succ 0 none req, (0, .error (.error "down"))⟩ :=
    ⟨0, .fails "down", Sample.world Sample.group [], _, rfl⟩
  refine ⟨⟨.rpc n.succ 0 none req, (0, .error (.error "down"))⟩ :: L,
    .andThen (.perform _ ⟨hpossible, hreq⟩) ?_⟩
  simp only [hdown]
  exact .ret _ _

variable (σ s L) in
/-- The issuer's balance cannot be read, and the payout goes on. -/
theorem ends_checkIssuerBalance (hcfg : cfg.Valid) :
    ∃ L', Ends Unsent ((checkIssuerBalance cfg : Service σ Unit) s) L (.ok (), s) L' := by
  unfold checkIssuerBalance
  cases cfg.stellarIssuerAccount with
  | none => exact ⟨L, .ret _ _⟩
  | some issuer =>
    dsimp only
    split
    · exact ⟨L, .ret _ _⟩
    · obtain ⟨L', hload⟩ :=
        ends_withFailover σ s L hcfg (.loadAccount issuer) rfl
      have hbalance : Ends Unsent ((checkAccountBalance cfg issuer cfg.stellarMinBalanceAlertXlm :
          Service σ (String × Bool)) s) L (.error _, s) L' :=
        .bind (.andThen (ends_validateConfiguration hcfg) (.caught (.bind hload (.ret _ _))
          (.ret _ _))) (.ret _ _)
      exact ⟨L', .caught (.bind hbalance (.ret _ _)) (.ret _ _)⟩

variable (σ s L) in
/-- The contract's state was validated before, and the payout goes on. -/
theorem ends_checkContractState (sdk : Sdk) (cfg : Config)
    (contractAddress recipientWallet amount : String) :
    ∃ L', Ends Unsent ((checkContractState sdk cfg contractAddress recipientWallet amount :
      Service σ Unit) s) L (.ok (), s) L' := by
  have hcached (key : String) : Ends Unsent ((redisGet key : Service σ Bool) s) L (.ok true, s)
      (⟨.ask (.redisGet key), .ok true⟩ :: L) := by
    have hpossible : Possible ⟨.ask (.redisGet key), .ok true⟩ :=
      ⟨0, .answer (.bool true), Sample.world Sample.group [], _, rfl⟩
    exact .tried (.call _ ⟨hpossible, rfl⟩)
  exact ⟨_, .tried (.andThen (hcached _) (.ret _ _))⟩

/-- **A call that does not encode** may return a hash with nothing sent. -/
theorem ends_disbursePayout (hrefused : ¬ Refused cfg contractAddress recipientWallet amount)
    {code issuer : Option String} (callback : Option (String → Service σ Unit))
    (hop : disburseOperation sdk contractAddress recipientWallet amount (code.getD "XLM") issuer =
      .plainObject contractAddress "disburse_payout") :
    ∃ hash L', Ends Unsent (disbursePayout sdk cfg contractAddress recipientWallet amount callback
      code issuer s) [] (.ok hash, s) L' := by
  obtain ⟨hcontract, hrecipient, hamount, hcfg⟩ :
      contractAddress ≠ "" ∧ recipientWallet ≠ "" ∧ amount ≠ "" ∧ cfg.Valid := by
    simpa [Refused] using hrefused
  obtain ⟨L₁, h₁⟩ := ends_checkIssuerBalance σ s [] hcfg
  obtain ⟨L₂, h₂⟩ := ends_checkContractState σ s L₁ sdk cfg contractAddress
    recipientWallet amount
  have hkeyPair : Possible ⟨.randomKeyPair, (0 : ℕ)⟩ :=
    ⟨0, .done, Sample.world Sample.group [], _, rfl⟩
  have hnow : Possible ⟨.now, (0 : ℕ)⟩ := ⟨0, .time 0, Sample.world Sample.group [], _, rfl⟩
  refine ⟨s!"payout_{slicePrefix contractAddress 8}_{slicePrefix recipientWallet 8}_{(0 : ℕ)}",
    ⟨.now, (0 : ℕ)⟩ :: ⟨.randomKeyPair, (0 : ℕ)⟩ :: L₂, ?_⟩
  refine .andThen (ends_throwIf (by simpa using hcontract)) <|
    .andThen (ends_throwIf (by simpa using hrecipient)) <|
    .andThen (ends_throwIf (by simpa using hamount)) <|
    .andThen (ends_validateConfiguration hcfg) <| .andThen h₁ <| .andThen h₂ <| .tried ?_
  refine .andThen (.perform _ ⟨hkeyPair, rfl⟩) ?_
  rw [hop]
  exact .andThen (.perform _ ⟨hnow, rfl⟩) (.ret _ _)

end MadeUp

/-! ### When a hash means a payment -/

/-- A call that is refused returns nothing. -/
theorem obeys_of_refused {s : PayoutTransaction} {L : Log Op.Ret} {code issuer : Option String}
    (h : Refused cfg contractAddress recipientWallet amount) :
    Obeys (fun _ _ => True) (disbursePayout sdk cfg contractAddress recipientWallet amount
      onBeforeSubmit code issuer) (fun _ _ _ => False) (fun _ _ _ => True) s L := by
  refine Obeys.bind (obeys_throwIf (fun _ => trivial) fun hcontract => ?_)
  refine Obeys.bind (obeys_throwIf (fun _ => trivial) fun hrecipient => ?_)
  refine Obeys.bind (obeys_throwIf (fun _ => trivial) fun hamount => ?_)
  refine Obeys.bind (Obeys.bind (obeys_throwIf (fun _ => trivial) fun hurls => ?_))
  refine Obeys.bind (obeys_throwIf (fun _ => trivial) fun hpassphrase => ?_)
  refine obeys_throwIf (fun _ => trivial) fun haddress => ?_
  simp only [beq_eq_false_iff_ne, List.isEmpty_eq_false_iff] at *
  exact absurd h (by simp [Refused, Config.Valid, *])

/-- A made-up hash stands for no payment. -/
theorem not_hashMeansDisbursed_of_plain {code issuer : Option String}
    (hrefused : ¬ Refused cfg contractAddress recipientWallet amount)
    (hop : disburseOperation sdk contractAddress recipientWallet amount (code.getD "XLM") issuer =
      .plainObject contractAddress "disburse_payout") :
    ¬ HashMeansDisbursed sdk cfg contractAddress recipientWallet amount onBeforeSubmit code
      issuer := by
  intro hmeans
  obtain ⟨hash, L, hends⟩ := ends_disbursePayout (s := { id := 0, payoutOrderId := "" })
    hrefused onBeforeSubmit hop
  obtain ⟨n, i, initial, tx, reply, hmem, -⟩ := hmeans _ _ _ _ (hends.mono fun _ he => he.1)
  exact Bool.noConfusion (hends.forall_mem (by simp) _ hmem).2

/-- **A hash of `disbursePayout` stands for the payment exactly when** the call is refused, or
the amount is an integer that fits and the SDK takes the other arguments. -/
theorem hashMeansDisbursed_iff (sdk : Sdk) (cfg : Config) (contractAddress recipientWallet : String)
    {amount : String} (h : PayoutAmount amount)
    (onBeforeSubmit : Option (String → Service PayoutTransaction Unit))
    (code issuer : Option String) :
    HashMeansDisbursed sdk cfg contractAddress recipientWallet amount onBeforeSubmit code issuer ↔
      Refused cfg contractAddress recipientWallet amount ∨
        IntegerAmount amount ∧
          Encodes sdk contractAddress recipientWallet (code.getD "XLM") issuer := by
  constructor
  · intro hmeans
    by_contra hnot
    obtain ⟨hrefused, hcode⟩ := not_or.mp hnot
    rw [← h.exists_i128Val?, And.comm] at hcode
    exact not_hashMeansDisbursed_of_plain hrefused (disburseOperation_eq_plain hcode) hmeans
  · rintro (hrefused | ⟨hinteger, hcode⟩) s hash t L hends
    · exact (hends.post (obeys_of_refused hrefused).follows).elim
    · obtain ⟨units, hunits, hval⟩ := h.exists_i128Val?.mpr hinteger
      obtain ⟨asset, hop⟩ := disburseOperation_eq_call hcode hval
      obtain ⟨n, i, initial, tx, reply, hmem, htx⟩ :=
        hends.post (obeys_disbursePayout_sends sdk cfg hop).follows
      exact ⟨n, i, initial, tx, reply, hmem, units, asset, hunits, htx⟩

/-- A payment that is made: an integer amount, which the SDK's constructors take. -/
theorem hashMeansDisbursed_sample : PayoutAmount "100" ∧
    HashMeansDisbursed Sample.sdk Sample.cfg "C" "G0" "100" none none none :=
  have hamount : PayoutAmount "100" := ⟨Sample.group, [], by decide, rfl⟩
  ⟨hamount, (hashMeansDisbursed_iff Sample.sdk Sample.cfg "C" "G0" hamount none none none).mpr
    (.inr ⟨⟨by decide, by decide⟩, rfl, rfl, .native, rfl, rfl⟩)⟩

/-- A hash without a payment: the amount `100.00` of a group without contributions. -/
theorem not_hashMeansDisbursed : PayoutAmount "100.00" ∧
    ¬ HashMeansDisbursed Sample.sdk Sample.cfg "C" "G0" "100.00" none none none := by
  have hamount : PayoutAmount "100.00" :=
    ⟨{ Sample.group with contributionAmount := "100.00" }, [], by decide, rfl⟩
  have hop : disburseOperation Sample.sdk "C" "G0" "100.00" "XLM" none =
      .plainObject "C" "disburse_payout" := by decide +kernel
  exact ⟨hamount, not_hashMeansDisbursed_of_plain (by decide) hop⟩

end Ahjoor
