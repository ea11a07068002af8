import Ahjoor.Stellar.StellarService

/-!
# What the Stellar service uses of the world

Apart from handing a transaction to the network, the Stellar service only asks and notifies:
its operations are *remote*, and touch neither the tables nor the queue nor the set of accepted
transactions. `sendTransaction` itself gets a rule of its own (`obeys_send`), which says how the
failover that carries it can end: with the network's answer to the last attempt, or with an
error that stops the loop.
-/

namespace Ahjoor

open Async

/-- The operation only asks or notifies something outside the world. -/
def Op.isRemote : Op → Bool
  | .rpc _ _ _ (.sendTransaction _) => false
  | .rpc _ _ _ _ | .emit _ | .ask _ | .randomKeyPair | .now => true
  | _ => false

namespace StellarService

variable {σ : Type}

/-! ### Remote operations -/

section Remote

variable (sdk : Sdk) (cfg : Config)

theorem uses_validateConfiguration {P : Op → Prop} :
    Routine.Uses P (validateConfiguration cfg : Service σ Unit) :=
  Routine.uses_bind (uses_throwIf _ _) fun _ =>
    Routine.uses_bind (uses_throwIf _ _) fun _ => uses_throwIf _ _

theorem uses_tryUrls {P : Op → Prop} {req : Request} (h : ∀ n i initial, P (.rpc n i initial req))
    (n left : ℕ) (initial : Option ℕ) (e : Exc) :
    Routine.Uses P (tryUrls req n left initial e : Service σ req.Reply) := by
  induction left generalizing initial e with
  | zero => exact Routine.uses_throw e
  | succ left ih =>
    refine Routine.uses_bind (Routine.uses_perform (h ..)) fun ⟨start, reply⟩ => ?_
    cases reply with
    | ok r => exact Routine.uses_pure r
    | error e =>
      dsimp only
      split
      · exact ih (some start) e
      · exact Routine.uses_throw e

theorem uses_withFailover {P : Op → Prop} {req : Request}
    (h : ∀ n i initial, P (.rpc n i initial req)) :
    Routine.Uses P (withFailover cfg req : Service σ req.Reply) :=
  uses_tryUrls h _ _ _ _

theorem uses_checkIssuerBalance :
    Routine.Uses (·.isRemote = true) (checkIssuerBalance cfg : Service σ Unit) := by
  unfold checkIssuerBalance
  split
  · exact Routine.uses_pure ()
  · split
    · exact Routine.uses_pure ()
    · refine Routine.uses_tryCatch (Routine.uses_bind (Routine.uses_bind ?_ fun _ =>
        Routine.uses_pure _) fun ⟨_, _⟩ => uses_throwIf _ _) fun e => ?_
      · exact Routine.uses_bind (uses_validateConfiguration cfg) fun _ =>
          Routine.uses_tryCatch
            (Routine.uses_bind (uses_withFailover cfg fun _ _ _ => rfl) fun _ =>
              Routine.uses_pure _)
            fun _ => Routine.uses_throw _
      · split
        · exact Routine.uses_throw e
        · exact Routine.uses_pure ()

theorem uses_simulateCall (contractAddress method : String) (args : List String) :
    Routine.Uses (·.isRemote = true)
      (simulateCall sdk cfg contractAddress method args : Service σ Simulation) := by
  refine Routine.uses_bind (uses_validateConfiguration cfg) fun _ =>
    Routine.uses_bind (Routine.uses_perform rfl) fun _ =>
    Routine.uses_bind (uses_orThrow _ _) fun _ =>
    Routine.uses_bind (uses_orThrow _ _) fun _ =>
    Routine.uses_bind (uses_withFailover cfg fun _ _ _ => rfl) fun _ =>
    Routine.uses_bind (uses_withFailover cfg fun _ _ _ => rfl) fun simulation => ?_
  split
  · exact Routine.uses_throw _
  · exact Routine.uses_pure _

theorem uses_checkContractState (contractAddress recipientWallet amount : String) :
    Routine.Uses (·.isRemote = true)
      (checkContractState sdk cfg contractAddress recipientWallet amount : Service σ Unit) := by
  refine Routine.uses_tryCatch (Routine.uses_bind (uses_redisGet rfl) fun cached => ?_) fun e => ?_
  · split
    · exact Routine.uses_pure ()
    · exact Routine.uses_tryCatch
        (Routine.uses_bind (uses_simulateCall sdk cfg _ _ _) fun _ => uses_redisSet rfl)
        fun _ => Routine.uses_throw _
  · split
    · exact Routine.uses_throw e
    · exact Routine.uses_pure ()

theorem uses_recordFeeSpend (fee : ℤ) :
    Routine.Uses (·.isRemote = true) (recordFeeSpend cfg fee : Service σ Unit) := by
  unfold recordFeeSpend
  split
  · exact Routine.uses_pure ()
  · refine Routine.uses_tryCatch (Routine.uses_bind (uses_dateNow rfl) fun _ =>
      Routine.uses_bind (uses_ask rfl) fun _ => ?_) fun _ => Routine.uses_pure ()
    split
    · exact Routine.uses_tryCatch (uses_emit rfl) fun _ => Routine.uses_pure ()
    · exact Routine.uses_pure ()

theorem uses_prepareIfSupported (tx : Transaction) :
    Routine.Uses (·.isRemote = true) (prepareIfSupported cfg tx : Service σ Transaction) := by
  unfold prepareIfSupported
  split
  · exact Routine.uses_bind (uses_withFailover cfg fun _ _ _ => rfl) fun _ => Routine.uses_pure _
  · exact Routine.uses_pure tx

theorem uses_simulateTransactionAndGetFee (tx : Transaction) :
    Routine.Uses (·.isRemote = true) (simulateTransactionAndGetFee cfg tx : Service σ ℤ) :=
  Routine.uses_bind (uses_withFailover cfg fun _ _ _ => rfl) fun _ => Routine.uses_pure _

end Remote

/-! ### Sending -/

/-- The newest attempt to send, with the log before it. -/
def lastSend : Log Op.Ret → Option (Entry Op.Ret × Log Op.Ret)
  | [] => none
  | e :: L => if e.1.isSend then some (e, L) else lastSend L

theorem lastSend_cons_of_isSend {e : Entry Op.Ret} (h : e.1.isSend = true) (L : Log Op.Ret) :
    lastSend (e :: L) = some (e, L) := by
  rw [lastSend, if_pos h]

theorem lastSend_cons {e : Entry Op.Ret} (h : e.1.isSend = false) (L : Log Op.Ret) :
    lastSend (e :: L) = lastSend L := by
  rw [lastSend, if_neg (by simp [h])]

theorem lastSend_eq_none {L : Log Op.Ret} :
    lastSend L = none ↔ ∀ e ∈ L, e.1.isSend = false := by
  induction L with
  | nil => simp [lastSend]
  | cons e L ih =>
    cases he : e.1.isSend with
    | true => simp [lastSend_cons_of_isSend he, he]
    | false => simp [lastSend_cons he, ih, he]

theorem isSend_of_isRemote {o : Op} (h : o.isRemote = true) : o.isSend = false := by
  cases o with
  | rpc n i initial req => cases req <;> first | rfl | cases h
  | _ => rfl

/-- No attempt to send, or the newest one, of `tx`, failed and ended the failover. -/
def Stopped (tx : Transaction) (L : Log Op.Ret) : Prop :=
  ∀ e L₀, lastSend L = some (e, L₀) → ∃ n i initial start x,
    e = ⟨.rpc n i initial (.sendTransaction tx), (start, .error x)⟩ ∧
      (n ≤ i + 1 ∨ isTransientRpcFailure x = false)

/-- The newest attempt to send, of `tx`, was answered; `A` held before it. -/
def Answered (tx : Transaction) (A : Log Op.Ret → Prop) (L : Log Op.Ret)
    (reply : Option SendReply) : Prop :=
  ∃ n i initial start L₀, A L₀ ∧
    lastSend L = some (⟨.rpc n i initial (.sendTransaction tx), (start, .ok reply)⟩, L₀)

section Send

variable {D : Log Op.Ret → Op → Prop} {L : Log Op.Ret} {s : σ}

/-- A fact about the newest attempt survives remote operations. -/
theorem admits_lastSend {A : Log Op.Ret → Prop} (hA : Admits D (·.isRemote = true) A)
    (F : Option (Entry Op.Ret × Log Op.Ret) → Prop) :
    Admits D (·.isRemote = true) fun L => A L ∧ F (lastSend L) where
  allowed L o h ho := hA.allowed L o h.1 ho
  kept L o r h ho := ⟨hA.kept L o r h.1 ho, by
    rw [lastSend_cons (isSend_of_isRemote ho)]
    exact h.2⟩

/-- **How sending a transaction ends**: answered, or with an error of the attempt that stops
the failover, or untried where there is no URL. -/
theorem obeys_send (cfg : Config) {A : Log Op.Ret → Prop} (hA : Admits D (·.isSend = true) A)
    (tx : Transaction) (h : A L) (hnone : lastSend L = none) :
    Obeys D (withFailover cfg (.sendTransaction tx) : Service σ (Option SendReply))
      (fun reply t L' => t = s ∧ A L' ∧ Answered tx A L' reply)
      (fun _ t L' => t = s ∧ A L' ∧ Stopped tx L') s L := by
  suffices H : ∀ (n left : ℕ) (initial : Option ℕ) (e : Exc) (L : Log Op.Ret), A L →
      (left = 0 → Stopped tx L) →
      Obeys D (tryUrls (.sendTransaction tx) n left initial e : Service σ (Option SendReply))
        (fun reply t L' => t = s ∧ A L' ∧ Answered tx A L' reply)
        (fun _ t L' => t = s ∧ A L' ∧ Stopped tx L') s L from
    H _ _ _ _ L h fun _ _ _ hlast => by rw [hnone] at hlast; cases hlast
  intro n left
  induction left with
  | zero => exact fun initial e L h hstop => Obeys.throw ⟨rfl, h, hstop rfl⟩
  | succ left ih =>
    intro initial e L h _
    refine Obeys.bind (Obeys.perform (hA.allowed L _ h rfl) fun r => ?_)
    have h' := hA.kept L (.rpc n (n - (left + 1)) initial (.sendTransaction tx)) r h rfl
    have hlast := lastSend_cons_of_isSend
      (e := ⟨.rpc n (n - (left + 1)) initial (.sendTransaction tx), r⟩) rfl L
    obtain ⟨start, reply⟩ := r
    cases reply with
    | ok r => exact Obeys.pure ⟨rfl, h', _, _, _, _, L, h, hlast⟩
    | error e =>
      -- the attempt that stops the failover is the newest one
      have stopped : (n ≤ n - (left + 1) + 1 ∨ isTransientRpcFailure e = false) → Stopped tx
          (⟨.rpc n (n - (left + 1)) initial (.sendTransaction tx), (start, .error e)⟩ :: L) := by
        intro hstop e' L₀ heq
        rw [hlast] at heq
        cases heq
        exact ⟨_, _, _, _, _, rfl, hstop⟩
      dsimp only
      split
      next htransient => exact ih _ _ _ h' fun hleft => stopped (.inl (by omega))
      next htransient => exact Obeys.throw ⟨rfl, h', stopped (.inr (by simpa using htransient))⟩

/-- A request that returns was answered. -/
theorem obeys_request (cfg : Config) {P : Op → Prop} {A : Log Op.Ret → Prop} (hA : Admits D P A)
    {req : Request} (hP : ∀ n i initial, P (.rpc n i initial req)) (h : A L) :
    Obeys D (withFailover cfg req : Service σ req.Reply)
      (fun reply t L' => t = s ∧ A L' ∧
        ∃ n i initial start, ⟨.rpc n i initial req, (start, .ok reply)⟩ ∈ L')
      (fun _ t L' => t = s ∧ A L') s L := by
  suffices H : ∀ (n left : ℕ) (initial : Option ℕ) (e : Exc) (L : Log Op.Ret), A L →
      Obeys D (tryUrls req n left initial e : Service σ req.Reply)
        (fun reply t L' => t = s ∧ A L' ∧
          ∃ n i initial start, ⟨.rpc n i initial req, (start, .ok reply)⟩ ∈ L')
        (fun _ t L' => t = s ∧ A L') s L from
    H _ _ _ _ L h
  intro n left
  induction left with
  | zero => exact fun initial e L h => Obeys.throw ⟨rfl, h⟩
  | succ left ih =>
    intro initial e L h
    refine Obeys.bind (Obeys.perform (hA.allowed L _ h (hP _ _ _)) fun r => ?_)
    have h' := hA.kept L (.rpc n (n - (left + 1)) initial req) r h (hP _ _ _)
    obtain ⟨start, reply⟩ := r
    cases reply with
    | ok r => exact Obeys.pure ⟨rfl, h', _, _, _, _, List.mem_cons_self⟩
    | error e =>
      dsimp only
      split
      · exact ih _ _ _ h'
      · exact Obeys.throw ⟨rfl, h'⟩

/-- The chain has reported the status of a hash to the call. -/
def Reported (L : Log Op.Ret) (hash : String) (s : TxStatus) : Prop :=
  ∃ n i initial start record,
    ⟨.rpc n i initial (.getTransaction hash), (start, .ok record)⟩ ∈ L ∧ txStatus record = s

theorem Reported.mono {L L' : Log Op.Ret} {hash : String} {st : TxStatus} (h : Reported L hash st)
    (hL : L ⊆ L') : Reported L' hash st := by
  obtain ⟨n, i, initial, start, record, hmem, hst⟩ := h
  exact ⟨n, i, initial, start, record, hL hmem, hst⟩

/-- **The rule for `getTransactionStatus`**: its result is what the chain has reported. -/
theorem obeys_getTransactionStatus (cfg : Config) {A : Log Op.Ret → Prop}
    (hA : Admits D (·.isRemote = true) A) (txHash : String) (h : A L) :
    Obeys D (getTransactionStatus cfg txHash : Service σ TxStatus)
      (fun st t L' => t = s ∧ A L' ∧ Reported L' txHash st) (fun _ t L' => t = s ∧ A L') s L := by
  refine Obeys.bind (obeys_throwIf (fun _ => ⟨rfl, h⟩) fun _ => ?_)
  refine Obeys.bind ((Obeys.of_uses hA (uses_validateConfiguration cfg) h).mono
    (fun _ t L hL => ?_) fun _ _ _ h => h)
  obtain ⟨rfl, h⟩ := hL
  refine Obeys.tryCatch (Obeys.bind ((obeys_request cfg hA (fun _ _ _ => rfl) h).mono
    (fun record t L hL => ?_) fun _ _ _ h => Obeys.throw h))
  obtain ⟨rfl, h, n, i, initial, start, hmem⟩ := hL
  exact Obeys.pure ⟨rfl, h, n, i, initial, start, record, hmem, rfl⟩

/-- The part of `disbursePayout` from the preparation of the transaction on. -/
theorem obeys_submitDisbursement (sdk : Sdk) (cfg : Config) {A B Y : σ → Log Op.Ret → Prop}
    (hA : ∀ s, Admits D (·.isRemote = true) (A s)) (hB : ∀ s, Admits D (·.isRemote = true) (B s))
    (hsend : ∀ s, Admits D (·.isSend = true) (B s)) {callback : String → Service σ Unit}
    (hcallback : ∀ (hash : Hash) s L, A s L →
      Obeys D (callback hash) (fun _ => B) (fun _ => Y) s L)
    (tx : Transaction) (h : A s L) :
    Obeys D (submitDisbursement sdk cfg (some callback) tx)
      (fun hash t L' => hash ≠ "" ∧ (A t L' ∨ B t L'))
      (fun _ t L' => A t L' ∨ B t L' ∨ Y t L') s L := by
  refine Obeys.bind_uses (hA s) (uses_prepareIfSupported cfg tx) h (fun tx L h => ?_)
    fun _ _ h => .inl h
  refine Obeys.bind_uses (hA s) (uses_simulateTransactionAndGetFee cfg tx) h (fun fee L h => ?_)
    fun _ _ h => .inl h
  refine Obeys.bind (obeys_throwIf (fun _ => .inl h) fun _ => ?_)
  refine Obeys.bind ((hcallback _ s L h).mono (fun _ s L h => ?_) fun _ _ _ hY => .inr (.inr hY))
  refine Obeys.bind_uses (hsend s) (uses_withFailover cfg fun _ _ _ => rfl) h (fun reply L h => ?_)
    fun _ _ h => .inr (.inl h)
  refine Obeys.bind_uses (hB s) (uses_recordFeeSpend cfg _) h (fun _ L h => ?_)
    fun _ _ h => .inr (.inl h)
  exact Obeys.pure ⟨(Option.getD _ _ : Hash).2, .inr h⟩

/-- **The rule for `disbursePayout`.** Before the callback a fact `A` holds and only remote
operations are performed; the callback, given a hash, leads to `B`, under which the transaction
is sent. A call that returns has a hash; it may not have come to the callback. -/
theorem obeys_disbursePayout (sdk : Sdk) (cfg : Config) {A B Y : σ → Log Op.Ret → Prop}
    (hA : ∀ s, Admits D (·.isRemote = true) (A s)) (hB : ∀ s, Admits D (·.isRemote = true) (B s))
    (hsend : ∀ s, Admits D (·.isSend = true) (B s)) {callback : String → Service σ Unit}
    (hcallback : ∀ (hash : Hash) s L, A s L →
      Obeys D (callback hash) (fun _ => B) (fun _ => Y) s L)
    (contractAddress recipientWallet amount : String) (assetCode assetIssuer : Option String)
    (h : A s L) :
    Obeys D (disbursePayout sdk cfg contractAddress recipientWallet amount (some callback)
        assetCode assetIssuer)
      (fun hash t L' => hash ≠ "" ∧ (A t L' ∨ B t L'))
      (fun _ t L' => A t L' ∨ B t L' ∨ Y t L') s L := by
  refine Obeys.bind (obeys_throwIf (fun _ => .inl h) fun _ => ?_)
  refine Obeys.bind (obeys_throwIf (fun _ => .inl h) fun _ => ?_)
  refine Obeys.bind (obeys_throwIf (fun _ => .inl h) fun _ => ?_)
  refine Obeys.bind_uses (hA s) (uses_validateConfiguration cfg) h (fun _ L h => ?_)
    fun _ _ h => .inl h
  refine Obeys.bind_uses (hA s) (uses_checkIssuerBalance cfg) h (fun _ L h => ?_)
    fun _ _ h => .inl h
  refine Obeys.bind_uses (hA s) (uses_checkContractState sdk cfg _ _ _) h (fun _ L h => ?_)
    fun _ _ h => .inl h
  refine Obeys.tryCatch (Obeys.mono ?_ (fun _ _ _ hQ => hQ) fun e t L hX => Obeys.throw hX)
  refine Obeys.bind (Obeys.perform ((hA s).allowed L _ h rfl) fun keyPair => ?_)
  replace h := (hA s).kept L .randomKeyPair keyPair h rfl
  split
  · -- the transaction could not be built: a hash without a transaction
    refine Obeys.bind_uses (hA s) (uses_dateNow rfl) h (fun t L h => ?_) fun _ _ h => .inl h
    exact Obeys.pure ⟨by simp [String.append_eq_empty_iff], .inl h⟩
  · next tx htx =>
    exact obeys_submitDisbursement sdk cfg hA hB hsend hcallback tx h

end Send

end StellarService

end Ahjoor
