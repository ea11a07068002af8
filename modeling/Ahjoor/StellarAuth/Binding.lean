import Ahjoor.StellarAuth.AuthService

/-!
# What a signature is tied to

`verifySignature` checks that the challenge is the one that was stored, that its nonce has not been
used, that the envelope is within its time bounds and that the wallet has signed it. No check reads
the nonce off the envelope: any transaction that the owner of the wallet has signed, for whatever
purpose, answers every challenge while its time bounds are open.

If all transactions that the owner has signed and whose time bounds are open include the nonce of the
challenge, then tokens are issued only for a signature over that nonce.
-/

namespace Ahjoor.StellarAuth

open Async Store

variable (cfg : Config)

/-! ### What the log of a call says -/

/-- The challenge that was presented is the one that is stored. -/
def askedLog (walletAddress challenge : String) : Log Op.Ret :=
  [⟨.getChallenge walletAddress, some challenge⟩]

/-- And its nonce has not been used. -/
def lookedUpLog (walletAddress challenge nonce : String) : Log Op.Ret :=
  ⟨.sismember nonce, false⟩ :: askedLog walletAddress challenge

/-- And the time has been read. -/
def timedLog (walletAddress challenge nonce : String) (now : ℤ) : Log Op.Ret :=
  ⟨.now, now⟩ :: lookedUpLog walletAddress challenge nonce

/-- And the nonce has been recorded, and the challenge deleted. -/
def usedLog (walletAddress challenge nonce : String) (now : ℤ) : Log Op.Ret :=
  ⟨.delChallenge walletAddress, ()⟩ :: ⟨.expire, ()⟩ :: ⟨.sadd nonce, ()⟩ ::
    timedLog walletAddress challenge nonce now

/-- The checks of `verifySignature` that look at what was sent, and at the time. -/
structure Passes (walletAddress signedEnvelopeXdr challenge nonce : String) (now : ℤ) : Prop where
  nonce : extractNonceFromChallenge challenge = some nonce
  timebounds : ∃ transaction timeBounds, cfg.sdk.fromXDR signedEnvelopeXdr = some transaction ∧
    transaction.body.timeBounds = some timeBounds ∧ withinTimebounds timeBounds now = true
  signature : verifyEnvelopeSignature cfg.sdk walletAddress signedEnvelopeXdr = true

/-- The operations by which a session is opened. -/
def Op.opens : Op → Bool
  | now | db _ | seedForUser _ => true
  | _ => false

/-- **What a call does next.** -/
inductive Acting : Call → Log Op.Ret → Op → Prop
  | randomBytes (walletAddress : String) : Acting (.generateChallenge walletAddress) [] .randomBytes
  | timestamp (walletAddress nonce : String) :
      Acting (.generateChallenge walletAddress) [⟨.randomBytes, nonce⟩] .now
  | setChallenge {walletAddress : String} (hvalid : cfg.sdk.isValidEd25519PublicKey walletAddress = true)
      (nonce : String) (timestamp : ℤ) :
      Acting (.generateChallenge walletAddress) [⟨.now, timestamp⟩, ⟨.randomBytes, nonce⟩]
        (.setChallenge walletAddress (challengeText walletAddress nonce timestamp))
  | getChallenge (walletAddress signedEnvelopeXdr challenge : String) :
      Acting (.verifySignature walletAddress signedEnvelopeXdr challenge) [] (.getChallenge walletAddress)
  | sismember (walletAddress signedEnvelopeXdr : String) {challenge nonce : String}
      (hnonce : extractNonceFromChallenge challenge = some nonce) :
      Acting (.verifySignature walletAddress signedEnvelopeXdr challenge) (askedLog walletAddress challenge)
        (.sismember nonce)
  | now (walletAddress signedEnvelopeXdr challenge nonce : String) :
      Acting (.verifySignature walletAddress signedEnvelopeXdr challenge)
        (lookedUpLog walletAddress challenge nonce) .now
  | sadd {walletAddress signedEnvelopeXdr challenge nonce : String} {now : ℤ}
      (hpasses : Passes cfg walletAddress signedEnvelopeXdr challenge nonce now) :
      Acting (.verifySignature walletAddress signedEnvelopeXdr challenge)
        (timedLog walletAddress challenge nonce now) (.sadd nonce)
  | expire {walletAddress signedEnvelopeXdr challenge nonce : String} {now : ℤ}
      (hpasses : Passes cfg walletAddress signedEnvelopeXdr challenge nonce now) :
      Acting (.verifySignature walletAddress signedEnvelopeXdr challenge)
        (⟨.sadd nonce, ()⟩ :: timedLog walletAddress challenge nonce now) .expire
  | delChallenge {walletAddress signedEnvelopeXdr challenge nonce : String} {now : ℤ}
      (hpasses : Passes cfg walletAddress signedEnvelopeXdr challenge nonce now) :
      Acting (.verifySignature walletAddress signedEnvelopeXdr challenge)
        (⟨.expire, ()⟩ :: ⟨.sadd nonce, ()⟩ :: timedLog walletAddress challenge nonce now)
        (.delChallenge walletAddress)
  | opens {walletAddress signedEnvelopeXdr challenge nonce : String} {now : ℤ} {L : Log Op.Ret} {o : Op}
      (hL : usedLog walletAddress challenge nonce now <:+ L) (ho : o.opens = true) :
      Acting (.verifySignature walletAddress signedEnvelopeXdr challenge) L o

/-- What the log says when a call has returned. -/
def Returned : Call → Except Exc Reply → Log Op.Ret → Prop
  | .verifySignature walletAddress signedEnvelopeXdr challenge, .ok (.tokens _), L =>
      ∃ nonce now, usedLog walletAddress challenge nonce now <:+ L ∧
        Passes cfg walletAddress signedEnvelopeXdr challenge nonce now
  | .verifySignature _ _ _, .ok (.challenge _), _ | .generateChallenge _, .ok (.tokens _), _ => False
  | _, _, _ => True

/-! ### The bodies follow it -/

section Obeys

variable {cfg}

theorem obeys_generateChallenge {walletAddress : String}
    (hvalid : cfg.sdk.isValidEd25519PublicKey walletAddress = true) :
    Obeys (Acting cfg (.generateChallenge walletAddress)) (generateChallenge walletAddress)
      Anyhow Anyhow () [] := by
  refine Obeys.bind (Obeys.perform (.randomBytes _) fun nonce : String => ?_)
  refine Obeys.bind (Obeys.perform (.timestamp _ _) fun timestamp : ℤ => ?_)
  exact Obeys.bind (Obeys.call (.setChallenge hvalid nonce timestamp) fun _ => Obeys.pure trivial)

/-- From a log on, the call may open a session. -/
theorem admits_opens (walletAddress signedEnvelopeXdr challenge nonce : String) (now : ℤ) :
    Admits (Acting cfg (.verifySignature walletAddress signedEnvelopeXdr challenge))
      (fun o => o.opens = true) (usedLog walletAddress challenge nonce now <:+ ·) :=
  ⟨fun _ _ hL ho => .opens hL ho, fun _ _ _ hL _ => hL.trans (List.suffix_cons _ _)⟩

theorem uses_openSession (walletAddress : String) :
    (openSession cfg walletAddress).Uses fun o => o.opens = true := by
  have hquery : ∀ q, (query q).Uses fun o => o.opens = true := fun q => Routine.uses_call rfl
  have hsign : ∀ secret payload, (signAsync secret payload).Uses fun o => o.opens = true :=
    fun secret payload => Routine.uses_bind (Routine.uses_perform rfl) fun _ => Routine.uses_pure _
  refine Routine.uses_bind (Routine.uses_bind (hquery _) fun found => ?_) fun user => ?_
  · cases found with
    | some user => exact Routine.uses_pure user
    | none =>
      refine Routine.uses_bind (hquery _) fun user => ?_
      exact Routine.uses_bind (Routine.uses_call rfl) fun _ => Routine.uses_pure user
  · refine Routine.uses_bind (Routine.uses_bind (hsign _ _) fun _ => ?_) fun tokens => ?_
    · exact Routine.uses_bind (hsign _ _) fun _ => Routine.uses_pure _
    · exact Routine.uses_bind (hquery _) fun _ => Routine.uses_pure tokens

theorem obeys_verifySignature (walletAddress signedEnvelopeXdr challenge : String) :
    Obeys (Acting cfg (.verifySignature walletAddress signedEnvelopeXdr challenge))
      (verifySignature cfg walletAddress signedEnvelopeXdr challenge)
      (fun _ _ L => ∃ nonce now, usedLog walletAddress challenge nonce now <:+ L ∧
        Passes cfg walletAddress signedEnvelopeXdr challenge nonce now) Anyhow () [] := by
  refine Obeys.bind (Obeys.perform (.getChallenge _ _ _) fun found : Option String => ?_)
  refine Obeys.bind (Obeys.valueOr (fun stored hstored => ?_) fun _ => trivial)
  obtain ⟨rfl, -⟩ := Option.filter_eq_some_iff.mp hstored
  refine Obeys.bind (Obeys.throwWhen (fun _ => trivial) fun hsame => ?_)
  obtain rfl : stored = challenge := not_not.mp (of_decide_eq_false hsame)
  refine Obeys.bind (Obeys.valueOr (fun nonce hnonce => ?_) fun _ => trivial)
  refine Obeys.bind (Obeys.perform (.sismember _ _ hnonce) fun replayed : Bool => ?_)
  refine Obeys.bind (Obeys.throwWhen (fun _ => trivial) fun hfresh => ?_)
  subst hfresh
  refine Obeys.bind (Obeys.bind (Obeys.valueOr (fun transaction htransaction => ?_) fun _ => trivial))
  refine Obeys.bind (Obeys.valueOr (fun timeBounds hbounds => ?_) fun _ => trivial)
  refine Obeys.bind (Obeys.perform (.now _ _ _ _) fun now : ℤ => ?_)
  refine Obeys.throwWhen (fun _ => trivial) fun hwithin => ?_
  refine Obeys.bind (Obeys.throwWhen (fun _ => trivial) fun hsigned => ?_)
  have hpasses : Passes cfg walletAddress signedEnvelopeXdr stored nonce now :=
    ⟨hnonce, ⟨transaction, timeBounds, htransaction, hbounds, (Bool.not_eq_false' _).mp hwithin⟩,
      (Bool.not_eq_false' _).mp hsigned⟩
  refine Obeys.bind (Obeys.call (.sadd hpasses) fun _ => ?_)
  refine Obeys.bind (Obeys.call (.expire hpasses) fun _ => ?_)
  refine Obeys.bind (Obeys.call (.delChallenge hpasses) fun _ => ?_)
  refine (Obeys.of_uses (admits_opens walletAddress signedEnvelopeXdr stored nonce now)
    (uses_openSession walletAddress) (List.suffix_refl _)).mono (fun _ _ L hL => ?_) fun _ _ _ _ => trivial
  exact ⟨nonce, now, hL.2, hpasses⟩

/-- **Every call follows the discipline.** -/
theorem follows_acting (cfg : Config) (c : Call) :
    Follows (Acting cfg c) (Returned cfg c) ((system cfg).body c) [] := by
  suffices h : Obeys (Acting cfg c) (c.body cfg)
      (fun reply _ L => Returned cfg c (.ok reply) L) Anyhow () [] by
    refine h.follows.bind fun x L hx => ?_
    obtain ⟨x, t⟩ := x
    cases x with
    | error e => cases c <;> trivial
    | ok reply => exact hx
  cases c with
  | generateChallenge walletAddress =>
    refine Obeys.bind (Obeys.throwWhen (fun _ => trivial) fun hvalid => ?_)
    refine Obeys.bind ((obeys_generateChallenge ((Bool.not_eq_false' _).mp hvalid)).mono (fun _ _ _ _ => ?_)
      fun _ _ _ _ => trivial)
    exact Obeys.pure trivial
  | verifySignature walletAddress signedEnvelopeXdr challenge =>
    refine Obeys.bind (Obeys.throwWhen (fun _ => trivial) fun _ => ?_)
    exact Obeys.bind ((obeys_verifySignature walletAddress signedEnvelopeXdr challenge).mono
      (fun _ _ _ h => Obeys.pure h) fun _ _ _ _ => trivial)

end Obeys

/-! ### Where challenges come from -/

/-- The challenge has been generated for the wallet, with the nonce, and stored. -/
def Generated (h : History) (walletAddress challenge nonce : String) : Prop :=
  ∃ g timestamp, Event.start g (.generateChallenge walletAddress) ∈ h.trace ∧
    ⟨.randomBytes, nonce⟩ ∈ log g h.trace ∧
      ⟨.setChallenge walletAddress challenge, ()⟩ ∈ log g h.trace ∧
        cfg.sdk.isValidEd25519PublicKey walletAddress = true ∧ isNonce nonce = true ∧
          challenge = challengeText walletAddress nonce timestamp

/-- **Challenges are generated**, those that are stored and those that were found, and live no longer
than they should; no nonce is generated twice. -/
structure Provided (h : History) : Prop where
  stored : ∀ walletAddress challenge expiry,
    h.world.challenges walletAddress = some (challenge, expiry) →
      (∃ nonce, Generated cfg h walletAddress challenge nonce) ∧ expiry ≤ h.world.clock + cfg.ttl
  found : ∀ p walletAddress challenge,
    ⟨.getChallenge walletAddress, some challenge⟩ ∈ log p h.trace →
      ∃ nonce, Generated cfg h walletAddress challenge nonce
  random : ∀ p nonce, ⟨.randomBytes, nonce⟩ ∈ log p h.trace →
    isNonce nonce = true ∧ nonce ∈ h.world.nonces
  distinct : ∀ p q nonce, ⟨.randomBytes, nonce⟩ ∈ log p h.trace →
    ⟨.randomBytes, nonce⟩ ∈ log q h.trace → p = q

section Provided

variable {cfg} {h h' : History}

theorem log_mono {p : ℕ} {e : Entry Op.Ret} (he : e ∈ log p h.trace)
    (hsub : ∀ e' ∈ h.trace, e' ∈ h'.trace) : e ∈ log p h'.trace := by
  obtain ⟨o, r⟩ := e
  obtain ⟨w, hw⟩ := mem_log.mp he
  exact mem_log.mpr ⟨w, hsub _ hw⟩

theorem Generated.mono {walletAddress challenge nonce : String}
    (hg : Generated cfg h walletAddress challenge nonce) (hsub : ∀ e ∈ h.trace, e ∈ h'.trace) :
    Generated cfg h' walletAddress challenge nonce := by
  obtain ⟨g, timestamp, hstart, hrandom, hset, hvalid, hnonce, htext⟩ := hg
  exact ⟨g, timestamp, hsub _ hstart, log_mono hrandom hsub, log_mono hset hsub, hvalid, hnonce, htext⟩

/-- The nonce of a challenge that was generated is read back. -/
theorem Generated.nonce (hline : ∀ walletAddress, cfg.sdk.isValidEd25519PublicKey walletAddress = true →
      '\n' ∉ walletAddress.toList) {walletAddress challenge nonce : String}
    (hg : Generated cfg h walletAddress challenge nonce) :
    extractNonceFromChallenge challenge = some nonce := by
  obtain ⟨g, timestamp, -, -, -, hvalid, hnonce, rfl⟩ := hg
  exact extractNonceFromChallenge_challengeText (hline _ hvalid) hnonce timestamp

theorem Provided.step (hp : Provided cfg h) (hs : HistStep (system cfg) (Acting cfg) h h') :
    Provided cfg h' := by
  have hentry := fun {p e} (he : e ∈ log p h'.trace) => hs.mem_log he
  cases hs with
  | idle e he hlive =>
    have hsub : ∀ e' ∈ h.trace, e' ∈ (h.push e h.world).trace := fun e' => List.mem_cons_of_mem e
    refine ⟨fun walletAddress challenge expiry hstored => ?_, fun p walletAddress challenge hfound => ?_,
      fun p nonce hrandom => ?_, fun p q nonce hrandom hrandom' => ?_⟩
    · obtain ⟨⟨nonce, hgenerated⟩, hexpiry⟩ := hp.stored walletAddress challenge expiry hstored
      exact ⟨⟨nonce, hgenerated.mono hsub⟩, hexpiry⟩
    · obtain ⟨nonce, hgenerated⟩ := hp.found p walletAddress challenge (he p h.trace ▸ hfound)
      exact ⟨nonce, hgenerated.mono hsub⟩
    · exact hp.random p nonce (he p h.trace ▸ hrandom)
    · exact hp.distinct p q nonce (he p h.trace ▸ hrandom) (he q h.trace ▸ hrandom')
  | did pid c o choice r w hstart hD hexec hlive =>
    have hsub : ∀ e' ∈ h.trace, e' ∈ (h.push (.did pid o r h.world) w).trace := fun e' =>
      List.mem_cons_of_mem _
    have heffect := effect_of_exec hexec
    refine ⟨fun walletAddress challenge expiry hstored => ?_, fun p walletAddress challenge hfound => ?_,
      fun p nonce hrandom => ?_, fun p q nonce hrandom hrandom' => ?_⟩
    · rcases heffect.challenges walletAddress with hkept | hgone | ⟨challenge', rfl, hset⟩
      · obtain ⟨⟨nonce, hgenerated⟩, hexpiry⟩ := hp.stored _ _ _ (hkept.symm.trans hstored)
        exact ⟨⟨nonce, hgenerated.mono hsub⟩, Int.le_trans hexpiry (Int.add_le_add_right heffect.clock _)⟩
      · exact absurd (hgone.symm.trans hstored) nofun
      · cases hset.symm.trans hstored
        generalize hL : log pid h.trace = L at hD
        cases hD with
        | setChallenge hvalid nonce timestamp =>
          have hrandom : ⟨.randomBytes, nonce⟩ ∈ log pid h.trace :=
            hL ▸ List.mem_cons_of_mem _ List.mem_cons_self
          have hset : ⟨.setChallenge walletAddress (challengeText walletAddress nonce timestamp), r⟩ ∈
              log pid (h.push (.did pid _ r h.world) w).trace := by
            rw [Hist.push_trace, log_did_self]
            exact List.mem_cons_self
          exact ⟨⟨nonce, pid, timestamp, hsub _ hstart, log_mono hrandom hsub, hset, hvalid,
            (hp.random pid nonce hrandom).1, rfl⟩, Int.le_refl _⟩
        | opens hL ho => cases ho
    · rcases hentry hfound with hfound | ⟨choice, hexec⟩
      · obtain ⟨nonce, hgenerated⟩ := hp.found p walletAddress challenge hfound
        exact ⟨nonce, hgenerated.mono hsub⟩
      · obtain ⟨expiry, hstored⟩ := stored_of_exec hexec
        obtain ⟨⟨nonce, hgenerated⟩, -⟩ := hp.stored _ _ _ hstored
        exact ⟨nonce, hgenerated.mono hsub⟩
    · rcases hentry hrandom with hrandom | ⟨choice, hexec⟩
      · obtain ⟨hnonce, hmem⟩ := hp.random p nonce hrandom
        exact ⟨hnonce, heffect.nonces nonce hmem⟩
      · obtain ⟨hnonce, -, hmem⟩ := new_of_exec hexec
        exact ⟨hnonce, hmem⟩
    · have hown : ∀ {p}, ⟨.randomBytes, nonce⟩ ∈ log p (h.push (.did pid o r h.world) w).trace →
          ⟨.randomBytes, nonce⟩ ∈ log p h.trace ∨ p = pid ∧ nonce ∉ h.world.nonces := by
        intro p hmem
        by_cases hpid : pid = p
        · rcases hentry hmem with hmem | ⟨choice, hexec⟩
          · exact .inl hmem
          · exact .inr ⟨hpid.symm, (new_of_exec hexec).2.1⟩
        · rw [Hist.push_trace, log_cons_of_ne (e := .did pid o r h.world) hpid] at hmem
          exact .inl hmem
      rcases hown hrandom with hold | ⟨rfl, hnew⟩ <;> rcases hown hrandom' with hold' | ⟨hq, hnew'⟩
      · exact hp.distinct p q nonce hold hold'
      · exact absurd (hp.random p nonce hold).2 hnew'
      · exact absurd (hp.random q nonce hold').2 hnew
      · exact hq.symm

end Provided

/-- **The rule for runs**: an invariant of the history, which may rely on where challenges come from,
when none is stored at first. -/
theorem invariant_of_provided {cfg : Config} {ok : History → History → Prop} {I : History → Prop}
    {w₀ : World} (hempty : ∀ walletAddress, w₀.challenges walletAddress = none) (h₀ : I ⟨w₀, []⟩)
    (hstep : ∀ h h', Disciplined (Acting cfg) (Returned cfg) h →
      Disciplined (Acting cfg) (Returned cfg) h' → Provided cfg h → I h →
      HistStep (system cfg) (Acting cfg) h h' → ok h h' → I h')
    {s : AuthState} (hs : (system cfg).ReachableWhen ok (.init w₀) s) : Provided cfg s.hist ∧ I s.hist :=
  hist_invariant (follows_acting cfg) (I := fun h => Provided cfg h ∧ I h)
    ⟨⟨fun walletAddress _ _ h => absurd ((hempty walletAddress).symm.trans h) nofun,
      fun _ _ _ h => absurd h List.not_mem_nil, fun _ _ h => absurd h List.not_mem_nil,
      fun _ _ _ h => absurd h List.not_mem_nil⟩, h₀⟩
    (fun h h' hd hd' hI hk hok => ⟨hI.1.step hk, hstep h h' hd hd' hI.1 hI.2 hk hok⟩) hs

/-! ### The binding -/

/-- What a transaction says includes the nonce. -/
def TransactionBody.includes (nonce : String) (body : TransactionBody) : Bool :=
  body.content.any fun text => decide (nonce.toList <:+: text.toList)

/-- The time is within the time bounds of the transaction. -/
def TransactionBody.isOpen (now : ℤ) (body : TransactionBody) : Bool :=
  body.timeBounds.any (withinTimebounds · now)

/-- **Signatures are unforgeable**: who verifies a signature by a key over a transaction verifies one
that the owner of the key has made. `signed` lists what the owners have ever signed, for whatever
purpose. A valid address is one line. -/
structure Trusted (sdk : Sdk) (signed : String → List TransactionBody) : Prop where
  unforgeable : ∀ key body signature, sdk.verify key (sdk.hash body) signature = some true →
    body ∈ signed key
  address : ∀ walletAddress, sdk.isValidEd25519PublicKey walletAddress = true →
    '\n' ∉ walletAddress.toList

/-- **Tokens are bound to the challenge**: they are issued for a wallet only if the envelope carries a
signature by its key over a transaction that includes the nonce which was generated for the very
challenge that is answered. -/
def Bound (h : History) : Prop :=
  ∀ p walletAddress signedEnvelopeXdr challenge tokens,
    Event.start p (.verifySignature walletAddress signedEnvelopeXdr challenge) ∈ h.trace →
    Event.returned p (.ok (.tokens tokens)) ∈ h.trace →
      ∃ nonce key transaction, Generated cfg h walletAddress challenge nonce ∧
        cfg.sdk.fromPublicKey walletAddress = some key ∧
        cfg.sdk.fromXDR signedEnvelopeXdr = some transaction ∧
        (∃ decorated ∈ transaction.signatures,
          cfg.sdk.verify key (cfg.sdk.hash transaction.body) decorated.signature = some true) ∧
        transaction.body.includes nonce = true

/-- Everything that the owner of a wallet has signed, and that is open, includes a nonce. -/
def ownerIncludes (signed : String → List TransactionBody) (walletAddress nonce : String) (now : ℤ) : Bool :=
  (cfg.sdk.fromPublicKey walletAddress).all fun key =>
    (signed key).all fun body => !body.isOpen now || body.includes nonce

/-- Whether, when a request checks the time bounds of its envelope, everything that the owner of its
wallet has signed and that is open then includes the nonce of its challenge. -/
def ownerBinds (signed : String → List TransactionBody) (h h' : History) : Bool :=
  match h'.trace with
  | .did pid .now (now : ℤ) _ :: _ =>
      match log pid h.trace with
      | ⟨.sismember nonce, _⟩ :: _ => h.trace.all fun
          | .start p (.verifySignature walletAddress _ _) =>
              p ≠ pid || ownerIncludes cfg signed walletAddress nonce now
          | _ => true
      | _ => true
  | _ => true

section Binding

variable {cfg} {signed : String → List TransactionBody} {h h' : History}

variable (cfg signed) in
/-- What the condition has established for the requests that have checked their time bounds. -/
def Included (h : History) : Prop :=
  ∀ p walletAddress signedEnvelopeXdr challenge nonce now,
    Event.start p (.verifySignature walletAddress signedEnvelopeXdr challenge) ∈ h.trace →
    timedLog walletAddress challenge nonce now <:+ log p h.trace →
      ownerIncludes cfg signed walletAddress nonce now = true

theorem Included.step (hi : Included cfg signed h) (hd : Disciplined (Acting cfg) (Returned cfg) h)
    (hd' : Disciplined (Acting cfg) (Returned cfg) h')
    (hs : HistStep (system cfg) (Acting cfg) h h') (hok : ownerBinds cfg signed h h' = true) :
    Included cfg signed h' := by
  cases hs with
  | idle e he hlive =>
    intro p walletAddress signedEnvelopeXdr challenge nonce now hstart hlog
    rw [Hist.push_trace, he] at hlog
    -- a call that has performed an operation has started before
    obtain ⟨w, hw⟩ := mem_log.mp (hlog.subset List.mem_cons_self)
    obtain ⟨c, hc⟩ := hd.start_mem _ hw
    have hstart' := hd'.start_unique p _ _ (List.mem_cons_of_mem e hc) hstart ▸ hc
    exact hi p walletAddress signedEnvelopeXdr challenge nonce now hstart' hlog
  | did pid c o choice r w hstart hD hexec hlive =>
    intro p walletAddress signedEnvelopeXdr challenge nonce now hstart' hlog
    replace hstart' := (List.mem_cons.mp hstart').resolve_left nofun
    by_cases hp : pid = p
    · subst hp
      rw [Hist.push_trace, log_did_self] at hlog
      rcases List.suffix_cons_iff.mp hlog with heq | hlog
      · obtain ⟨heq, hrest⟩ := List.cons.inj heq
        cases heq
        have hall : (match log pid h.trace with
          | ⟨.sismember nonce, _⟩ :: _ => h.trace.all fun
              | .start p (.verifySignature walletAddress _ _) =>
                  p ≠ pid || ownerIncludes cfg signed walletAddress nonce now
              | _ => true
          | _ => true) = true := hok
        rw [← hrest] at hall
        have hown := List.all_eq_true.mp hall _ hstart'
        exact (Bool.or_eq_true_iff.mp hown).resolve_left fun hne => of_decide_eq_true hne rfl
      · exact hi pid walletAddress signedEnvelopeXdr challenge nonce now hstart' hlog
    · rw [Hist.push_trace, log_cons_of_ne (e := .did pid o r h.world) hp] at hlog
      exact hi p walletAddress signedEnvelopeXdr challenge nonce now hstart' hlog

/-- **Tokens are bound to the challenge in every run** in which, whenever a request checks the time
bounds of its envelope, everything that the owner of its wallet has signed and that is open then
includes the nonce of its challenge. -/
theorem bound_of_ownerBinds (cfg : Config) (signed : String → List TransactionBody)
    (htrusted : Trusted cfg.sdk signed) (w₀ : World)
    (hempty : ∀ walletAddress, w₀.challenges walletAddress = none) (s : AuthState)
    (hs : (system cfg).ReachableWhen (fun h h' => ownerBinds cfg signed h h' = true) (.init w₀) s) :
    Bound cfg s.hist := by
  have hdisc := disciplined_of_reachable (follows_acting cfg) hs
  obtain ⟨hprovided, hincluded⟩ := invariant_of_provided (I := Included cfg signed) hempty
    (fun p _ _ _ _ _ hstart => absurd hstart List.not_mem_nil)
    (fun h h' hd hd' _ hi hk hok => hi.step hd hd' hk hok) hs
  intro p walletAddress signedEnvelopeXdr challenge tokens hstart hreturned
  obtain ⟨nonce, now, hused, hpasses⟩ := hdisc.returned p _ _ hstart hreturned
  have htimed : timedLog walletAddress challenge nonce now <:+ log p s.hist.trace :=
    List.IsSuffix.trans ⟨[_, _, _], rfl⟩ hused
  have hasked : ⟨.getChallenge walletAddress, some challenge⟩ ∈ log p s.hist.trace :=
    htimed.subset (List.mem_cons_of_mem _ (List.mem_cons_of_mem _ List.mem_cons_self))
  obtain ⟨nonce', hgenerated⟩ := hprovided.found p walletAddress challenge hasked
  -- the nonce that is read off the challenge is the one that was generated
  obtain rfl : nonce' = nonce :=
    Option.some.inj ((hgenerated.nonce htrusted.address).symm.trans hpasses.nonce)
  obtain ⟨key, transaction, hkey, htransaction, decorated, hdecorated, hverify⟩ :=
    verify_of_verifyEnvelopeSignature hpasses.signature
  refine ⟨nonce', key, transaction, hgenerated, hkey, htransaction, ⟨decorated, hdecorated, hverify⟩, ?_⟩
  -- the owner has signed the transaction, and it is open
  have hsigned := htrusted.unforgeable key transaction.body decorated.signature hverify
  obtain ⟨transaction', timeBounds, htransaction', hbounds, hwithin⟩ := hpasses.timebounds
  obtain rfl := Option.some.inj (htransaction.symm.trans htransaction')
  have hopen : transaction.body.isOpen now = true := by
    rw [TransactionBody.isOpen, hbounds]
    exact hwithin
  have hall := hincluded p walletAddress signedEnvelopeXdr challenge nonce' now hstart htimed
  rw [ownerIncludes, hkey] at hall
  have hbody := List.all_eq_true.mp hall _ hsigned
  rw [hopen] at hbody
  exact hbody

end Binding

/-! ### A transaction signed for another purpose -/

namespace Sample

/-- A nonce. -/
def nonce : String := String.ofList (List.replicate 64 'a')

/-- A transaction that is open for some minutes. -/
def body (text : String) : TransactionBody := ⟨some (0, 300), [text]⟩

/-- There is one wallet, whose owner has signed one transaction, and one envelope, which carries it. -/
def config (text : String) : Config where
  sdk :=
    { isValidEd25519PublicKey := fun walletAddress => walletAddress = "G"
      fromPublicKey := fun _ => some "key"
      signatureHint := fun _ => "hint"
      fromXDR := fun _ => some ⟨body text, [⟨"hint", "signature"⟩]⟩
      hash := fun b => if b = body text then "signed" else "other"
      verify := fun key hash _ => some (key = "key" && hash = "signed") }
  digest _ := "digest"

/-- What the owner has signed. -/
def signed (text key : String) : List TransactionBody := if key = "key" then [body text] else []

theorem trusted (text : String) : Trusted (config text).sdk (signed text) := by
  refine ⟨fun key b signature hverify => ?_, fun walletAddress hvalid => ?_⟩
  · obtain ⟨hkey, hhash⟩ := Bool.and_eq_true_iff.mp (Option.some.inj hverify)
    have hsigned : (if b = body text then "signed" else "other") = "signed" := of_decide_eq_true hhash
    split at hsigned
    next hbody =>
      rw [signed, if_pos (of_decide_eq_true hkey), hbody]
      exact List.mem_singleton_self _
    next => exact absurd hsigned (by decide)
  · rw [of_decide_eq_true hvalid]
    decide

/-- A challenge is generated, at the beginning. -/
def challenge : String := challengeText "G" nonce 0

theorem isNonce_nonce : isNonce nonce = true := by decide +kernel

/-- The nonce of the challenge is known: no run of these has to search the text for it. -/
theorem extractNonceFromChallenge_eq : extractNonceFromChallenge = fun text =>
    if text = challenge then some nonce else extractNonceFromChallenge text := by
  funext text
  by_cases htext : text = challenge
  · rw [if_pos htext, htext]
    exact extractNonceFromChallenge_challengeText (by decide) isNonce_nonce 0
  · rw [if_neg htext]

/-- A request for a challenge. -/
def asking (pid : ℕ) : List (Move Choice Call) :=
  [.start (.generateChallenge "G"), .run pid (.nonce nonce), .run pid (.time 0), .run pid (.time 0),
    .finish pid]

/-- A request for tokens, up to the look-up of the nonce. -/
def lookingUp (pid : ℕ) (now : ℤ) : List (Move Choice Call) :=
  [.start (.verifySignature "G" "envelope" challenge), .run pid (.time now), .run pid (.time now)]

/-- Its rest, for a user who is there. -/
def opening (pid : ℕ) (now : ℤ) : List (Move Choice Call) :=
  [.run pid (.time now), .run pid (.time now), .run pid (.time now), .run pid .done, .run pid .done,
    .run pid (.time now), .run pid (.time now), .run pid .done, .finish pid]

/-- The user is there. -/
def world : World where
  users := Table.empty.put { id := 0, walletAddress := "G" }

/-- The request has returned tokens. -/
def issues (pid : ℕ) (h : History) : Bool :=
  (h.trace.any fun
    | .start p (.verifySignature "G" "envelope" challenge') => p = pid ∧ challenge' = challenge
    | _ => false) &&
  h.trace.any fun
    | .returned p (.ok (.tokens _)) => p = pid
    | _ => false

theorem of_issues {pid : ℕ} {h : History} (hissues : issues pid h = true) :
    Event.start pid (.verifySignature "G" "envelope" challenge) ∈ h.trace ∧
      ∃ tokens, Event.returned pid (.ok (.tokens tokens)) ∈ h.trace := by
  obtain ⟨hstart, hreturned⟩ := Bool.and_eq_true_iff.mp hissues
  obtain ⟨e, he, hpresents⟩ := List.any_eq_true.mp hstart
  obtain ⟨e', he', hreturns⟩ := List.any_eq_true.mp hreturned
  split at hpresents
  next p challenge' =>
    obtain ⟨rfl, rfl⟩ := of_decide_eq_true hpresents
    split at hreturns
    next p' tokens =>
      obtain rfl := of_decide_eq_true hreturns
      exact ⟨he, tokens, he'⟩
    next => cases hreturns
  next => cases hpresents

end Sample

/-- The owner has signed a transaction that includes the nonce. -/
theorem bound_sample : ∃ s : AuthState, Sample.issues 1 s.hist = true ∧
    Bound (Sample.config Sample.nonce) s.hist := by
  obtain ⟨s, hs, hdone⟩ := System.exists_of_replay (system (Sample.config Sample.nonce))
    (fun h h' => ownerBinds (Sample.config Sample.nonce) (Sample.signed Sample.nonce) h h' = true)
    (.init Sample.world) (Sample.asking 0 ++ Sample.lookingUp 1 1000 ++ Sample.opening 1 1000)
    (fun s => Sample.issues 1 s.hist)
    (by
      delta system Call.body verifySignature
      rw [Sample.extractNonceFromChallenge_eq]
      decide +kernel)
  exact ⟨s, hdone, bound_of_ownerBinds _ _ (Sample.trusted _) _ (fun _ => rfl) s hs⟩

/-- A payment that the owner has signed answers the challenge. -/
theorem not_bound : ¬ ∀ (cfg : Config) (signed : String → List TransactionBody),
    Trusted cfg.sdk signed → ∀ w₀ : World, (∀ walletAddress, w₀.challenges walletAddress = none) →
      ∀ s, (system cfg).Reachable (.init w₀) s → Bound cfg s.hist := by
  intro hall
  obtain ⟨s, hs, hdone⟩ := System.exists_of_replay (system (Sample.config "payment")) (fun _ _ => True)
    (.init Sample.world) (Sample.asking 0 ++ Sample.lookingUp 1 1000 ++ Sample.opening 1 1000)
    (fun s => Sample.issues 1 s.hist)
    (by
      delta system Call.body verifySignature
      rw [Sample.extractNonceFromChallenge_eq]
      decide +kernel)
  obtain ⟨hstart, tokens, hreturned⟩ := Sample.of_issues hdone
  obtain ⟨nonce, key, transaction, hgenerated, hkey, htransaction, hdecorated, hincludes⟩ :=
    hall _ _ (Sample.trusted _) _ (fun _ => rfl) s hs 1 _ _ _ tokens hstart hreturned
  obtain ⟨g, timestamp, -, -, -, -, hnonce, -⟩ := hgenerated
  obtain rfl := Option.some.inj htransaction
  obtain ⟨text, htext, hinfix⟩ := List.any_eq_true.mp hincludes
  obtain rfl := List.mem_singleton.mp htext
  have hlength : nonce.toList.length = 64 := of_decide_eq_true (Bool.and_eq_true_iff.mp hnonce).1
  have hle : nonce.toList.length ≤ "payment".toList.length := (of_decide_eq_true hinfix).length_le
  have hpayment : "payment".toList.length = 7 := by decide
  omega

end Ahjoor.StellarAuth
