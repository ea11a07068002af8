import Ahjoor.StellarAuth.Binding

/-!
# The use of a nonce

A request looks its nonce up in the set of used nonces, and adds it only after its other checks. So
two requests may both look it up before either has added it. The set has one expiry, which each login
sets anew; a Redis operation that fails says nothing.

If every other request that has passed the look-up of the nonce and has not failed has recorded it by
then, then at most one pair of tokens is issued for each nonce. If the set holds the nonce for the
lifetime of a challenge once its expiry has been set, then it holds it for as long as the challenge is
there.
-/

namespace Ahjoor.StellarAuth

open Async Store

variable (cfg : Config)

/-! ### The condition -/

/-- The request has looked the nonce up and has not found it. -/
def passed (h : History) (pid : ℕ) (nonce : String) : Bool :=
  (log pid h.trace).any fun
    | ⟨.sismember nonce', false⟩ => nonce' = nonce
    | _ => false

/-- The request has added the nonce. -/
def recorded (h : History) (pid : ℕ) (nonce : String) : Bool :=
  (log pid h.trace).any fun
    | ⟨.sadd nonce', _⟩ => nonce' = nonce
    | _ => false

/-- The request has failed. -/
def failed (h : History) (pid : ℕ) : Bool :=
  h.trace.any fun
    | .returned p (.error _) | .crashed p => p = pid
    | _ => false

/-- Whether a request that looks a nonce up is answered as the set says, and every other request that
has passed the look-up of the nonce and has not failed has added it, and the set still holds it. -/
def looksUpAlone (h h' : History) : Bool :=
  match h'.trace with
  | .did pid (.sismember nonce) (answer : Bool) _ :: _ =>
      answer = decide (nonce ∈ h.world.usedAt h'.world.clock) && h.trace.all fun e =>
        e.pid = pid || !passed h e.pid nonce || failed h e.pid ||
          recorded h e.pid nonce && nonce ∈ h.world.usedAt h'.world.clock
  | _ => true

/-- Whether the set holds the nonce that a request has added for the lifetime of a challenge, once the
request has set the expiry. -/
def holdsNonce (h h' : History) : Bool :=
  match h'.trace with
  | .did pid .expire _ _ :: _ =>
      match log pid h.trace with
      | ⟨.sadd nonce, _⟩ :: _ => nonce ∈ h'.world.usedNonces.1 &&
          h'.world.usedNonces.2.all (h'.world.clock + cfg.ttl ≤ ·)
      | _ => true
  | _ => true

/-! ### One pair for a nonce -/

/-- The request answers a challenge with the nonce. -/
def Answers (h : History) (pid : ℕ) (nonce : String) : Prop :=
  ∃ walletAddress signedEnvelopeXdr challenge,
    Event.start pid (.verifySignature walletAddress signedEnvelopeXdr challenge) ∈ h.trace ∧
      extractNonceFromChallenge challenge = some nonce

/-- **A nonce is used once**: at most one pair of tokens is issued for it, every other request that
answers it ends with an exception, and as long as a challenge with the nonce is there, the nonce is in
the set of those that were used. -/
structure UsedOnce (h : History) : Prop where
  once : ∀ p q nonce tokens tokens', Answers h p nonce → Answers h q nonce →
    Event.returned p (.ok (.tokens tokens)) ∈ h.trace →
    Event.returned q (.ok (.tokens tokens')) ∈ h.trace → p = q
  rejected : ∀ p q nonce tokens reply, Answers h p nonce → Answers h q nonce →
    Event.returned p (.ok (.tokens tokens)) ∈ h.trace → Event.returned q reply ∈ h.trace → q ≠ p →
      ∃ e, reply = .error e
  remembered : ∀ p nonce tokens, Answers h p nonce →
    Event.returned p (.ok (.tokens tokens)) ∈ h.trace → ∀ walletAddress challenge t,
      h.world.clock ≤ t → h.world.challengeAt t walletAddress = some challenge →
        extractNonceFromChallenge challenge = some nonce → nonce ∈ h.world.usedAt t

/-- The nonce has been looked up and not found. -/
def Passed (h : History) (pid : ℕ) (nonce : String) : Prop :=
  ⟨.sismember nonce, false⟩ ∈ log pid h.trace

/-- Of two requests that have passed the look-up of a nonce, one has failed. -/
def Sole (h : History) : Prop :=
  ∀ p q nonce, p ≠ q → Passed h p nonce → Passed h q nonce → failed h p = true ∨ failed h q = true

section Sole

variable {cfg} {h h' : History} {p q pid : ℕ} {nonce : String}

theorem passed_of_passed (hp : Passed h p nonce) : passed h p nonce = true :=
  List.any_eq_true.mpr ⟨_, hp, decide_eq_true rfl⟩

theorem failed_mono (hsub : ∀ e ∈ h.trace, e ∈ h'.trace) (hf : failed h p = true) :
    failed h' p = true := by
  obtain ⟨e, he, hfailed⟩ := List.any_eq_true.mp hf
  exact List.any_eq_true.mpr ⟨e, hsub e he, hfailed⟩

/-- Who has returned tokens has not failed. -/
theorem not_failed_of_returned (he : EndsOnce h) {tokens : Tokens}
    (hreturned : Event.returned p (.ok (.tokens tokens)) ∈ h.trace) : failed h p = false := by
  by_contra hf
  obtain ⟨e, hmem, hfailed⟩ := List.any_eq_true.mp (Bool.not_eq_false _ ▸ hf)
  split at hfailed
  next p' msg =>
    have heq := he _ _ hmem hreturned rfl rfl (of_decide_eq_true hfailed)
    cases heq
  next p' =>
    have heq := he _ _ hmem hreturned rfl rfl (of_decide_eq_true hfailed)
    cases heq
  next => cases hfailed

/-- **Every step keeps it so**, if a request looks its nonce up alone. -/
theorem Sole.step (hsole : Sole h) (hs : HistStep (system cfg) (Acting cfg) h h')
    (hok : looksUpAlone h h' = true) : Sole h' := by
  cases hs with
  | idle e he hlive =>
    have hsub : ∀ e' ∈ h.trace, e' ∈ (h.push e h.world).trace := fun e' => List.mem_cons_of_mem e
    intro p q nonce hne hp hq
    rw [Passed, Hist.push_trace, he] at hp hq
    rcases hsole p q nonce hne hp hq with hf | hf
    · exact .inl (failed_mono hsub hf)
    · exact .inr (failed_mono hsub hf)
  | did pid c o choice r w hstart hD hexec hlive =>
    have hsub : ∀ e' ∈ h.trace, e' ∈ (h.push (.did pid o r h.world) w).trace := fun e' =>
      List.mem_cons_of_mem _
    have hown : ∀ {p nonce}, Passed (h.push (.did pid o r h.world) w) p nonce →
        Passed h p nonce ∨ p = pid ∧ (⟨o, r⟩ : Entry Op.Ret) = ⟨.sismember nonce, false⟩ := by
      intro p nonce hp
      by_cases hpid : pid = p
      · subst hpid
        rw [Passed, Hist.push_trace, log_did_self] at hp
        exact (List.mem_cons.mp hp).symm.imp_right fun heq => ⟨rfl, heq.symm⟩
      · rw [Passed, Hist.push_trace, log_cons_of_ne (e := .did pid o r h.world) hpid] at hp
        exact .inl hp
    -- whoever has passed the look-up before has failed
    have hnew : ∀ {p nonce}, p ≠ pid → Passed h p nonce →
        (⟨o, r⟩ : Entry Op.Ret) = ⟨.sismember nonce, false⟩ → failed h p = true := by
      intro p nonce hne hp heq
      cases heq
      obtain ⟨hanswer, hall⟩ := Bool.and_eq_true_iff.mp hok
      have hunused : decide (nonce ∈ h.world.usedAt w.clock) = false := (of_decide_eq_true hanswer).symm
      obtain ⟨w₁, hmem⟩ := mem_log.mp hp
      have hother := List.all_eq_true.mp hall _ hmem
      change (decide (p = pid) || !passed h p nonce || failed h p ||
        recorded h p nonce && decide (nonce ∈ h.world.usedAt w.clock)) = true at hother
      rw [hunused, passed_of_passed hp, decide_eq_false hne, Bool.and_false, Bool.or_false] at hother
      exact hother
    intro p q nonce hne hp hq
    rcases hown hp with hp | ⟨rfl, heq⟩ <;> rcases hown hq with hq | ⟨hpid, heq'⟩
    · rcases hsole p q nonce hne hp hq with hf | hf
      · exact .inl (failed_mono hsub hf)
      · exact .inr (failed_mono hsub hf)
    · exact .inl (failed_mono hsub (hnew (hpid ▸ hne) hp heq'))
    · exact .inr (failed_mono hsub (hnew hne.symm hq heq))
    · exact absurd hpid.symm hne

end Sole

/-! ### The set of used nonces -/

/-- The request has added the nonce of its challenge, and has set the expiry of the set. -/
def Recorded (h : History) (pid : ℕ) (nonce : String) : Prop :=
  ∃ walletAddress challenge now, extractNonceFromChallenge challenge = some nonce ∧
    (⟨.expire, ()⟩ :: ⟨.sadd nonce, ()⟩ :: timedLog walletAddress challenge nonce now : Log Op.Ret) <:+
      log pid h.trace

/-- While a challenge with a recorded nonce is there, the set holds the nonce. -/
def Remembered (h : History) : Prop :=
  ∀ p nonce, Recorded h p nonce → ∀ walletAddress challenge t, h.world.clock ≤ t →
    h.world.challengeAt t walletAddress = some challenge →
      extractNonceFromChallenge challenge = some nonce → nonce ∈ h.world.usedAt t

section Remembered

variable {cfg} {h h' : History} {pid : ℕ} {o : Op} {choice : Choice} {r : o.Ret} {w w' : World}

theorem usedAt_eq (w : World) (t : ℤ) :
    w.usedAt t = if w.usedNonces.2.all (t ≤ ·) then w.usedNonces.1 else [] := by
  rw [World.usedAt, World.liveNonces]
  split <;> rfl

/-- A nonce that is in the set at a time is in it at each earlier time. -/
theorem mem_usedAt_of_le {t t' : ℤ} {nonce : String} (hle : t ≤ t') (hmem : nonce ∈ w.usedAt t') :
    nonce ∈ w.usedAt t ∧ w.liveNonces t = w.usedNonces := by
  rw [usedAt_eq] at hmem
  split at hmem
  next hlive =>
    have hlive' : w.usedNonces.2.all (t ≤ ·) = true := by
      cases hexpiry : w.usedNonces.2 with
      | none => rfl
      | some expiry =>
        rw [hexpiry] at hlive
        exact decide_eq_true (Int.le_trans hle (of_decide_eq_true hlive))
    refine ⟨?_, if_pos hlive'⟩
    rw [usedAt_eq, if_pos hlive']
    exact hmem
  next => cases hmem

/-- **What is in the set stays there**, as long as its expiry is not set to an earlier time. -/
theorem Effect.mem_usedAt (he : Effect cfg o w w') {nonce : String} {t : ℤ} (hmem : nonce ∈ w.usedAt t)
    (hle : w'.clock ≤ t) (hexpire : o = .expire → t ≤ w'.clock + cfg.ttl) : nonce ∈ w'.usedAt t := by
  obtain ⟨hearlier, hlive⟩ := mem_usedAt_of_le hle hmem
  rcases he.usedNonces with hsame | ⟨nonce', -, hw⟩ | ⟨ho, hw⟩
  · rw [usedAt_eq, hsame, ← usedAt_eq]
    exact hmem
  · have hused : w'.usedNonces = (w.usedNonces.1.insert nonce', w.usedNonces.2) := by
      rw [hw, World.sadd, hlive]
    rw [usedAt_eq] at hmem ⊢
    rw [hused]
    split at hmem
    next halive =>
      rw [if_pos halive]
      exact List.mem_insert_of_mem hmem
    next => cases hmem
  · have hused : w'.usedNonces = (w.usedAt w'.clock, some (w'.clock + cfg.ttl)) := by
      have hne : w.usedAt w'.clock ≠ [] := List.ne_nil_of_mem hearlier
      rw [hw]
      exact if_neg hne
    have halive : (some (w'.clock + cfg.ttl)).all (t ≤ ·) = true := decide_eq_true (hexpire ho)
    rw [usedAt_eq, hused]
    rw [if_pos halive]
    exact hearlier

/-- **Every step remembers**, if the set holds a nonce once its expiry has been set. -/
theorem Remembered.step (hline : ∀ walletAddress, cfg.sdk.isValidEd25519PublicKey walletAddress = true →
      '\n' ∉ walletAddress.toList) (hr : Remembered h) (hprovided : Provided cfg h)
    (hs : HistStep (system cfg) (Acting cfg) h h') (hok : holdsNonce cfg h h' = true) :
    Remembered h' := by
  cases hs with
  | idle e he hlive =>
    rintro p nonce ⟨walletAddress, challenge, now, hnonce, hlog⟩
    rw [Hist.push_trace, he] at hlog
    exact hr p nonce ⟨walletAddress, challenge, now, hnonce, hlog⟩
  | did pid c o choice r w hstart hD hexec hlive =>
    have heffect := effect_of_exec hexec
    rintro p nonce ⟨walletAddress, challenge, now, hnonce, hlog⟩ walletAddress' challenge' t hle hat hnonce'
    obtain ⟨⟨text, expiry⟩, hstored, hthen⟩ := Option.bind_eq_some_iff.mp hat
    obtain ⟨hexpiry, htext⟩ := Option.ite_none_right_eq_some.mp hthen
    obtain rfl : text = challenge' := Option.some.inj htext
    have hlog' : Recorded h p nonce ∨ p = pid ∧ o = .expire ∧
        log pid h.trace = ⟨.sadd nonce, ()⟩ :: timedLog walletAddress challenge nonce now := by
      by_cases hpid : pid = p
      · subst hpid
        rw [Hist.push_trace, log_did_self] at hlog
        rcases List.suffix_cons_iff.mp hlog with heq | hlog
        · obtain ⟨heq, hrest⟩ := List.cons.inj heq
          cases heq
          exact .inr ⟨rfl, rfl, hrest.symm⟩
        · exact .inl ⟨walletAddress, challenge, now, hnonce, hlog⟩
      · rw [Hist.push_trace, log_cons_of_ne (e := .did pid o r h.world) hpid] at hlog
        exact .inl ⟨walletAddress, challenge, now, hnonce, hlog⟩
    rcases heffect.challenges walletAddress' with hkept | hgone | ⟨challenge', rfl, hset⟩
    · rw [Hist.push_world, hkept] at hstored
      have hlife : t ≤ w.clock + cfg.ttl := by
        have hbound := (hprovided.stored walletAddress' text expiry hstored).2
        have hclock := heffect.clock
        omega
      rcases hlog' with hold | ⟨rfl, rfl, hlast⟩
      · have hat' : h.world.challengeAt t walletAddress' = some text := by
          rw [World.challengeAt, hstored, Option.bind_some, if_pos hexpiry]
        have hmem := hr p nonce hold walletAddress' text t (Int.le_trans heffect.clock hle) hat' hnonce'
        exact heffect.mem_usedAt hmem hle fun _ => hlife
      · have hheld : (match log p h.trace with
          | ⟨.sadd nonce, _⟩ :: _ => decide (nonce ∈ w.usedNonces.1) &&
              w.usedNonces.2.all (w.clock + cfg.ttl ≤ ·)
          | _ => true) = true := hok
        rw [hlast] at hheld
        obtain ⟨hmem, hlong⟩ := Bool.and_eq_true_iff.mp hheld
        have halive : w.usedNonces.2.all (t ≤ ·) = true := by
          cases hexpires : w.usedNonces.2 with
          | none => rfl
          | some expires =>
            rw [hexpires] at hlong
            exact decide_eq_true (Int.le_trans hlife (of_decide_eq_true hlong))
        rw [Hist.push_world, usedAt_eq, if_pos halive]
        exact of_decide_eq_true hmem
    · exact absurd (hgone.symm.trans hstored) nofun
    · -- a challenge that is generated now has a new nonce
      obtain rfl : challenge' = text := (Prod.mk.inj (Option.some.inj (hset.symm.trans hstored))).1
      rcases hlog' with ⟨walletAddress, challenge, now, hread', hold⟩ | ⟨-, ho, -⟩
      · generalize hL : log pid h.trace = L at hD
        cases hD with
        | setChallenge hvalid fresh timestamp =>
          have hrandom : ⟨.randomBytes, fresh⟩ ∈ log pid h.trace :=
            hL ▸ List.mem_cons_of_mem _ List.mem_cons_self
          have hread := extractNonceFromChallenge_challengeText (hline _ hvalid)
            (hprovided.random pid fresh hrandom).1 timestamp
          obtain rfl := Option.some.inj (hread.symm.trans hnonce')
          have hfound : ⟨.getChallenge walletAddress, some challenge⟩ ∈ log p h.trace :=
            hold.subset (List.mem_append_right [_, _, _, _] List.mem_cons_self)
          obtain ⟨nonce', hgenerated⟩ := hprovided.found p walletAddress challenge hfound
          obtain rfl := Option.some.inj ((hgenerated.nonce hline).symm.trans hread')
          obtain ⟨g, timestamp', -, hrandom', hstored', -⟩ := hgenerated
          obtain rfl := hprovided.distinct g pid _ hrandom' hrandom
          rw [hL] at hstored'
          simp only [List.mem_cons, List.not_mem_nil, or_false] at hstored'
          rcases hstored' with heq | heq <;> cases heq
        | opens hL ho => cases ho
      · cases ho

end Remembered

/-! ### Runs -/

/-- **A nonce is used once in every run** in which requests look their nonces up alone, and the set
holds a nonce once its expiry has been set. -/
theorem usedOnce_of_looksUpAlone (cfg : Config)
    (hline : ∀ walletAddress, cfg.sdk.isValidEd25519PublicKey walletAddress = true →
      '\n' ∉ walletAddress.toList) (w₀ : World)
    (hempty : ∀ walletAddress, w₀.challenges walletAddress = none) (s : AuthState)
    (hs : (system cfg).ReachableWhen
      (fun h h' => looksUpAlone h h' = true ∧ holdsNonce cfg h h' = true) (.init w₀) s) :
    UsedOnce s.hist := by
  have hdisc := disciplined_of_reachable (follows_acting cfg) hs
  obtain ⟨-, hends, hsole, hremembered⟩ := invariant_of_provided
    (I := fun h => EndsOnce h ∧ Sole h ∧ Remembered h) hempty
    ⟨fun _ _ h => absurd h List.not_mem_nil, fun _ _ _ _ h => absurd h List.not_mem_nil,
      fun _ _ ⟨_, _, _, _, h⟩ => absurd (List.suffix_nil.mp h) nofun⟩
    (fun h h' hd hd' hprovided hI hk hok => ⟨hI.1.step hk, hI.2.1.step hk hok.1,
      hI.2.2.step hline hprovided hk hok.2⟩) hs
  -- what a request that has returned tokens has done
  have hused : ∀ {p nonce tokens}, Answers s.hist p nonce →
      Event.returned p (.ok (.tokens tokens)) ∈ s.hist.trace → Passed s.hist p nonce ∧ Recorded s.hist p nonce := by
    rintro p nonce tokens ⟨walletAddress, signedEnvelopeXdr, challenge, hstart, hnonce⟩ hreturned
    obtain ⟨nonce', now, hlog, hpasses⟩ := hdisc.returned p _ _ hstart hreturned
    obtain rfl := Option.some.inj (hnonce.symm.trans hpasses.nonce)
    refine ⟨hlog.subset (List.mem_append_right [_, _, _, _] List.mem_cons_self), ?_⟩
    exact ⟨walletAddress, challenge, now, hnonce, (List.suffix_cons _ _).trans hlog⟩
  have honce : ∀ p q nonce tokens tokens', Answers s.hist p nonce → Answers s.hist q nonce →
      Event.returned p (.ok (.tokens tokens)) ∈ s.hist.trace →
      Event.returned q (.ok (.tokens tokens')) ∈ s.hist.trace → p = q := by
    intro p q nonce tokens tokens' hp hq hreturned hreturned'
    by_contra hne
    rcases hsole p q nonce hne (hused hp hreturned).1 (hused hq hreturned').1 with hf | hf
    · exact absurd ((not_failed_of_returned hends hreturned).symm.trans hf) nofun
    · exact absurd ((not_failed_of_returned hends hreturned').symm.trans hf) nofun
  refine ⟨honce, fun p q nonce tokens reply hp hq hreturned hreply hne => ?_,
    fun p nonce tokens hp hreturned => hremembered p nonce (hused hp hreturned).2⟩
  cases reply with
  | error e => exact ⟨e, rfl⟩
  | ok reply =>
    cases reply with
    | tokens tokens' => exact absurd (honce p q nonce tokens tokens' hp hq hreturned hreply).symm hne
    | challenge text =>
      obtain ⟨walletAddress, signedEnvelopeXdr, challenge, hstart, -⟩ := hq
      exact absurd (hdisc.returned q _ _ hstart hreply) id

namespace Sample

/-- The rest of a request for tokens when the challenge is not deleted. -/
def keeping (pid : ℕ) (now : ℤ) : List (Move Choice Call) :=
  [.run pid (.time now), .run pid (.time now), .run pid (.time now),
    .run pid (.fails "Connection is closed."), .run pid .done, .run pid (.time now),
    .run pid (.time now), .run pid .done, .finish pid]

/-- The request has been refused since the nonce has been used. -/
def replayed (pid : ℕ) (h : History) : Bool :=
  (h.trace.any fun
    | .start p (.verifySignature "G" "envelope" challenge') => p = pid ∧ challenge' = challenge
    | _ => false) &&
  h.trace.any fun
    | .returned p (.error e) => p = pid ∧ e = Auth.unauthorized "Challenge nonce has already been used"
    | _ => false

end Sample

/-- One request answers the challenge, which is not deleted, and a second one that answers it is
refused. -/
theorem usedOnce_sample : ∃ s : AuthState, Sample.issues 1 s.hist = true ∧
    Sample.replayed 2 s.hist = true ∧ UsedOnce s.hist := by
  obtain ⟨s, hs, hdone⟩ := System.exists_of_replay (system (Sample.config Sample.nonce))
    (fun h h' => looksUpAlone h h' = true ∧ holdsNonce (Sample.config Sample.nonce) h h' = true)
    (.init Sample.world) (Sample.asking 0 ++ Sample.lookingUp 1 1000 ++ Sample.keeping 1 1000 ++
      Sample.lookingUp 2 2000 ++ ([.finish 2] : List (Move Choice Call)))
    (fun s => Sample.issues 1 s.hist && Sample.replayed 2 s.hist)
    (by
      delta system Call.body verifySignature
      rw [Sample.extractNonceFromChallenge_eq]
      decide +kernel)
  obtain ⟨hfirst, hsecond⟩ := Bool.and_eq_true_iff.mp hdone
  exact ⟨s, hfirst, hsecond,
    usedOnce_of_looksUpAlone _ (Sample.trusted Sample.nonce).address _ (fun _ => rfl) s hs⟩

/-- Two requests look the nonce up before either has added it. -/
theorem not_usedOnce : ¬ ∀ cfg : Config,
    (∀ walletAddress, cfg.sdk.isValidEd25519PublicKey walletAddress = true →
      '\n' ∉ walletAddress.toList) →
    ∀ w₀ : World, (∀ walletAddress, w₀.challenges walletAddress = none) →
      ∀ s, (system cfg).Reachable (.init w₀) s → UsedOnce s.hist := by
  intro hall
  obtain ⟨s, hs, hdone⟩ := System.exists_of_replay (system (Sample.config Sample.nonce))
    (fun _ _ => True) (.init Sample.world)
    (Sample.asking 0 ++ Sample.lookingUp 1 1000 ++ Sample.lookingUp 2 1000 ++ Sample.opening 1 1000 ++
      Sample.opening 2 1000)
    (fun s => Sample.issues 1 s.hist && Sample.issues 2 s.hist)
    (by
      delta system Call.body verifySignature
      rw [Sample.extractNonceFromChallenge_eq]
      decide +kernel)
  obtain ⟨hfirst, hsecond⟩ := Bool.and_eq_true_iff.mp hdone
  obtain ⟨hstart, tokens, hreturned⟩ := Sample.of_issues hfirst
  obtain ⟨hstart', tokens', hreturned'⟩ := Sample.of_issues hsecond
  have hread : extractNonceFromChallenge Sample.challenge = some Sample.nonce :=
    extractNonceFromChallenge_challengeText (by decide) Sample.isNonce_nonce 0
  have hsame := (hall _ (Sample.trusted Sample.nonce).address _ (fun _ => rfl) s hs).once 1 2 Sample.nonce
    tokens tokens' ⟨_, _, _, hstart, hread⟩ ⟨_, _, _, hstart', hread⟩ hreturned hreturned'
  exact absurd hsame (by decide)

end Ahjoor.StellarAuth
