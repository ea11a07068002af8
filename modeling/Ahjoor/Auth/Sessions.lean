import Ahjoor.Auth.Revocation

/-!
# The sessions of a user

A refresh token is a row of its own: it is revoked only by a refresh that presents it, or by
`revokeSession` of its row, as long as no refresh finds its token revoked or expired. No two calls
return one refresh token, since the hashes are distinct.

The access tokens of a user share one token version. Neither a login nor `revokeSession` touches it;
but each refresh counts it up, and so rejects the access tokens of all other sessions.
-/

namespace Ahjoor.Auth

open Async Store

variable (cfg : Config)

/-! ### Acceptance -/

/-- `validate` does not reject the payload, whatever the environment decides: it may fail, but not
with 401. -/
def Accepted (w : World) (payload : Payload) : Prop :=
  ∀ pid, Solo (exec cfg) pid (validate payload) (fun _ _ _ => True)
    (fun e _ _ => ∀ message, e ≠ unauthorized message) () w

/-- The version of the payload is the one in the cache, if there is any, and the one of its user. -/
structure Current (w : World) (payload : Payload) : Prop where
  cached : ∀ t version, w.clock ≤ t → w.versionAt t payload.userId = some version →
    version = payload.tokenVersion
  counted : ∃ user, w.users.find? (·.walletAddress = payload.sub) = some user ∧
    user.tokenVersion = payload.tokenVersion

section Acceptance

variable {cfg} {pid : ℕ} {choice : Choice} {w w' : World} {payload : Payload}

/-- What the cache answers. -/
theorem version_of_exec {userId : Uuid} {cached : Option ℤ}
    (hexec : exec cfg (.getVersion userId) pid choice w = some (cached, w')) :
    w'.users = w.users ∧ (cached = none ∨ ∃ t, w.clock ≤ t ∧ cached = w.versionAt t userId) := by
  refine ⟨(exec_outside rfl hexec).1, ?_⟩
  cases choice with
  | time t =>
    obtain ⟨hle, hexec⟩ := Option.ite_none_right_eq_some.mp hexec
    cases hexec
    exact .inr ⟨t, hle, rfl⟩
  | fails msg =>
    cases hexec
    exact .inl rfl
  | _ => cases hexec

/-- A search for a user answers what is in the table, or fails with an error. -/
theorem found_of_exec {walletAddress : String} {r : Except Exc (Option User)}
    (hexec : exec cfg (.db (.findUserByWalletAddress walletAddress)) pid choice w = some (r, w')) :
    r = .ok (w.users.find? (·.walletAddress = walletAddress)) ∨ ∃ msg, r = .error (.error msg) := by
  cases choice with
  | done =>
    cases hexec
    exact .inl rfl
  | fails msg | lost msg =>
    cases hexec
    exact .inr ⟨msg, rfl⟩
  | _ => cases hexec

/-- A payload that is current is accepted. -/
theorem Current.accepted (hc : Current w payload) : Accepted cfg w payload := by
  intro pid
  obtain ⟨user, hfound, hversion⟩ := hc.counted
  refine Solo.bind (Solo.perform fun choice (cached : Option ℤ) w₁ hexec => ?_)
  obtain ⟨husers, hcached⟩ := version_of_exec hexec
  refine Solo.bind (Solo.throwWhen (fun hstale => ?_) fun _ => ?_)
  · rcases hcached with rfl | ⟨t, hle, rfl⟩
    · cases hstale
    · obtain ⟨version, hat, hne⟩ := System.exists_of_any hstale
      exact absurd (hc.cached t version hle hat) (of_decide_eq_true hne)
  refine Solo.bind (Solo.call fun choice r w₂ hexec => ?_)
  rcases found_of_exec hexec with rfl | ⟨msg, rfl⟩
  · rw [husers]
    refine Solo.bind (Solo.valueOr (fun user' hfound' => ?_) fun hnone => ?_)
    · obtain rfl := Option.some.inj (hfound.symm.trans hfound')
      refine Solo.bind (Solo.throwWhen (fun hne => ?_) fun _ => ?_)
      · exact absurd hversion.symm (of_decide_eq_true hne)
      · exact Solo.bind (Solo.call fun _ _ _ _ => Solo.pure trivial)
    · exact absurd (hfound.symm.trans hnone) nofun
  · exact fun message => nofun

/-- A payload that is accepted is current. -/
theorem Accepted.current (ha : Accepted cfg w payload) : Current w payload := by
  have hnever : ∀ message P, ¬ Comes (exec cfg) 0 (validate payload) (.error (unauthorized message)) P () w := by
    rintro message P ⟨w', halone, -⟩
    exact ha 0 _ _ _ halone message rfl
  have hcurrent : ∀ t version, w.clock ≤ t → w.versionAt t payload.userId = some version →
      version = payload.tokenVersion := by
    intro t version hle hat
    by_contra hne
    have hexec : exec cfg (.getVersion payload.userId) 0 (.time t) w =
        some (some version, { w with clock := t }) := by
      rw [← hat]
      exact if_pos hle
    refine hnever "Token version mismatch - session revoked" (fun _ => True)
      (Comes.bind (Comes.perform (.time t) hexec rfl) fun _ hw => ?_)
    exact Comes.bind_error (Comes.throwWhen_error (decide_eq_true hne) trivial)
  refine ⟨hcurrent, ?_⟩
  -- when the cache does not answer, the row decides
  have hmissed : exec cfg (.getVersion payload.userId) 0 (.fails "") w = some (none, w) := rfl
  have hread : ∀ found, w.users.find? (·.walletAddress = payload.sub) = found →
      exec cfg (.db (.findUserByWalletAddress payload.sub)) 0 .done w = some (.ok found, w) := by
    rintro _ rfl
    rfl
  cases hfound : w.users.find? (·.walletAddress = payload.sub) with
  | none =>
    refine absurd (Comes.bind (Comes.perform (.fails "") hmissed rfl) ?_) (hnever "Unauthorized" fun _ => True)
    rintro _ rfl
    refine Comes.bind (Comes.throwWhen rfl rfl) ?_
    rintro _ rfl
    refine Comes.bind (Comes.call .done (hread none hfound) rfl) ?_
    rintro _ rfl
    exact Comes.bind_error (Comes.throw trivial)
  | some user =>
    refine ⟨user, rfl, ?_⟩
    by_contra hne
    refine hnever "Token version mismatch - session revoked" (fun _ => True)
      (Comes.bind (Comes.perform (.fails "") hmissed rfl) ?_)
    rintro _ rfl
    refine Comes.bind (Comes.throwWhen rfl rfl) ?_
    rintro _ rfl
    refine Comes.bind (Comes.call .done (hread (some user) hfound) rfl) ?_
    rintro _ rfl
    refine Comes.bind (Comes.pure rfl) ?_
    rintro _ rfl
    exact Comes.bind_error (Comes.throwWhen_error (decide_eq_true fun h => hne h.symm) trivial)

/-- The operation writes a token version, into the row of a user or into the cache. -/
def Op.writesVersion : Op → Bool
  | db (.updateUser _ _) | setVersion _ _ => true
  | _ => false

/-- A query leaves the cache and the time alone. -/
theorem eval_outside (q : Query) (w : World) :
    (q.eval cfg w).2.versions = w.versions ∧ (q.eval cfg w).2.clock = w.clock := by
  cases q with
  | insertToken record =>
    rcases eval_insertToken cfg w record with ⟨-, heval⟩ | ⟨-, heval⟩ <;> rw [heval] <;> exact ⟨rfl, rfl⟩
  | _ => exact ⟨rfl, rfl⟩

/-- What other operations do to the cache: an entry stays, or is gone. -/
theorem cache_of_exec {o : Op} (ho : o.writesVersion = false) {r : o.Ret}
    (hexec : exec cfg o pid choice w = some (r, w')) :
    w.clock ≤ w'.clock ∧ ∀ userId, w'.versions userId = w.versions userId ∨ w'.versions userId = none := by
  have hsame : ∀ {w' : World}, w'.versions = w.versions → w'.clock = w.clock → w.clock ≤ w'.clock ∧
      ∀ userId, w'.versions userId = w.versions userId ∨ w'.versions userId = none :=
    fun hversions hclock => ⟨Int.le_of_eq hclock.symm, fun userId => .inl (congrFun hversions userId)⟩
  cases o with
  | db q =>
    rcases exec_db hexec with ⟨rfl, -⟩ | ⟨rfl, -⟩
    · exact hsame (eval_outside q w).1 (eval_outside q w).2
    · exact hsame rfl rfl
  | now | getVersion userId =>
    cases choice with
    | time t =>
      obtain ⟨hle, hexec⟩ := Option.ite_none_right_eq_some.mp hexec
      cases hexec
      exact ⟨hle, fun _ => .inl rfl⟩
    | _ =>
      cases hexec
      try exact hsame rfl rfl
  | setVersion userId version => cases ho
  | invalidateVersion userId =>
    cases choice with
    | done =>
      cases hexec
      refine ⟨Int.le_refl _, fun userId' => ?_⟩
      by_cases hsame : userId' = userId
      · exact .inr (hsame ▸ Function.update_self ..)
      · exact .inl (Function.update_of_ne hsame ..)
    | fails msg =>
      cases hexec
      exact hsame rfl rfl
    | _ => cases hexec
  | _ =>
    cases choice with
    | _ =>
      cases hexec
      try exact hsame rfl rfl

/-- **What is accepted stays so**, unless a version is written. -/
theorem Accepted.exec (ha : Accepted cfg w payload) {o : Op} (ho : o.writesVersion = false) {r : o.Ret}
    (hexec : exec cfg o pid choice w = some (r, w')) : Accepted cfg w' payload := by
  obtain ⟨hclock, hcache⟩ := cache_of_exec ho hexec
  have husers : w'.users = w.users := by
    rcases users_of_exec hexec with hsame | ⟨id, x, rfl, -⟩
    · exact hsame
    · cases ho
  have hc := ha.current
  refine Current.accepted ⟨fun t version hle hat => hc.cached t version (Int.le_trans hclock hle) ?_, ?_⟩
  · rcases hcache payload.userId with hkept | hgone
    · rwa [World.versionAt, hkept] at hat
    · rw [World.versionAt, hgone] at hat
      cases hat
  · rw [husers]
    exact hc.counted

end Acceptance

/-! ### The actions of a user -/

/-- What a user does with one session: opens it, refreshes it, revokes it, or uses it. -/
def Call.isAction : Call → Bool
  | login _ _ | refreshTokens _ _ | revokeSession _ _ | validate _ => true
  | logout _ _ | revokeAllUserTokens _ => false

/-- Whether a step starts an action, and whether a refresh judges a valid token: when it has found
the row and reads the time, the row is neither revoked nor expired. -/
def presentsValid (h h' : History) : Bool :=
  match h'.trace with
  | .start _ c :: _ => c.isAction
  | .did pid .now (now : ℤ) _ :: _ =>
      match log pid h.trace with
      | ⟨.db (.findToken _), .ok (some stored)⟩ :: _ => stored.revokedAt = none ∧ now ≤ stored.expiresAt
      | _ => true
  | _ => true

/-- The session of a row has been acted upon: its token has been presented, or it has been revoked by
its key. -/
def Touched (h : History) (t : RefreshToken) : Prop :=
  (∃ p token opts, Event.start p (.refreshTokens token opts) ∈ h.trace ∧ cfg.digest token = t.tokenHash) ∨
    ∃ p userId, Event.start p (.revokeSession userId t.id) ∈ h.trace

/-- **The rows of a run that began in `w₀`**: what was there at first is there as it was; every row
that has been revoked was so at first, or its session has been acted upon; and no two calls have
inserted rows with one hash. -/
structure Apart (w₀ : World) (h : History) : Prop where
  actions : ∀ p c, Event.start p c ∈ h.trace → c.isAction = true
  judged : ∀ p token stored verified now, foundLog cfg token stored verified now <:+ log p h.trace →
    stored.revokedAt = none ∧ now ≤ stored.expiresAt
  keyed : ∀ p id t, ⟨.db (.findTokenById id), .ok (some t)⟩ ∈ log p h.trace → t.id = id
  kept : ∀ i t₀, w₀.refreshTokens.row i = some t₀ →
    ∃ t, h.world.refreshTokens.row i = some t ∧ t.terms = t₀.terms
  revoked : ∀ i t, h.world.refreshTokens.row i = some t → t.revokedAt ≠ none →
    (∃ t₀, w₀.refreshTokens.row i = some t₀ ∧ t₀.revokedAt ≠ none) ∨ Touched cfg h t
  fresh : ∀ p a, ⟨.db (.insertToken a), .ok ()⟩ ∈ log p h.trace →
    ∀ i t₀, w₀.refreshTokens.row i = some t₀ → t₀.tokenHash ≠ a.tokenHash
  once : ∀ p q a b, ⟨.db (.insertToken a), .ok ()⟩ ∈ log p h.trace →
    ⟨.db (.insertToken b), .ok ()⟩ ∈ log q h.trace → a.tokenHash = b.tokenHash → p = q

section Apart

variable {cfg} {w₀ : World} {h h' : History} {pid : ℕ} {c : Call} {o : Op} {choice : Choice} {r : o.Ret}
  {w : World}

theorem Touched.mono {t t' : RefreshToken} (ht : Touched cfg h t) (hid : t'.id = t.id)
    (hhash : t'.tokenHash = t.tokenHash) (hsub : ∀ e ∈ h.trace, e ∈ h'.trace) : Touched cfg h' t' := by
  rcases ht with ⟨p, token, opts, hstart, hdigest⟩ | ⟨p, userId, hstart⟩
  · exact .inl ⟨p, token, opts, hsub _ hstart, hdigest.trans hhash.symm⟩
  · exact .inr ⟨p, userId, hid ▸ hsub _ hstart⟩

/-- Nobody revokes all rows of a user. -/
theorem Apart.not_sweeps (ha : Apart cfg w₀ h) (hstart : Event.start pid c ∈ h.trace)
    (hD : Acting cfg c (log pid h.trace) o) : o.sweeps = false := by
  generalize hL : log pid h.trace = L at hD
  cases hD with
  | revokeTokens hunsaved hdetects userId now =>
    cases c with
    | refreshTokens token opts =>
      obtain ⟨stored, verified, now, later, rfl, hbad⟩ := hdetects
      obtain ⟨hunrevoked, hunexpired⟩ := ha.judged pid token stored verified now
        (hL ▸ List.suffix_cons _ _)
      rcases hbad with hrevoked | hexpired
      · exact absurd hunrevoked hrevoked
      · exact absurd hexpired (Int.not_lt.mpr hunexpired)
    | logout userId token => cases ha.actions pid _ hstart
    | revokeAllUserTokens userId => cases ha.actions pid _ hstart
    | login loginDto opts => cases hdetects
    | revokeSession userId sessionId => cases hdetects
    | validate payload => cases hdetects
  | read _ _ hq =>
    rename_i q
    cases q with
    | revokeTokens userId now => cases hq
    | _ => rfl
  | _ => rfl

/-- **Who revokes a row** acts upon its session. -/
theorem Apart.touched (ha : Apart cfg w₀ h) (hi : Informed h) (hstart : Event.start pid c ∈ h.trace)
    (hD : Acting cfg c (log pid h.trace) o) (hexec : exec cfg o pid choice h.world = some (r, w)) {i : ℕ}
    {t t' : RefreshToken} (ht : h.world.refreshTokens.row i = some t)
    (ht' : w.refreshTokens.row i = some t') (hunrevoked : t.revokedAt = none)
    (hrevoked : t'.revokedAt ≠ none) : Touched cfg h t' := by
  have hsame : w.refreshTokens.row i ≠ some t := by
    intro hkept
    obtain rfl := Option.some.inj (hkept.symm.trans ht')
    exact hrevoked hunrevoked
  cases ho : o.isDb with
  | false => exact absurd ((exec_outside ho hexec).2 ▸ ht) hsame
  | true =>
  cases o with
  | db q =>
    rcases exec_db hexec with ⟨rfl, -⟩ | ⟨rfl, -⟩
    · cases q with
      | saveToken row =>
        have hrow : (h.world.refreshTokens.put row).row i = some t' := ht'
        by_cases hi' : i = row.id
        · have hput : (h.world.refreshTokens.put row).row i = some row := hi' ▸ Table.row_put_self _ row
          obtain rfl := Option.some.inj (hput.symm.trans hrow)
          generalize hL : log pid h.trace = L at hD
          cases hD with
          | read _ _ hq => cases hq
          | rotate opts hstored =>
            have hhash := hi.hashed pid _ _ (hL ▸ mem_foundLog cfg _ _ _ _)
            exact .inl ⟨pid, _, opts, hstart, hhash.symm⟩
          | close opts hunrevoked' hlate =>
            have hhash := hi.hashed pid _ _ (hL ▸ mem_foundLog cfg _ _ _ _)
            exact .inl ⟨pid, _, opts, hstart, hhash.symm⟩
          | @revokeSession userId sessionId token now _ hfound howner =>
            have hid : token.id = sessionId := ha.keyed pid _ _ (hL ▸ hfound)
            exact .inr ⟨pid, userId, hid ▸ hstart⟩
        · exact absurd ((Table.row_put_of_ne _ hi').trans ht) hsame
      | insertToken record =>
        rcases eval_insertToken cfg h.world record with ⟨-, heval⟩ | ⟨-, heval⟩ <;> rw [heval] at hsame
        · exact absurd ht hsame
        · exact absurd (h.world.refreshTokens.row_insert_of_row record ht) hsame
      | revokeToken tokenHash now =>
        generalize hL : log pid h.trace = L at hD
        cases hD with
        | read _ _ hq => cases hq
        | revokeToken userId token L now => cases ha.actions pid _ hstart
      | revokeTokens userId now => cases ha.not_sweeps hstart hD
      | _ => exact absurd ht hsame
    · exact absurd ht hsame
  | _ => cases ho

/-- A row after an operation was there before, or has just been inserted. -/
theorem row_of_exec (hi : Informed h) (hD : Acting cfg c (log pid h.trace) o)
    (hexec : exec cfg o pid choice h.world = some (r, w)) {i : ℕ} {t' : RefreshToken}
    (ht' : w.refreshTokens.row i = some t') :
    (∃ t, h.world.refreshTokens.row i = some t ∧ t'.terms = t.terms) ∨ t'.revokedAt = none := by
  have hsame : ∀ {w : World}, w.refreshTokens = h.world.refreshTokens → w.refreshTokens.row i = some t' →
      (∃ t, h.world.refreshTokens.row i = some t ∧ t'.terms = t.terms) ∨ t'.revokedAt = none :=
    fun heq ht' => .inl ⟨t', heq ▸ ht', rfl⟩
  have hmodified : ∀ {p : RefreshToken → Bool} {now : ℤ},
      (h.world.refreshTokens.modify p (.revoked now)).row i = some t' →
        (∃ t, h.world.refreshTokens.row i = some t ∧ t'.terms = t.terms) ∨ t'.revokedAt = none := by
    intro p now hmodified
    obtain ⟨t, ht, rfl⟩ := Option.map_eq_some_iff.mp hmodified
    refine .inl ⟨t, ht, ?_⟩
    split <;> rfl
  cases ho : o.isDb with
  | false => exact hsame (exec_outside ho hexec).2 ht'
  | true =>
  cases o with
  | db q =>
    rcases exec_db hexec with ⟨rfl, -⟩ | ⟨rfl, -⟩
    · cases q with
      | saveToken row =>
        replace ht' : (h.world.refreshTokens.put row).row i = some t' := ht'
        rw [Table.row_put] at ht'
        split at ht'
        next hid =>
          cases ht'
          obtain ⟨stored, now, rfl, t, ht, hterms, -⟩ := hi.saves hD rfl
          exact .inl ⟨t, hid ▸ ht, hterms.symm⟩
        next => exact .inl ⟨t', ht', rfl⟩
      | insertToken record =>
        rcases eval_insertToken cfg h.world record with ⟨-, heval⟩ | ⟨-, heval⟩ <;> rw [heval] at ht'
        · exact hsame rfl ht'
        replace ht' : (h.world.refreshTokens.insert record).2.row i = some t' := ht'
        rw [row_insertToken] at ht'
        split at ht'
        next =>
          cases ht'
          generalize log pid h.trace = L at hD
          cases hD with
          | read _ _ hq => cases hq
          | insert iat hobtained hinherits hhash hnew huninserted => exact .inr hnew
        next => exact .inl ⟨t', ht', rfl⟩
      | revokeToken tokenHash now => exact hmodified ht'
      | revokeTokens userId now => exact hmodified ht'
      | _ => exact hsame rfl ht'
    · exact hsame rfl ht'
  | _ => cases ho

/-- What is inserted has a new hash. -/
theorem fresh_of_exec {a : RefreshToken}
    (hexec : exec cfg (.db (.insertToken a)) pid choice h.world = some (.ok (), w)) {i : ℕ}
    {t : RefreshToken} (ht : h.world.refreshTokens.row i = some t) : t.tokenHash ≠ a.tokenHash := by
  rcases exec_db hexec with ⟨-, hr⟩ | ⟨-, e, he⟩
  · rcases eval_insertToken cfg h.world a with ⟨-, heval⟩ | ⟨hnew, -⟩
    · rw [heval] at hr
      rcases hr with hr | ⟨e, hr⟩ <;> cases hr
    · exact tokenHash_ne_of_find? hnew ht
  · cases he

/-- **Every step keeps sessions apart.** -/
theorem Apart.step (ha : Apart cfg w₀ h) (hi : Informed h)
    (hs : HistStep (system cfg) (Acting cfg) h h') (hok : presentsValid h h' = true) :
    Apart cfg w₀ h' := by
  have hentry := fun {p e} (he : e ∈ log p h'.trace) => hs.mem_log he
  cases hs with
  | idle e he hlive =>
    have hsub : ∀ e' ∈ h.trace, e' ∈ (h.push e h.world).trace := fun e' => List.mem_cons_of_mem e
    refine ⟨fun p c hstart => ?_, fun p token stored verified now hlog => ?_, fun p id t hmem => ?_,
      ha.kept, fun i t ht hrevoked => ?_, fun p a hmem => ?_, fun p q a b hp hq => ?_⟩
    · rcases List.mem_cons.mp hstart with rfl | hstart
      · exact hok
      · exact ha.actions p c hstart
    · exact ha.judged p token stored verified now (he p h.trace ▸ hlog)
    · exact ha.keyed p id t (he p h.trace ▸ hmem)
    · exact (ha.revoked i t ht hrevoked).imp_right fun htouched => htouched.mono rfl rfl hsub
    · exact ha.fresh p a (he p h.trace ▸ hmem)
    · exact ha.once p q a b (he p h.trace ▸ hp) (he q h.trace ▸ hq)
  | did pid c o choice r w hstart hD hexec hlive =>
    have hadvances := hi.advances hD hexec
    have hsub : ∀ e' ∈ h.trace, e' ∈ (h.push (.did pid o r h.world) w).trace := fun e' =>
      List.mem_cons_of_mem _
    refine ⟨fun p c hmem => ?_, fun p token stored verified now hlog => ?_, fun p id t hmem => ?_,
      fun i t₀ ht₀ => ?_, fun i t' ht' hrevoked => ?_, fun p a hmem => ?_, fun p q a b hp hq hhash => ?_⟩
    · exact ha.actions p c ((List.mem_cons.mp hmem).resolve_left nofun)
    · by_cases hp : pid = p
      · subst hp
        rw [Hist.push_trace, log_did_self] at hlog
        rcases List.suffix_cons_iff.mp hlog with heq | hlog
        · obtain ⟨heq, hrest⟩ := List.cons.inj heq
          cases heq
          have hjudged : (match log pid h.trace with
            | ⟨.db (.findToken _), .ok (some stored)⟩ :: _ => decide (stored.revokedAt = none ∧ now ≤ stored.expiresAt)
            | _ => true) = true := hok
          rw [← hrest] at hjudged
          exact of_decide_eq_true hjudged
        · exact ha.judged pid token stored verified now hlog
      · rw [Hist.push_trace, log_cons_of_ne (e := .did pid o r h.world) hp] at hlog
        exact ha.judged p token stored verified now hlog
    · rcases hentry hmem with hmem | ⟨choice, hexec⟩
      · exact ha.keyed p id t hmem
      · rcases exec_db hexec with ⟨-, hr | ⟨e, hr⟩⟩ | ⟨-, e, hr⟩
        · exact h.world.refreshTokens.id_of_row (Except.ok.inj hr).symm
        · cases hr
        · cases hr
    · obtain ⟨t, ht, hterms⟩ := ha.kept i t₀ ht₀
      obtain ⟨t', ht', hterms', -⟩ := hadvances.rows i t ht
      exact ⟨t', ht', hterms'.trans hterms⟩
    · rcases row_of_exec hi hD hexec ht' with ⟨t, ht, hterms⟩ | hnew
      · by_cases hunrevoked : t.revokedAt = none
        · exact .inr ((ha.touched hi hstart hD hexec ht ht' hunrevoked hrevoked).mono rfl rfl hsub)
        · have hid : t'.id = t.id :=
            (w.refreshTokens.id_of_row ht').trans (h.world.refreshTokens.id_of_row ht).symm
          exact (ha.revoked i t ht hunrevoked).imp_right fun htouched =>
            htouched.mono hid (tokenHash_of_terms hterms) hsub
      · exact absurd hnew hrevoked
    · rcases hentry hmem with hmem | ⟨choice, hexec⟩
      · exact ha.fresh p a hmem
      · intro i t₀ ht₀ hhash
        obtain ⟨t, ht, hterms⟩ := ha.kept i t₀ ht₀
        exact fresh_of_exec hexec ht ((tokenHash_of_terms hterms).trans hhash)
    · have hown : ∀ {p e}, e ∈ log p (h.push (.did pid o r h.world) w).trace → e ∈ log p h.trace ∨ p = pid := by
        intro p e hmem
        by_cases hp : pid = p
        · exact .inr hp.symm
        · rw [Hist.push_trace, log_cons_of_ne (e := .did pid o r h.world) hp] at hmem
          exact .inl hmem
      -- what is inserted now has another hash than what was inserted before
      have hnew : ∀ {p q : ℕ} {a b : RefreshToken},
          ⟨.db (.insertToken a), .ok ()⟩ ∈ log p (h.push (.did pid o r h.world) w).trace →
          ⟨.db (.insertToken b), .ok ()⟩ ∈ log q h.trace → a.tokenHash = b.tokenHash → p = q := by
        intro p q a b hp hq hhash
        rcases hentry hp with hp | ⟨choice, hexec⟩
        · exact ha.once p q a b hp hq hhash
        · obtain ⟨t, i, ht, hterms⟩ := hi.inserted q b hq
          exact absurd ((tokenHash_of_terms hterms).trans hhash.symm) (fresh_of_exec hexec ht)
      rcases hown hq with hq' | rfl
      · exact hnew hp hq' hhash
      · rcases hown hp with hp' | hp'
        · exact (hnew hq hp' hhash.symm).symm
        · exact hp'

end Apart

/-! ### Independence -/

/-- The world after an event: the one before the next operation. -/
def worldAfter (w : World) : Events → World
  | [] => w
  | .did _ _ _ before :: later => worldAfter before later
  | _ :: later => worldAfter w later

/-- **Sessions are independent**: a refresh token stays as it was stored, and unrevoked, until its
session is acted upon; no two calls return one refresh token; and no operation of a login, a refresh
or `revokeSession` makes an access token rejected, unless it is the one by which a refresh counts the
token version up. -/
structure Independent (w₀ : World) (h : History) : Prop where
  kept : ∀ i t₀, w₀.refreshTokens.row i = some t₀ → t₀.revokedAt = none →
    ∃ t, h.world.refreshTokens.row i = some t ∧ t.terms = t₀.terms ∧
      (t.revokedAt ≠ none → Touched cfg h t)
  opened : ∀ p tokens, Event.returned p (.ok (.tokens tokens)) ∈ h.trace →
    ∃ record i t, ⟨.db (.insertToken record), .ok ()⟩ ∈ log p h.trace ∧
      record.tokenHash = cfg.digest tokens.refreshToken ∧ h.world.refreshTokens.row i = some t ∧
        t.terms = record.terms ∧ (t.revokedAt ≠ none → Touched cfg h t)
  apart : ∀ p q tokens tokens', Event.returned p (.ok (.tokens tokens)) ∈ h.trace →
    Event.returned q (.ok (.tokens tokens')) ∈ h.trace → p ≠ q →
      tokens.refreshToken ≠ tokens'.refreshToken
  accepted : ∀ later p c o r w earlier, h.trace = later ++ Event.did p o r w :: earlier →
    Event.start p c ∈ h.trace → (∀ payload, c ≠ .validate payload) →
      (∃ token opts id x, c = .refreshTokens token opts ∧ o = .db (.updateUser id x)) ∨
        ∀ payload, Accepted cfg w payload → Accepted cfg (worldAfter h.world later) payload

/-- What is accepted stays so after every operation that writes no version. -/
def Lasting (h : History) : Prop :=
  ∀ later p o r w earlier, h.trace = later ++ Event.did p o r w :: earlier → o.writesVersion = false →
    ∀ payload, Accepted cfg w payload → Accepted cfg (worldAfter h.world later) payload

section Independent

variable {cfg} {w₀ : World} {h h' : History}

theorem Lasting.step (hl : Lasting cfg h) (hs : HistStep (system cfg) (Acting cfg) h h') :
    Lasting cfg h' := by
  cases hs with
  | idle e he hlive =>
    intro later p o r w earlier htrace
    cases later with
    | nil =>
      obtain ⟨rfl, -⟩ := List.cons.inj htrace
      exact absurd ((log_did_self ..).symm.trans (he p h.trace)) (List.cons_ne_self _ _)
    | cons e' later =>
      obtain ⟨rfl, hrest⟩ := List.cons.inj htrace
      cases e with
      | did q o' r' w' => exact absurd ((log_did_self ..).symm.trans (he q h.trace)) (List.cons_ne_self _ _)
      | _ => exact hl later p o r w earlier hrest
  | did pid c o choice r w hstart hD hexec hlive =>
    intro later p o' r' w' earlier htrace ho payload ha
    cases later with
    | nil =>
      obtain ⟨heq, -⟩ := List.cons.inj htrace
      cases heq
      exact ha.exec ho hexec
    | cons e later =>
      obtain ⟨rfl, hrest⟩ := List.cons.inj htrace
      exact hl later p o' r' w' earlier hrest ho payload ha

/-- Who writes a version is a refresh, or caches the one that it has read. -/
theorem Apart.writes {pid : ℕ} {c : Call} {o : Op} {L : Log Op.Ret} (ha : Apart cfg w₀ h)
    (hstart : Event.start pid c ∈ h.trace) (hD : Acting cfg c L o) (ho : o.writesVersion = true)
    (hc : ∀ payload, c ≠ .validate payload) :
    ∃ token opts id x, c = .refreshTokens token opts ∧ o = .db (.updateUser id x) := by
  cases hD with
  | setVersion hfound => exact absurd rfl (hc _)
  | updateUser hcounts hx =>
    cases c with
    | refreshTokens token opts => exact ⟨token, opts, _, _, rfl, rfl⟩
    | logout userId token => cases ha.actions pid _ hstart
    | revokeAllUserTokens userId => cases ha.actions pid _ hstart
    | _ => cases hcounts
  | read _ _ hq =>
    rename_i q
    cases q with
    | updateUser id x => cases hq
    | _ => cases ho
  | _ => cases ho

/-- The row of a refresh token that was returned. -/
theorem Apart.opened (ha : Apart cfg w₀ h) (hi : Informed h)
    (hd : Disciplined (Acting cfg) (Returned cfg) h) {p : ℕ} {tokens : Tokens}
    (hreturned : Event.returned p (.ok (.tokens tokens)) ∈ h.trace) :
    ∃ record i t, ⟨.db (.insertToken record), .ok ()⟩ ∈ log p h.trace ∧
      record.tokenHash = cfg.digest tokens.refreshToken ∧ h.world.refreshTokens.row i = some t ∧
        t.terms = record.terms ∧ (t.revokedAt ≠ none → Touched cfg h t) := by
  obtain ⟨c, hstart⟩ := hd.start_mem _ hreturned
  obtain ⟨payload, iat, iat', record, L, hL, -, -, hhash⟩ := hd.returned p c _ hstart hreturned
  have hinsert : ⟨.db (.insertToken record), .ok ()⟩ ∈ log p h.trace := hL ▸ List.mem_cons_self
  obtain ⟨t, i, ht, hterms⟩ := hi.inserted p record hinsert
  refine ⟨record, i, t, hinsert, hhash, ht, hterms, fun hrevoked => ?_⟩
  rcases ha.revoked i t ht hrevoked with ⟨t₀, ht₀, -⟩ | htouched
  · obtain ⟨t', ht', hterms'⟩ := ha.kept i t₀ ht₀
    obtain rfl := Option.some.inj (ht'.symm.trans ht)
    exact absurd (tokenHash_of_terms (hterms'.symm.trans hterms)) (ha.fresh p record hinsert i t₀ ht₀)
  · exact htouched

/-- **Sessions are independent in every run** of logins, refreshes with valid tokens, `revokeSession`
and uses of access tokens. -/
theorem independent_of_presentsValid (cfg : Config) (w₀ : World) (hd : Distinct w₀.refreshTokens)
    (s : AuthState)
    (hs : (system cfg).ReachableWhen (fun h h' => presentsValid h h' = true) (.init w₀) s) :
    Independent cfg w₀ s.hist := by
  have hdisc := disciplined_of_reachable (follows_acting cfg) hs
  obtain ⟨hi, ha, hl⟩ := invariant_of_informed (I := fun h => Apart cfg w₀ h ∧ Lasting cfg h) hd
    ⟨⟨fun _ _ h => absurd h List.not_mem_nil, fun _ _ _ _ _ h => absurd (List.suffix_nil.mp h) nofun,
      fun _ _ _ h => absurd h List.not_mem_nil, fun i t₀ ht₀ => ⟨t₀, ht₀, rfl⟩,
      fun i t ht hrevoked => .inl ⟨t, ht, hrevoked⟩, fun _ _ h => absurd h List.not_mem_nil,
      fun _ _ _ _ h => absurd h List.not_mem_nil⟩,
      fun later _ _ _ _ _ h => absurd h.symm (List.append_ne_nil_of_right_ne_nil later nofun)⟩
    (fun h h' _ _ hi hI hk hok => ⟨hI.1.step hi hk hok, hI.2.step hk⟩) hs
  refine ⟨fun i t₀ ht₀ hunrevoked => ?_, fun p tokens => ha.opened hi hdisc,
    fun p q tokens tokens' hp hq hne heq => ?_, fun later p c o r w earlier htrace hstart hc => ?_⟩
  · obtain ⟨t, ht, hterms⟩ := ha.kept i t₀ ht₀
    refine ⟨t, ht, hterms, fun hrevoked => (ha.revoked i t ht hrevoked).resolve_left ?_⟩
    rintro ⟨t₁, ht₁, hrevoked₁⟩
    obtain rfl := Option.some.inj (ht₀.symm.trans ht₁)
    exact hrevoked₁ hunrevoked
  · obtain ⟨a, -, -, ha', hhash, -⟩ := ha.opened hi hdisc hp
    obtain ⟨b, -, -, hb, hhash', -⟩ := ha.opened hi hdisc hq
    exact hne (ha.once p q a b ha' hb (by rw [hhash, hhash', heq]))
  · have hmem : ⟨o, r⟩ ∈ log p s.hist.trace :=
      mem_log.mpr ⟨w, htrace ▸ List.mem_append_right later List.mem_cons_self⟩
    obtain ⟨L, -, hD⟩ := (hdisc.lawful p c hstart).allowed hmem
    cases ho : o.writesVersion with
    | true => exact .inl (ha.writes hstart hD ho hc)
    | false => exact .inr (hl later p o r w earlier htrace ho)

end Independent

/-! ### A login, and a refresh of another session -/

/-- **No action makes the access token of another session rejected**: an unexpired access token whose
session nobody acts upon is accepted after every operation before which it was. -/
def NeverRejected (h : History) : Prop :=
  ∀ later p c o r w earlier, h.trace = later ++ Event.did p o r w :: earlier →
    Event.start p c ∈ h.trace → (∀ payload, c ≠ .validate payload) →
    ∀ q tokens payload iat, Event.returned q (.ok (.tokens tokens)) ∈ earlier →
      tokens.accessToken = .signed .access payload iat →
      tokens.accessToken.verifies .access h.world.clock = true →
      (∀ t, t.tokenHash = cfg.digest tokens.refreshToken → ¬ Touched cfg h t) →
      Accepted cfg w payload → Accepted cfg (worldAfter h.world later) payload

namespace Sample

/-- A login. -/
def loggingIn (pid : ℕ) (now : ℤ) : List (Move Choice Call) :=
  ([.start (.login ⟨"user", "password"⟩ {}), .run pid .done, .run pid (.compared true),
      .run pid .done] : List (Move Choice Call)) ++
    List.replicate 4 (.run pid (.time now) : Move Choice Call) ++
    ([.run pid .done, .finish pid] : List (Move Choice Call))

/-- What the login returns. -/
def issued : Tokens := ⟨.signed .access (payload 0) 1, .signed .refresh (payload 0) 1⟩

def isIssue : Event Op.Ret World Call (Except Exc Reply) → Bool
  | .returned 0 (.ok (.tokens tokens)) => tokens = issued
  | _ => false

/-- The version of the user is counted up by the refresh. -/
def isIncrement : Event Op.Ret World Call (Except Exc Reply) → Bool
  | .did 1 (.db (.updateUser 0 _)) _ _ => true
  | _ => false

/-- The call leaves the session of the login alone. -/
def sparing : Event Op.Ret World Call (Except Exc Reply) → Bool
  | .start _ (.refreshTokens token' _) => config.digest token' ≠ config.digest issued.refreshToken
  | .start _ (.revokeSession _ _) => false
  | _ => true

/-- The version of the user in a world. -/
def version (w : World) : Option ℤ := (w.users.find? (·.walletAddress = "G0")).map User.tokenVersion

/-- The refresh of another session rejects the access token of the login. -/
def rejects (h : History) : Bool :=
  match h.trace.dropWhile fun e => !isIncrement e with
  | .did 1 (.db (.updateUser 0 _)) _ w :: earlier =>
      (earlier.any isIssue && h.trace.all sparing && issued.accessToken.verifies .access h.world.clock) &&
        ((w.versions 0).isNone && version w = some 0 &&
          version (worldAfter h.world (h.trace.takeWhile fun e => !isIncrement e)) = some 1)
  | _ => false

theorem current_of_version {w : World} (hcache : w.versions 0 = none) (h : version w = some 0) :
    Current w (payload 0) := by
  refine ⟨fun t version _ hat => ?_, Option.map_eq_some_iff.mp h⟩
  have hnone : w.versionAt t 0 = none := by rw [World.versionAt, hcache]; rfl
  exact absurd (hnone.symm.trans hat) nofun

theorem untouched {h : History} (hsparing : h.trace.all sparing = true) {t : RefreshToken}
    (ht : t.tokenHash = config.digest issued.refreshToken) : ¬ Touched config h t := by
  rintro (⟨p, token, opts, hstart, hdigest⟩ | ⟨p, userId, hstart⟩)
  · exact of_decide_eq_true (List.all_eq_true.mp hsparing _ hstart) (hdigest.trans ht)
  · exact absurd (List.all_eq_true.mp hsparing _ hstart) nofun

end Sample

/-- A login, a refresh of another session, and the revocation of the first. -/
theorem independent_sample : ∃ s : AuthState, s.hist.trace.any Sample.isIssue = true ∧
    Sample.exchanged 1 s.hist.trace = true ∧
    Independent Sample.config (Sample.loggedIn (30 * day)) s.hist := by
  obtain ⟨s, hs, hdone⟩ := System.exists_of_replay (system Sample.config)
    (fun h h' => presentsValid h h' = true) (.init (Sample.loggedIn (30 * day)))
    (Sample.loggingIn 0 1000 ++ Sample.reading 1 2000 ++ Sample.exchanging 1 2000 ++
      ([.start (.revokeSession 0 1), .run 2 .done, .run 2 (.time 3000), .run 2 .done, .finish 2] :
        List (Move Choice Call)))
    (fun s => s.hist.trace.any Sample.isIssue && Sample.exchanged 1 s.hist.trace) (by decide +kernel)
  obtain ⟨hissued, hexchanged⟩ := Bool.and_eq_true_iff.mp hdone
  exact ⟨s, hissued, hexchanged,
    independent_of_presentsValid Sample.config _ (Sample.distinct_loggedIn _) s hs⟩

/-- A refresh of another session rejects the access token of a login. -/
theorem not_neverRejected : ¬ ∀ (cfg : Config) (w₀ : World), Distinct w₀.refreshTokens →
    ∀ s, (system cfg).ReachableWhen (fun h h' => presentsValid h h' = true) (.init w₀) s →
      NeverRejected cfg s.hist := by
  intro hall
  obtain ⟨s, hs, hdone⟩ := System.exists_of_replay (system Sample.config)
    (fun h h' => presentsValid h h' = true) (.init (Sample.loggedIn (30 * day)))
    (Sample.loggingIn 0 1000 ++ Sample.reading 1 2000 ++ Sample.exchanging 1 2000)
    (fun s => Sample.exchanged 1 s.hist.trace && Sample.rejects s.hist) (by decide +kernel)
  obtain ⟨hexchanged, hrejects⟩ := Bool.and_eq_true_iff.mp hdone
  obtain ⟨opts, tokens, hstart, -⟩ := Sample.of_exchanged hexchanged
  unfold Sample.rejects at hrejects
  split at hrejects
  next x r w earlier hdrop =>
    have htrace : s.hist.trace = s.hist.trace.takeWhile (fun e => !Sample.isIncrement e) ++
        .did 1 (.db (.updateUser 0 x)) r w :: earlier := by
      rw [← hdrop, List.takeWhile_append_dropWhile]
    obtain ⟨hother, hversions⟩ := Bool.and_eq_true_iff.mp hrejects
    obtain ⟨hother, hverifies⟩ := Bool.and_eq_true_iff.mp hother
    obtain ⟨hissued, hsparing⟩ := Bool.and_eq_true_iff.mp hother
    obtain ⟨hversions, hafter⟩ := Bool.and_eq_true_iff.mp hversions
    obtain ⟨hcache, hbefore⟩ := Bool.and_eq_true_iff.mp hversions
    obtain ⟨e, he, hissue⟩ := List.any_eq_true.mp hissued
    unfold Sample.isIssue at hissue
    split at hissue
    next tokens =>
      obtain rfl := of_decide_eq_true hissue
      have hcurrent := Sample.current_of_version (Option.isNone_iff_eq_none.mp hcache)
        (of_decide_eq_true hbefore)
      have haccepted := hall _ _ (Sample.distinct_loggedIn _) s hs _ 1 _ _ r w earlier htrace hstart nofun
        0 Sample.issued (Sample.payload 0) 1 he rfl hverifies (fun t => Sample.untouched hsparing)
        hcurrent.accepted
      have hkept : Sample.version _ = some 0 := Option.map_eq_some_iff.mpr haccepted.current.counted
      exact absurd (hkept.symm.trans (of_decide_eq_true hafter)) (by decide)
    next => cases hissue
  next => cases hrejects

end Ahjoor.Auth
