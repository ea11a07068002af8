import Ahjoor.Async.Solo
import Ahjoor.Auth.Cap
import Mathlib.Data.Nat.Init

/-!
# The revocation of all sessions of a user

`revokeAllUserTokens` revokes the rows that are there, and counts the token version of the user up
by reading and writing it. A refresh under way may store its row after that, and it counts the same
version up in the same way, so that one of the two increments may be lost.

If no refresh of the user is between its reading of an unrevoked row and its insertion when the rows
are revoked, and nobody writes a version other than the next one, then the revocation wins: no
refresh token that descends from a row it has met is usable, and no access token that was issued
before is accepted.
-/

namespace Ahjoor.Auth

open Async Store

variable (cfg : Config)

/-! ### Refreshes under way -/

/-- The call has not ended. -/
def UnderWay (pid : ℕ) (es : Events) : Prop := ∀ e ∈ es, e.isEnd = true → e.pid ≠ pid

/-- The call has not revoked all rows of a user. -/
def Unswept (L : Log Op.Ret) : Prop := ∀ e ∈ L, e.1.sweeps = false

/-- The call is about to exchange the row of a user: it has found it unrevoked, and has neither
stored a successor nor revoked all rows. -/
structure Exchanging (h : History) (userId : Uuid) (pid : ℕ) (stored : RefreshToken) : Prop where
  underWay : UnderWay pid h.trace
  found : ∃ hash, ⟨.db (.findToken hash), .ok (some stored)⟩ ∈ log pid h.trace
  owner : stored.userId = userId
  unrevoked : stored.revokedAt = none
  uninserted : Uninserted (log pid h.trace)
  unswept : Unswept (log pid h.trace)

/-- The hash of a refresh token that descends from a row of the user in a world. -/
def Descends (h : History) (userId : Uuid) (w : World) (hash : String) : Prop :=
  ∃ i t, w.refreshTokens.row i = some t ∧ t.userId = userId ∧ Chain cfg h t.tokenHash hash

/-- All rows of the user have been revoked in a world. -/
def SweptIn (h : History) (userId : Uuid) (w : World) : Prop :=
  ∃ pid now, Event.did pid (.db (.revokeTokens userId now)) (.ok ()) w ∈ h.trace

/-- **What a revocation has swept stays so**: what descends from its rows is revoked, and is not about
to be exchanged. -/
structure Swept (h : History) : Prop where
  kept : ∀ userId w, SweptIn h userId w → ∀ i t, w.refreshTokens.row i = some t →
    ∃ t', h.world.refreshTokens.row i = some t' ∧ t'.terms = t.terms
  revoked : ∀ userId w, SweptIn h userId w → ∀ hash t, Descends cfg h userId w hash →
    RowOf h hash t → t.revokedAt ≠ none
  barred : ∀ userId w, SweptIn h userId w → ∀ pid stored, Exchanging h userId pid stored →
    ¬ Descends cfg h userId w stored.tokenHash

section Steps

variable {cfg} {h h' : History} {pid p : ℕ} {c : Call} {o : Op} {choice : Choice} {r : o.Ret} {w : World}
  {token : Token} {a stored : RefreshToken} {hash hash' : String} {userId : Uuid}

/-- An exchange that a step adds is the insertion of the successor. -/
theorem exchanges_of_did (he : Exchanges (h.push (.did pid o r h.world) w) p token a) :
    Exchanges h p token a ∨ (p = pid ∧ (⟨o, r⟩ : Entry Op.Ret) = ⟨.db (.insertToken a), .ok ()⟩ ∧
      ∃ opts, Event.start pid (.refreshTokens token opts) ∈ h.trace) := by
  obtain ⟨opts, hstart, hinsert⟩ := he
  have hstart' : Event.start p (.refreshTokens token opts) ∈ h.trace :=
    (List.mem_cons.mp hstart).resolve_left nofun
  by_cases hp : pid = p
  · subst hp
    rw [Hist.push_trace, log_did_self] at hinsert
    rcases List.mem_cons.mp hinsert with heq | hinsert
    · exact .inr ⟨rfl, heq.symm, opts, hstart'⟩
    · exact .inl ⟨opts, hstart', hinsert⟩
  · rw [Hist.push_trace, log_cons_of_ne (e := .did pid o r h.world) hp] at hinsert
    exact .inl ⟨opts, hstart', hinsert⟩

theorem exchanges_of_idle {e : Event Op.Ret World Call (Except Exc Reply)}
    (he : ∀ pid es, log pid (e :: es) = log pid es)
    (hd : Disciplined (Acting cfg) (Returned cfg) h)
    (hd' : Disciplined (Acting cfg) (Returned cfg) (h.push e h.world))
    (hx : Exchanges (h.push e h.world) p token a) : Exchanges h p token a := by
  obtain ⟨opts, hstart, hinsert⟩ := hx
  rw [Hist.push_trace, he] at hinsert
  obtain ⟨w, hw⟩ := mem_log.mp hinsert
  obtain ⟨c, hc⟩ := hd.start_mem _ hw
  exact ⟨opts, hd'.start_unique p _ _ (List.mem_cons_of_mem e hc) hstart ▸ hc, hinsert⟩

/-- A chain that goes over no new exchange was there before. -/
theorem Chain.restrict (hchain : Chain cfg h' hash hash')
    (hnew : ∀ p token a, Exchanges h' p token a →
      Exchanges h p token a ∨ ¬ Chain cfg h hash (cfg.digest token)) : Chain cfg h hash hash' := by
  induction hchain with
  | first => exact .first _
  | @exchange p token successor hchain hexchanges ih =>
    rcases hnew p token successor hexchanges with hold | hnot
    · exact .exchange ih hold
    · exact absurd ih hnot

theorem user_of_terms {a b : RefreshToken} (h : a.terms = b.terms) : a.userId = b.userId :=
  congrArg Prod.fst h

/-- What descends from a row of the user is a row of the user. -/
theorem Descends.row (hd : Disciplined (Acting cfg) (Returned cfg) h) (hi : Informed h)
    (hkept : ∀ i t, w.refreshTokens.row i = some t →
      ∃ t', h.world.refreshTokens.row i = some t' ∧ t'.terms = t.terms)
    (hdescends : Descends cfg h userId w hash) : ∃ t, RowOf h hash t ∧ t.userId = userId := by
  obtain ⟨i, t, ht, huser, hchain⟩ := hdescends
  induction hchain with
  | first =>
    obtain ⟨t', ht', hterms⟩ := hkept i t ht
    exact ⟨t', ⟨i, ht', tokenHash_of_terms hterms⟩, (user_of_terms hterms).trans huser⟩
  | @exchange p token successor hchain hexchanges ih =>
    obtain ⟨parent, hparent, huser⟩ := ih
    obtain ⟨stored, now, hexchanged⟩ := exchanged_of_exchanges hd hi hexchanges
    obtain ⟨row, hrow, hterms, -⟩ := hexchanged.sighted
    obtain rfl := hparent.unique hi ⟨_, hrow, (tokenHash_of_terms hterms).trans hexchanged.hash⟩
    obtain ⟨-, -, hinsert⟩ := hexchanges
    obtain ⟨t', j, ht', hterms'⟩ := hi.inserted p successor hinsert
    refine ⟨t', ⟨j, ht', tokenHash_of_terms hterms'⟩, ?_⟩
    rw [user_of_terms hterms', hexchanged.user, ← user_of_terms hterms, huser]

/-- A revocation that a step adds is its own. -/
theorem sweptIn_of_did {w₀ : World} (hs : SweptIn (h.push (.did pid o r h.world) w) userId w₀) :
    SweptIn h userId w₀ ∨ (w₀ = h.world ∧ ∃ now,
      (⟨o, r⟩ : Entry Op.Ret) = ⟨.db (.revokeTokens userId now), .ok ()⟩) := by
  obtain ⟨p, now, hmem⟩ := hs
  rcases List.mem_cons.mp hmem with heq | hmem
  · cases heq
    exact .inr ⟨rfl, now, rfl⟩
  · exact .inl ⟨p, now, hmem⟩

/-- Who is about to exchange a row after an operation was so before, or has just found it. -/
theorem exchanging_of_did (hx : Exchanging (h.push (.did pid o r h.world) w) userId p stored) :
    Exchanging h userId p stored ∨ (p = pid ∧ ∃ hash,
      (⟨o, r⟩ : Entry Op.Ret) = ⟨.db (.findToken hash), .ok (some stored)⟩) := by
  obtain ⟨hunder, ⟨hash, hfound⟩, howner, hunrevoked, huninserted, hunswept⟩ := hx
  have hunder' : UnderWay p h.trace := fun e he => hunder e (List.mem_cons_of_mem _ he)
  by_cases hp : pid = p
  · subst hp
    rw [Hist.push_trace, log_did_self] at hfound huninserted hunswept
    rcases List.mem_cons.mp hfound with heq | hfound
    · exact .inr ⟨rfl, hash, heq.symm⟩
    · exact .inl ⟨hunder', ⟨hash, hfound⟩, howner, hunrevoked,
        (List.forall_mem_cons.mp huninserted).2, (List.forall_mem_cons.mp hunswept).2⟩
  · rw [Hist.push_trace, log_cons_of_ne (e := .did pid o r h.world) hp] at hfound huninserted hunswept
    exact .inl ⟨hunder', ⟨hash, hfound⟩, howner, hunrevoked, huninserted, hunswept⟩

theorem row_of_find (hexec : exec cfg (.db (.findToken hash)) pid choice h.world =
    some (.ok (some stored), w)) : h.world.refreshTokens.row stored.id = some stored := by
  rcases exec_db hexec with ⟨-, hr | ⟨e, hr⟩⟩ | ⟨-, e, he⟩
  · exact (Table.of_find?_eq_some (Except.ok.inj hr).symm).1
  · cases hr
  · cases he

/-- The rows of a user after a revocation. -/
theorem revoked_of_sweep {now : ℤ} (hexec : exec cfg (.db (.revokeTokens userId now)) pid choice h.world =
      some (.ok (), w)) {i : ℕ} {t : RefreshToken} (ht : w.refreshTokens.row i = some t)
    (huser : t.userId = userId) : t.revokedAt ≠ none := by
  rcases exec_db hexec with ⟨rfl, -⟩ | ⟨-, e, he⟩
  · obtain ⟨b, -, hb⟩ := Option.map_eq_some_iff.mp ht
    split at hb
    · subst hb
      exact nofun
    next hout =>
      subst hb
      exact fun hnone => hout (decide_eq_true ⟨huser, hnone⟩)
  · cases he

/-- Who inserts a successor is about to exchange the row of its token. -/
theorem exchanging_of_insert (hd : Disciplined (Acting cfg) (Returned cfg) h) (hi : Informed h)
    {opts : StoreTokenOptions} (hstart : Event.start pid (.refreshTokens token opts) ∈ h.trace)
    (hunder : UnderWay pid h.trace)
    (hD : Acting cfg (.refreshTokens token opts) (log pid h.trace) (.db (.insertToken a))) :
    ∃ stored, Exchanging h stored.userId pid stored ∧ stored.tokenHash = cfg.digest token ∧
      Sighted h.world stored := by
  generalize hL : log pid h.trace = L₀ at hD
  cases hD with
  | read _ _ hq => cases hq
  | insert iat hobtained hinherits hhash hnew huninserted =>
  cases hinherits with
  | @refresh _ _ _ stored _ verified now owner hrotated hstored howner huser hcap =>
  subst hL
  have hfound : ⟨.db (.findToken (cfg.digest token)), .ok (some stored)⟩ ∈ log pid h.trace :=
    hrotated.subset (List.mem_cons_of_mem _ (mem_foundLog cfg token stored verified now))
  refine ⟨stored, ⟨hunder, ⟨_, hfound⟩, rfl, hstored.unrevoked, huninserted, fun e he => ?_⟩,
    hi.hashed pid _ _ hfound, hi.sighted pid _ _ hfound rfl⟩
  by_contra hsweeps
  obtain ⟨L, hL, hacting⟩ := (hd.lawful pid _ hstart).allowed he
  obtain ⟨o, r⟩ := e
  have hunsaved : Unsaved L := by
    cases hacting with
    | revokeTokens hunsaved hdetects userId now => exact hunsaved
    | read c L hq =>
      rename_i q
      cases q with
      | revokeTokens userId now => cases hq
      | _ => exact absurd rfl hsweeps
    | _ => exact absurd rfl hsweeps
  -- the row was saved before anything that could sweep
  rcases List.suffix_or_suffix_of_suffix hL hrotated with hsub | hsub
  · have hmem := hsub.subset List.mem_cons_self
    simp only [rotatedLog, foundLog, List.mem_cons, List.not_mem_nil, or_false] at hmem
    rcases hmem with heq | heq | heq | heq <;> cases heq <;> exact hsweeps rfl
  · rcases List.suffix_cons_iff.mp hsub with heq | hsub
    · obtain ⟨heq, -⟩ := List.cons.inj heq
      cases heq
      exact hsweeps rfl
    · exact absurd (hunsaved _ (hsub.subset List.mem_cons_self)) fun h => by cases h

end Steps

/-! ### The condition -/

/-- A call has found a row of the user unrevoked. -/
def findsFor (userId : Uuid) : Entry Op.Ret → Bool
  | ⟨.db (.findToken _), .ok (some stored)⟩ => stored.userId = userId ∧ stored.revokedAt = none
  | _ => false

/-- Whether a call is about to exchange a row of the user. -/
def isExchanging (h : History) (userId : Uuid) (pid : ℕ) : Bool :=
  (h.trace.all fun e => !e.isEnd || e.pid ≠ pid) && (log pid h.trace).any (findsFor userId) &&
    (log pid h.trace).all fun e => !e.1.inserts && !e.1.sweeps

/-- Whether no other call is about to exchange a row of the user whose rows are revoked. -/
def sweepsAlone (h h' : History) : Bool :=
  match h'.trace with
  | .did pid (.db (.revokeTokens userId _)) (.ok ()) _ :: _ =>
      h.trace.all fun e => e.pid = pid || !isExchanging h userId e.pid
  | _ => true

/-- Whether a token version that is written is the next one. -/
def countsUp (h h' : History) : Bool :=
  match h'.trace with
  | .did _ (.db (.updateUser id x)) _ _ :: _ =>
      (h.world.users.row id).all fun user => x.version = user.tokenVersion + 1
  | _ => true

theorem isExchanging_of_exchanging {h : History} {userId : Uuid} {pid : ℕ} {stored : RefreshToken}
    (hx : Exchanging h userId pid stored) : isExchanging h userId pid = true := by
  obtain ⟨hash, hfound⟩ := hx.found
  refine Bool.and_eq_true_iff.mpr ⟨Bool.and_eq_true_iff.mpr ⟨?_, ?_⟩, ?_⟩
  · refine List.all_eq_true.mpr fun e he => ?_
    cases hend : e.isEnd with
    | false => rfl
    | true => exact decide_eq_true (hx.underWay e he hend)
  · exact List.any_eq_true.mpr ⟨_, hfound, decide_eq_true ⟨hx.owner, hx.unrevoked⟩⟩
  · refine List.all_eq_true.mpr fun e he => ?_
    rw [hx.uninserted e he, hx.unswept e he]
    rfl

section Swept

variable {cfg} {h h' : History}

/-- **Every step keeps what is swept.** -/
theorem Swept.step (hs : Swept cfg h) (hi : Informed h) (hd : Disciplined (Acting cfg) (Returned cfg) h)
    (hd' : Disciplined (Acting cfg) (Returned cfg) h') (hk : HistStep (system cfg) (Acting cfg) h h')
    (hok : sweepsAlone h h' = true) : Swept cfg h' := by
  cases hk with
  | idle e he hlive =>
    have hswept : ∀ {userId w}, SweptIn (h.push e h.world) userId w → SweptIn h userId w := by
      rintro userId w ⟨p, now, hmem⟩
      refine ⟨p, now, (List.mem_cons.mp hmem).resolve_left ?_⟩
      rintro rfl
      exact absurd ((log_did_self ..).symm.trans (he p h.trace)) (List.cons_ne_self _ _)
    have hdescends : ∀ {userId w hash}, Descends cfg (h.push e h.world) userId w hash →
        Descends cfg h userId w hash := by
      rintro userId w hash ⟨i, t, ht, huser, hchain⟩
      exact ⟨i, t, ht, huser, hchain.restrict fun p token a hx => .inl (exchanges_of_idle he hd hd' hx)⟩
    refine ⟨fun userId w hw => hs.kept userId w (hswept hw), fun userId w hw hash t hdesc ht => ?_,
      fun userId w hw p stored hx hdesc => ?_⟩
    · exact hs.revoked userId w (hswept hw) hash t (hdescends hdesc) ht
    · refine hs.barred userId w (hswept hw) p stored ⟨fun e' he' => ?_, ?_, hx.owner, hx.unrevoked, ?_, ?_⟩
        (hdescends hdesc)
      · exact hx.underWay e' (List.mem_cons_of_mem _ he')
      · exact he p h.trace ▸ hx.found
      · exact he p h.trace ▸ hx.uninserted
      · exact he p h.trace ▸ hx.unswept
  | did pid c o choice r w hstart hD hexec hlive =>
    have hadvances := hi.advances hD hexec
    have hkept : ∀ {userId w₀}, SweptIn (h.push (.did pid o r h.world) w) userId w₀ → ∀ i t,
        w₀.refreshTokens.row i = some t → ∃ t', h.world.refreshTokens.row i = some t' ∧ t'.terms = t.terms := by
      intro userId w₀ hw i t ht
      rcases sweptIn_of_did hw with hw | ⟨rfl, -⟩
      · exact hs.kept userId w₀ hw i t ht
      · exact ⟨t, ht, rfl⟩
    -- a new exchange is not of a row that descends from one that was revoked
    have hdescends : ∀ {userId w₀ hash}, SweptIn (h.push (.did pid o r h.world) w) userId w₀ →
        Descends cfg (h.push (.did pid o r h.world) w) userId w₀ hash → Descends cfg h userId w₀ hash := by
      rintro userId w₀ hash hw ⟨i, t, ht, huser, hchain⟩
      refine ⟨i, t, ht, huser, hchain.restrict fun p token a hx => ?_⟩
      rcases exchanges_of_did hx with hx | ⟨rfl, heq, opts, hpresents⟩
      · exact .inl hx
      · refine .inr fun hchain' => ?_
        cases heq
        obtain rfl := hd.start_unique p _ _ hstart hpresents
        obtain ⟨stored, hexchanging, hhash, row, hrow, hterms, -⟩ :=
          exchanging_of_insert hd hi hpresents hlive hD
        have hdesc : Descends cfg h userId w₀ (cfg.digest token) := ⟨i, t, ht, huser, hchain'⟩
        obtain ⟨row', hrow', huser'⟩ := hdesc.row hd hi (hkept hw)
        obtain rfl := hrow'.unique hi ⟨_, hrow, (tokenHash_of_terms hterms).trans hhash⟩
        have hsame : stored.userId = userId := (user_of_terms hterms).symm.trans huser'
        rcases sweptIn_of_did hw with hw | ⟨-, now, heq⟩
        · exact hs.barred userId w₀ hw p stored (hsame ▸ hexchanging) (hhash ▸ hdesc)
        · cases heq
    refine ⟨fun userId w₀ hw i t ht => ?_, fun userId w₀ hw hash t hdesc ht => ?_,
      fun userId w₀ hw p stored hx hdesc => ?_⟩
    · obtain ⟨t', ht', hterms⟩ := hkept hw i t ht
      obtain ⟨t'', ht'', hterms', -⟩ := hadvances.rows i t' ht'
      exact ⟨t'', ht'', hterms'.trans hterms⟩
    · have hdesc' := hdescends hw hdesc
      obtain ⟨row, ⟨i, hrow, hhash⟩, huser⟩ := hdesc'.row hd hi (hkept hw)
      obtain ⟨row', hrow', hterms, hrevoked⟩ := hadvances.rows i row hrow
      obtain ⟨j, ht, hhash'⟩ := ht
      obtain rfl := hadvances.distinct hrow' ht
        ((tokenHash_of_terms hterms).trans (hhash.trans hhash'.symm))
      obtain rfl := Option.some.inj (hrow'.symm.trans ht)
      rcases sweptIn_of_did hw with hw | ⟨rfl, now, heq⟩
      · exact hrevoked (hs.revoked userId w₀ hw hash row hdesc' ⟨_, hrow, hhash⟩)
      · cases heq
        exact revoked_of_sweep hexec ht ((user_of_terms hterms).trans huser)
    · have hdesc' := hdescends hw hdesc
      rcases exchanging_of_did hx with hx' | ⟨rfl, hash, heq⟩
      · rcases sweptIn_of_did hw with hw | ⟨rfl, now, heq⟩
        · exact hs.barred userId w₀ hw p stored hx' hdesc'
        · have hne : p ≠ pid := by
            rintro rfl
            have hunswept := hx.unswept
            rw [Hist.push_trace, log_did_self, heq] at hunswept
            exact absurd (List.forall_mem_cons.mp hunswept).1 nofun
          cases heq
          obtain ⟨hash, hfound⟩ := hx'.found
          obtain ⟨w₁, hmem⟩ := mem_log.mp hfound
          have hfree := List.all_eq_true.mp hok _ hmem
          rcases Bool.or_eq_true_iff.mp hfree with hsame | hidle
          · exact hne (of_decide_eq_true hsame)
          · have hbusy := isExchanging_of_exchanging hx'
            rw [Bool.not_eq_true'] at hidle
            exact absurd (hbusy.symm.trans hidle) nofun
      · cases heq
        rcases sweptIn_of_did hw with hw | ⟨-, now, heq⟩
        · exact hs.revoked userId w₀ hw _ stored hdesc' ⟨_, row_of_find hexec, rfl⟩ hx.unrevoked
        · cases heq

end Swept

/-! ### Token versions -/

/-- Wallet addresses are unique. -/
def DistinctWallets (t : Table User) : Prop :=
  ∀ ⦃i j a b⦄, t.row i = some a → t.row j = some b → a.walletAddress = b.walletAddress → i = j

/-- The user that an operation has read. -/
def seenUser : Entry Op.Ret → Option User
  | ⟨.db (.findUserById _), .ok found⟩ => found
  | ⟨.db (.findUserByEmail _), .ok found⟩ => found
  | ⟨.db (.findUserByWalletAddress _), .ok found⟩ => found
  | _ => none

/-- The user with its wallet is there, and its version is `version` or later. -/
def Reached (w : World) (id : Uuid) (walletAddress : String) (version : ℤ) : Prop :=
  ∃ u, w.users.row id = some u ∧ u.walletAddress = walletAddress ∧ version ≤ u.tokenVersion

/-- Users stay with their wallets, and their versions do not go back. -/
structure Grows (w w' : World) : Prop where
  reached : ∀ id walletAddress version, Reached w id walletAddress version →
    Reached w' id walletAddress version
  wallets : DistinctWallets w'.users

/-- **The versions only grow**: what was read or written of them is behind them, and an access token
that was issued before an update is outdated. -/
structure Counted (h : History) : Prop where
  wallets : DistinctWallets h.world.users
  read : ∀ pid e user, e ∈ log pid h.trace → seenUser e = some user →
    Reached h.world user.id user.walletAddress user.tokenVersion
  found : ∀ pid walletAddress user, FoundByWallet (log pid h.trace) walletAddress user →
    user.walletAddress = walletAddress
  written : ∀ pid id x, ⟨.db (.updateUser id x), .ok ()⟩ ∈ log pid h.trace →
    ∀ u, h.world.users.row id = some u → x.version ≤ u.tokenVersion
  outdated : ∀ later p id x w earlier,
    h.trace = later ++ Event.did p (.db (.updateUser id x)) (.ok ()) w :: earlier →
    ∀ q tokens payload iat, Event.returned q (.ok (.tokens tokens)) ∈ earlier →
      tokens.accessToken = .signed .access payload iat → payload.userId = id →
      Reached h.world id payload.sub (payload.tokenVersion + 1)

section Counted

variable {cfg} {h h' : History} {pid p : ℕ} {o : Op} {choice : Choice} {r : o.Ret} {w w' : World}

theorem Grows.of_eq (hw : DistinctWallets w.users) (h : w'.users = w.users) : Grows w w' := by
  refine ⟨fun id walletAddress version hr => ?_, ?_⟩
  · rw [Reached, h]
    exact hr
  · rw [h]
    exact hw

/-- The next version is written. -/
theorem grows_updateUser (hw : DistinctWallets w.users) {id : Uuid} {x : UserUpdate}
    (hnext : ∀ u, w.users.row id = some u → x.version = u.tokenVersion + 1) :
    Grows w { w with users := w.users.modify (·.id = id) x.apply } := by
  have hrow : ∀ i u, w.users.row i = some u →
      ∃ u', (w.users.modify (·.id = id) x.apply).row i = some u' ∧ u'.walletAddress = u.walletAddress ∧
        u.tokenVersion ≤ u'.tokenVersion := by
    intro i u hu
    refine ⟨_, Option.map_eq_some_iff.mpr ⟨u, hu, rfl⟩, ?_⟩
    have hid : u.id = i := w.users.id_of_row hu
    split
    next hsame =>
      have hsame' : u.id = id := of_decide_eq_true hsame
      have hversion := hnext u (hsame' ▸ hid ▸ hu)
      have hwallet : (Entity.withId i (x.apply u)).walletAddress = u.walletAddress := by cases x <;> rfl
      have hwritten : (Entity.withId i (x.apply u)).tokenVersion = x.version := by cases x <;> rfl
      exact ⟨hwallet, by omega⟩
    next => exact ⟨rfl, Int.le_refl _⟩
  have hback : ∀ i u', (w.users.modify (·.id = id) x.apply).row i = some u' →
      ∃ u, w.users.row i = some u ∧ u'.walletAddress = u.walletAddress := by
    intro i u' hu'
    obtain ⟨u, hu, rfl⟩ := Option.map_eq_some_iff.mp hu'
    refine ⟨u, hu, ?_⟩
    split
    · cases x <;> rfl
    · rfl
  refine ⟨?_, fun i j a b ha hb hab => ?_⟩
  · rintro i walletAddress version ⟨u, hu, hwallet, hversion⟩
    obtain ⟨u', hu', hwallet', hle⟩ := hrow i u hu
    exact ⟨u', hu', hwallet'.trans hwallet, Int.le_trans hversion hle⟩
  · obtain ⟨a', ha', hwallet⟩ := hback i a ha
    obtain ⟨b', hb', hwallet'⟩ := hback j b hb
    exact hw ha' hb' (hwallet ▸ hwallet' ▸ hab)

/-- What an operation does to the users: nothing, or an update. -/
theorem users_of_exec (hexec : exec cfg o pid choice w = some (r, w')) :
    w'.users = w.users ∨ ∃ id x, o = .db (.updateUser id x) ∧
      w' = { w with users := w.users.modify (·.id = id) x.apply } := by
  cases ho : o.isDb with
  | false => exact .inl (exec_outside ho hexec).1
  | true =>
  cases o with
  | db q =>
    rcases exec_db hexec with ⟨rfl, -⟩ | ⟨rfl, -⟩
    · cases q with
      | insertToken record =>
        rcases eval_insertToken cfg w record with ⟨-, heval⟩ | ⟨-, heval⟩ <;> rw [heval] <;> exact .inl rfl
      | updateUser id x => exact .inr ⟨id, x, rfl, rfl⟩
      | _ => exact .inl rfl
    · exact .inl rfl
  | _ => cases ho

/-- **Every operation lets the versions grow**, if the one that it writes is the next. -/
theorem grows_of_exec (hw : DistinctWallets w.users) (hexec : exec cfg o pid choice w = some (r, w'))
    (hnext : ∀ id x, o = .db (.updateUser id x) → ∀ u, w.users.row id = some u →
      x.version = u.tokenVersion + 1) : Grows w w' := by
  rcases users_of_exec hexec with heq | ⟨id, x, ho, rfl⟩
  · exact .of_eq hw heq
  · exact grows_updateUser hw (hnext id x ho)

/-- What a query has read of a user was in the table. -/
theorem reached_of_exec (hexec : exec cfg o pid choice w = some (r, w')) {user : User}
    (hseen : seenUser ⟨o, r⟩ = some user) :
    Reached w user.id user.walletAddress user.tokenVersion ∧
      ∀ walletAddress, o = .db (.findUserByWalletAddress walletAddress) →
        user.walletAddress = walletAddress := by
  have hreached : w.users.row user.id = some user → Reached w user.id user.walletAddress
      user.tokenVersion := fun hu => ⟨user, hu, rfl, Int.le_refl _⟩
  cases o with
  | db q =>
    have hr : ∀ {found : Except Exc q.Ret}, (∃ e, found = .error e) →
        seenUser ⟨.db q, found⟩ = none := by
      rintro _ ⟨e, rfl⟩
      cases q <;> rfl
    rcases exec_db hexec with ⟨-, rfl | he⟩ | ⟨-, he⟩
    · cases q with
      | findUserById id =>
        have hid : user.id = id := w.users.id_of_row hseen
        exact ⟨hreached (hid ▸ hseen), nofun⟩
      | findUserByEmail email => exact ⟨hreached (Table.of_find?_eq_some hseen).1, nofun⟩
      | findUserByWalletAddress walletAddress =>
        obtain ⟨hrow, hwallet⟩ := Table.of_find?_eq_some hseen
        refine ⟨hreached hrow, fun walletAddress' ho => ?_⟩
        cases ho
        exact of_decide_eq_true hwallet
      | _ => cases hseen
    · exact absurd ((hr he).symm.trans hseen) nofun
    · exact absurd ((hr he).symm.trans hseen) nofun
  | _ => cases hseen

/-- **The version of a token that was issued** is behind that of its user. -/
theorem reached_of_returned (hc : Counted h) (hd : Disciplined (Acting cfg) (Returned cfg) h)
    {tokens : Tokens} (hreturned : Event.returned pid (.ok (.tokens tokens)) ∈ h.trace)
    {payload : Payload} {iat : ℤ} (haccess : tokens.accessToken = .signed .access payload iat) :
    Reached h.world payload.userId payload.sub payload.tokenVersion := by
  obtain ⟨c, hstart⟩ := hd.start_mem _ hreturned
  obtain ⟨payload', iat', iat'', record, L, hL, hobtained, rfl, -⟩ := hd.returned pid c _ hstart hreturned
  cases haccess
  have hsub : ∀ {e}, e ∈ L → e ∈ log pid h.trace := fun he => hL ▸ List.mem_cons_of_mem _ he
  cases hobtained with
  | @login loginDto opts L user payload hfound huser hversion =>
    have hwallet := hc.found pid _ user (hsub hfound)
    have hreached := hc.read pid _ user (hsub hfound) rfl
    rw [huser, hversion, ← hwallet]
    exact hreached
  | @refresh opts L token stored verified now owner user payload hrotated hstored howner howned hwritten
      hfound huser =>
    have hwallet := hc.found pid _ user (hsub hfound)
    obtain ⟨u, hu, huwallet, -⟩ := hc.read pid _ user (hsub hfound) rfl
    obtain ⟨u', hu', huwallet', -⟩ := hc.read pid _ owner (hsub howner) rfl
    have hsame : user.id = owner.id :=
      hc.wallets hu hu' (by rw [huwallet, huwallet', hwallet, howned])
    rw [huser]
    exact ⟨u, hu, huwallet.trans hwallet, hc.written pid _ _ (hsub hwritten) u (hsame ▸ hu)⟩

/-- The version after an update that took effect. -/
theorem reached_of_update {id : Uuid} {x : UserUpdate} {walletAddress : String} {version : ℤ}
    (hexec : exec cfg (.db (.updateUser id x)) pid choice w = some (.ok (), w'))
    (hnext : ∀ u, w.users.row id = some u → x.version = u.tokenVersion + 1)
    (hr : Reached w id walletAddress version) : Reached w' id walletAddress (version + 1) := by
  rcases exec_db hexec with ⟨rfl, -⟩ | ⟨-, e, he⟩
  · obtain ⟨u, hu, hwallet, hversion⟩ := hr
    have hid : u.id = id := w.users.id_of_row hu
    have hwritten := hnext u hu
    refine ⟨Entity.withId id (x.apply u), ?_, ?_, ?_⟩
    · exact Option.map_eq_some_iff.mpr ⟨u, hu, if_pos (decide_eq_true hid)⟩
    · cases x <;> exact hwallet
    · have happlied : (Entity.withId id (x.apply u)).tokenVersion = x.version := by cases x <;> rfl
      omega
  · cases he

/-- The version in the table is the one that was written. -/
theorem version_of_update {id : Uuid} {x : UserUpdate}
    (hexec : exec cfg (.db (.updateUser id x)) pid choice w = some (.ok (), w')) {u : User}
    (hu : w'.users.row id = some u) : x.version ≤ u.tokenVersion := by
  rcases exec_db hexec with ⟨rfl, -⟩ | ⟨-, e, he⟩
  · obtain ⟨u', hu', rfl⟩ := Option.map_eq_some_iff.mp hu
    have hid : u'.id = id := w.users.id_of_row hu'
    split
    next => cases x <;> exact Int.le_refl _
    next hother => exact absurd (decide_eq_true hid) hother
  · cases he

theorem next_of_countsUp {w : World} (hok : countsUp h (h.push (.did pid o r h.world) w) = true)
    (id : Uuid) (x : UserUpdate) (ho : o = .db (.updateUser id x)) (u : User)
    (hu : h.world.users.row id = some u) : x.version = u.tokenVersion + 1 := by
  subst ho
  have hall : (h.world.users.row id).all (fun user => x.version = user.tokenVersion + 1) = true := hok
  rw [hu] at hall
  exact of_decide_eq_true hall

/-- **Every step keeps the count.** -/
theorem Counted.step (hc : Counted h) (hd : Disciplined (Acting cfg) (Returned cfg) h)
    (hk : HistStep (system cfg) (Acting cfg) h h') (hok : countsUp h h' = true) : Counted h' := by
  cases hk with
  | idle e he hlive =>
    refine ⟨hc.wallets, fun p e' user hmem => ?_, fun p walletAddress user hmem => ?_,
      fun p id x hmem => ?_, fun later p id x w earlier htrace => ?_⟩
    · exact hc.read p e' user (he p h.trace ▸ hmem)
    · exact hc.found p walletAddress user (he p h.trace ▸ hmem)
    · exact hc.written p id x (he p h.trace ▸ hmem)
    · cases later with
      | nil =>
        obtain ⟨rfl, -⟩ := List.cons.inj htrace
        exact absurd ((log_did_self ..).symm.trans (he p h.trace)) (List.cons_ne_self _ _)
      | cons e' later => exact hc.outdated later p id x w earlier (List.cons.inj htrace).2
  | did pid c o choice r w hstart hD hexec hlive =>
    have hnext := next_of_countsUp hok
    have hgrows := grows_of_exec hc.wallets hexec hnext
    have hlog : ∀ {p e}, e ∈ log p (h.push (.did pid o r h.world) w).trace →
        e ∈ log p h.trace ∨ e = ⟨o, r⟩ := by
      intro p e he
      by_cases hp : pid = p
      · subst hp
        rw [Hist.push_trace, log_did_self] at he
        exact (List.mem_cons.mp he).symm
      · rw [Hist.push_trace, log_cons_of_ne (e := .did pid o r h.world) hp] at he
        exact .inl he
    refine ⟨hgrows.wallets, fun p e user he hseen => ?_, fun p walletAddress user he => ?_,
      fun p id x he u hu => ?_, fun later p id x w₀ earlier htrace => ?_⟩
    · rcases hlog he with he | rfl
      · exact hgrows.reached _ _ _ (hc.read p e user he hseen)
      · exact hgrows.reached _ _ _ (reached_of_exec hexec hseen).1
    · rcases hlog he with he | heq
      · exact hc.found p walletAddress user he
      · cases heq
        have hseen : seenUser ⟨.db (.findUserByWalletAddress walletAddress), .ok (some user)⟩ = some user :=
          rfl
        exact (reached_of_exec hexec hseen).2 walletAddress rfl
    · rcases hlog he with hmem | heq
      · have hwritten := hc.written p id x hmem
        rcases users_of_exec hexec with hsame | ⟨id', x', rfl, rfl⟩
        · exact hwritten u (hsame ▸ hu)
        · obtain ⟨u', hu', rfl⟩ := Option.map_eq_some_iff.mp hu
          have hold := hwritten u' hu'
          obtain ⟨u'', hu'', -, hle⟩ := hgrows.reached id u'.walletAddress u'.tokenVersion
            ⟨u', hu', rfl, Int.le_refl _⟩
          obtain rfl := Option.some.inj (hu''.symm.trans hu)
          exact Int.le_trans hold hle
      · cases heq
        exact version_of_update hexec hu
    · intro q tokens payload iat hreturned haccess huser
      cases later with
      | nil =>
        obtain ⟨heq, rfl⟩ := List.cons.inj htrace
        cases heq
        have hissued := reached_of_returned hc hd hreturned haccess
        exact reached_of_update hexec (hnext id x rfl) (huser ▸ hissued)
      | cons e later =>
        exact hgrows.reached _ _ _ (hc.outdated later p id x w₀ earlier (List.cons.inj htrace).2 q tokens
          payload iat hreturned haccess huser)

end Counted

/-! ### Acceptance -/

/-- An outdated access token is not accepted. -/
theorem solo_validate_outdated {cfg : Config} {pid : ℕ} {w : World} {payload : Payload}
    (hw : DistinctWallets w.users)
    (hr : Reached w payload.userId payload.sub (payload.tokenVersion + 1)) :
    Solo (exec cfg) pid (validate payload) (fun _ _ _ => False) (fun _ _ _ => True) () w := by
  obtain ⟨u, hu, hwallet, hversion⟩ := hr
  refine Solo.bind (Solo.perform fun choice (cached : Option ℤ) w₁ hexec => ?_)
  obtain ⟨husers, -⟩ := exec_outside rfl hexec
  refine Solo.bind (Solo.throwWhen (fun _ => trivial) fun _ => ?_)
  refine Solo.bind (Solo.call fun choice r w₂ hexec => ?_)
  cases r with
  | error e => trivial
  | ok found =>
  refine Solo.bind (Solo.valueOr (fun user hfound => ?_) fun _ => trivial)
  subst hfound
  refine Solo.bind (Solo.throwWhen (fun _ => trivial) fun hsame => ?_)
  have hfound : w₁.users.find? (·.walletAddress = payload.sub) = some user := by
    rcases exec_db hexec with ⟨-, hr | ⟨e, hr⟩⟩ | ⟨-, e, hr⟩
    · exact (Except.ok.inj hr).symm
    · cases hr
    · cases hr
  obtain ⟨hrow, hsub⟩ := Table.of_find?_eq_some hfound
  rw [husers] at hrow
  have hid := hw hrow hu ((of_decide_eq_true hsub).trans hwallet.symm)
  obtain rfl := Option.some.inj (hu.symm.trans (hid ▸ hrow))
  have hequal : payload.tokenVersion = u.tokenVersion := not_not.mp (of_decide_eq_false hsame)
  omega

/-- **The revocation wins**: when a call has revoked the rows of a user and has then counted the
version up, and all calls that were under way have ended, no refresh token that descends from one of
those rows is usable, and no access token that was issued before is accepted. -/
def RevocationWins (h : History) : Prop :=
  ∀ later p userId now w earlier,
    h.trace = later ++ Event.did p (.db (.revokeTokens userId now)) (.ok ()) w :: earlier →
    (∃ version w', Event.did p (.db (.updateUser userId (.sessions version))) (.ok ()) w' ∈ later) →
    (∀ e ∈ earlier, ∃ e' ∈ h.trace, e'.isEnd = true ∧ e'.pid = e.pid) →
    (∀ hash t, Descends cfg h userId w hash → RowOf h hash t → ¬ Exchangeable t h.world.clock) ∧
      ∀ q tokens payload iat pid, Event.returned q (.ok (.tokens tokens)) ∈ earlier →
        tokens.accessToken = .signed .access payload iat → payload.userId = userId →
        Solo (exec cfg) pid (validate payload) (fun _ _ _ => False) (fun _ _ _ => True) () h.world

/-- **The revocation wins in every run** in which no refresh of the user is between its reading of an
unrevoked row and its insertion when the rows are revoked, and in which nobody writes a token version
other than the next. -/
theorem revocationWins_of_sweepsAlone (w₀ : World) (hd : Distinct w₀.refreshTokens)
    (hw : DistinctWallets w₀.users) (s : AuthState)
    (hs : (system cfg).ReachableWhen (fun h h' => sweepsAlone h h' = true ∧ countsUp h h' = true)
      (.init w₀) s) : RevocationWins cfg s.hist := by
  obtain ⟨hi, hswept, hcounted⟩ := invariant_of_informed (I := fun h => Swept cfg h ∧ Counted h) hd
    ⟨⟨fun _ _ ⟨_, _, h⟩ => absurd h List.not_mem_nil, fun _ _ ⟨_, _, h⟩ => absurd h List.not_mem_nil,
      fun _ _ ⟨_, _, h⟩ => absurd h List.not_mem_nil⟩,
      ⟨hw, fun _ _ _ h => absurd h List.not_mem_nil, fun _ _ _ h => absurd h List.not_mem_nil,
        fun _ _ _ h => absurd h List.not_mem_nil,
        fun later _ _ _ _ _ h => absurd h.symm (List.append_ne_nil_of_right_ne_nil later nofun)⟩⟩
    (fun h h' hdisc hdisc' hi hI hk hok =>
      ⟨hI.1.step hi hdisc hdisc' hk hok.1, hI.2.step hdisc hk hok.2⟩) hs
  intro later p userId now w earlier htrace hcompleted hended
  have hsweptIn : SweptIn s.hist userId w :=
    ⟨p, now, htrace ▸ List.mem_append_right later List.mem_cons_self⟩
  refine ⟨fun hash t hdescends ht hexchangeable => ?_,
    fun q tokens payload iat pid hreturned haccess huser => ?_⟩
  · exact hswept.revoked userId w hsweptIn hash t hdescends ht hexchangeable.unrevoked
  · obtain ⟨version, w', hmem⟩ := hcompleted
    obtain ⟨later', between, rfl⟩ := List.append_of_mem hmem
    subst huser
    refine solo_validate_outdated hcounted.wallets ?_
    refine hcounted.outdated later' p payload.userId _ w' (between ++ _ :: earlier) (by
      rw [htrace, List.append_assoc, List.cons_append]) q tokens payload iat ?_ haccess rfl
    exact List.mem_append_right between (List.mem_cons_of_mem _ hreturned)

/-! ### A revocation between the two halves of a refresh -/

namespace Sample

/-- A revocation of all rows of the user. -/
def revoking (pid : ℕ) (now : ℤ) : List (Move Choice Call) :=
  ([.start (.revokeAllUserTokens 0), .run pid (.time now)] : List (Move Choice Call)) ++
    List.replicate 4 (.run pid .done : Move Choice Call) ++ ([.finish pid] : List (Move Choice Call))

theorem distinctWallets_loggedIn (absoluteExpiresAt : ℤ) :
    DistinctWallets (loggedIn absoluteExpiresAt).users := by
  have hrow : ∀ i a, (loggedIn absoluteExpiresAt).users.row i = some a → i = 0 := by
    intro i a ha
    by_contra hi
    exact absurd (ha.symm.trans (Table.row_put_of_ne Table.empty hi)) nofun
  exact fun i j a b ha hb _ => (hrow i a ha).trans (hrow j b hb).symm

/-- The rows of the user have been revoked. -/
def isSweep : Event Op.Ret World Call (Except Exc Reply) → Bool
  | .did 1 (.db (.revokeTokens 0 _)) (.ok ()) _ => true
  | _ => false

/-- The version of the user has been counted up by the revocation. -/
def isCount : Event Op.Ret World Call (Except Exc Reply) → Bool
  | .did 1 (.db (.updateUser 0 (.sessions _))) (.ok ()) _ => true
  | _ => false

/-- The call 0 has inserted a row that may still be exchanged. -/
def usable (w : World) : Entry Op.Ret → Bool
  | ⟨.db (.insertToken successor), .ok ()⟩ => (w.refreshTokens.row 1).any fun t =>
      t.tokenHash = successor.tokenHash ∧ t.revokedAt = none ∧ w.clock ≤ t.expiresAt ∧
        w.clock ≤ t.absoluteExpiresAt
  | _ => false

/-- A revocation is over, and so is what was under way, and a successor of a row that it has met is
usable. -/
def outlived (h : History) : Bool :=
  match h.trace.dropWhile fun e => !isSweep e with
  | .did 1 (.db (.revokeTokens 0 _)) (.ok ()) w :: earlier =>
      ((h.trace.takeWhile fun e => !isSweep e).any isCount &&
        earlier.all fun e => h.trace.any fun e' => e'.isEnd && e'.pid = e.pid) &&
      ((w.refreshTokens.row 0).any (fun t => t.userId = 0 ∧ t.tokenHash = config.digest token) &&
        (log 0 h.trace).any (usable h.world))
  | _ => false

end Sample

/-- A session is refreshed, and then all are revoked. -/
theorem revocationWins_sample : ∃ s : AuthState, Sample.exchanged 0 s.hist.trace = true ∧
    s.hist.trace.any Sample.isCount = true ∧ RevocationWins Sample.config s.hist := by
  obtain ⟨s, hs, hdone⟩ := System.exists_of_replay (system Sample.config)
    (fun h h' => sweepsAlone h h' = true ∧ countsUp h h' = true) (.init (Sample.loggedIn (30 * day)))
    (Sample.reading 0 0 ++ Sample.exchanging 0 0 ++ Sample.revoking 1 0)
    (fun s => Sample.exchanged 0 s.hist.trace && s.hist.trace.any Sample.isCount) (by decide +kernel)
  obtain ⟨hexchanged, hcounted⟩ := Bool.and_eq_true_iff.mp hdone
  exact ⟨s, hexchanged, hcounted, revocationWins_of_sweepsAlone Sample.config _
    (Sample.distinct_loggedIn _) (Sample.distinctWallets_loggedIn _) s hs⟩

/-- A refresh has read its row when all rows are revoked, and stores a successor after that. -/
theorem not_revocationWins : ¬ ∀ (cfg : Config) (w₀ : World), Distinct w₀.refreshTokens →
    DistinctWallets w₀.users → ∀ s, (system cfg).Reachable (.init w₀) s → RevocationWins cfg s.hist := by
  intro hall
  obtain ⟨s, hs, hdone⟩ := System.exists_of_replay (system Sample.config) (fun _ _ => True)
    (.init (Sample.loggedIn (30 * day)))
    (Sample.reading 0 0 ++ Sample.revoking 1 0 ++ Sample.exchanging 0 0)
    (fun s => Sample.exchanged 0 s.hist.trace && Sample.outlived s.hist) (by decide +kernel)
  obtain ⟨hexchanged, houtlived⟩ := Bool.and_eq_true_iff.mp hdone
  obtain ⟨opts, tokens, hstart, -⟩ := Sample.of_exchanged hexchanged
  unfold Sample.outlived at houtlived
  split at houtlived
  next now w earlier hdrop =>
    have htrace : s.hist.trace = s.hist.trace.takeWhile (fun e => !Sample.isSweep e) ++
        .did 1 (.db (.revokeTokens 0 now)) (.ok ()) w :: earlier := by
      rw [← hdrop, List.takeWhile_append_dropWhile]
    obtain ⟨hover, hsurvives⟩ := Bool.and_eq_true_iff.mp houtlived
    obtain ⟨hcount, hended⟩ := Bool.and_eq_true_iff.mp hover
    obtain ⟨hrow, husable⟩ := Bool.and_eq_true_iff.mp hsurvives
    obtain ⟨t, ht, hfirst⟩ := System.exists_of_any hrow
    obtain ⟨huser, hhash⟩ := of_decide_eq_true hfirst
    obtain ⟨e, he, hsuccessor⟩ := List.any_eq_true.mp husable
    unfold Sample.usable at hsuccessor
    split at hsuccessor
    next successor =>
      obtain ⟨t', ht', hlive⟩ := System.exists_of_any hsuccessor
      obtain ⟨hhash', hunrevoked, hexpiry, hcap⟩ := of_decide_eq_true hlive
      have hchain : Chain Sample.config s.hist t.tokenHash successor.tokenHash :=
        .exchange (hhash ▸ .first _) ⟨opts, hstart, he⟩
      have hwins := hall _ _ (Sample.distinct_loggedIn _) (Sample.distinctWallets_loggedIn _) s hs
      refine (hwins _ 1 0 now w earlier htrace ?_ ?_).1 successor.tokenHash t' ⟨0, t, ht, huser, hchain⟩
        ⟨1, ht', hhash'⟩ ⟨hunrevoked, hexpiry, hcap⟩
      · obtain ⟨e', he', hsessions⟩ := List.any_eq_true.mp hcount
        unfold Sample.isCount at hsessions
        split at hsessions
        next version w' => exact ⟨version, w', he'⟩
        next => cases hsessions
      · intro e' he'
        obtain ⟨e'', he'', hsame⟩ := List.any_eq_true.mp (List.all_eq_true.mp hended e' he')
        obtain ⟨hend, hpid⟩ := Bool.and_eq_true_iff.mp hsame
        exact ⟨e'', he'', hend, of_decide_eq_true hpid⟩
    next => cases hsuccessor
  next => cases houtlived

end Ahjoor.Auth
