import Ahjoor.Auth.Rotation

/-!
# The absolute expiry of a session

Each refresh hands the absolute expiry of the row that it exchanges on to the row that it stores,
whatever options it was called with. So all refresh tokens of a chain of exchanges have the absolute
expiry of the first, and a refresh that reads a later time exchanges nothing. It reads the time once,
before it does so; the exchange itself may be over later than that.
-/

namespace Ahjoor.Auth

open Async Store

variable (cfg : Config)

/-! ### Chains -/

/-- **A rotation chain**: from the hash of a refresh token to that of a successor of a successor. -/
inductive Chain (h : History) : String → String → Prop
  | first (hash : String) : Chain h hash hash
  | exchange {hash : String} {pid : ℕ} {token : Token} {successor : RefreshToken}
      (hchain : Chain h hash (cfg.digest token)) (hexchanges : Exchanges h pid token successor) :
      Chain h hash successor.tokenHash

/-- The row of a hash. -/
def RowOf (h : History) (hash : String) (t : RefreshToken) : Prop :=
  ∃ i, h.world.refreshTokens.row i = some t ∧ t.tokenHash = hash

section Chains

variable {cfg} {h : History} {hash : String} {t t' : RefreshToken}

theorem RowOf.unique (hi : Informed h) (ht : RowOf h hash t) (ht' : RowOf h hash t') : t = t' := by
  obtain ⟨i, hrow, hhash⟩ := ht
  obtain ⟨j, hrow', hhash'⟩ := ht'
  obtain rfl := hi.distinct hrow hrow' (hhash.trans hhash'.symm)
  exact Option.some.inj (hrow.symm.trans hrow')

theorem cap_of_terms {a b : RefreshToken} (h : a.terms = b.terms) :
    a.absoluteExpiresAt = b.absoluteExpiresAt :=
  congrArg (fun t => t.2.2.2) h

/-- An exchange takes the absolute expiry over from the row of the token. -/
theorem rowOf_of_exchanges (hd : Disciplined (Acting cfg) (Returned cfg) h) (hi : Informed h)
    {pid : ℕ} {token : Token} {successor : RefreshToken} (he : Exchanges h pid token successor) :
    ∃ t, RowOf h (cfg.digest token) t ∧ successor.absoluteExpiresAt = t.absoluteExpiresAt := by
  obtain ⟨stored, now, hexchanged⟩ := exchanged_of_exchanges hd hi he
  obtain ⟨t, ht, hterms, -⟩ := hexchanged.sighted
  refine ⟨t, ⟨_, ht, (tokenHash_of_terms hterms).trans hexchanged.hash⟩, ?_⟩
  exact hexchanged.cap.trans (cap_of_terms hterms).symm

/-- **The absolute expiry is the same along a chain.** -/
theorem Chain.cap (hd : Disciplined (Acting cfg) (Returned cfg) h) (hi : Informed h) {hash' : String}
    (hchain : Chain cfg h hash hash') (ht : RowOf h hash t) (ht' : RowOf h hash' t') :
    t'.absoluteExpiresAt = t.absoluteExpiresAt := by
  induction hchain generalizing t' with
  | first => rw [ht.unique hi ht']
  | @exchange pid token successor hchain hexchanges ih =>
    obtain ⟨parent, hparent, hcap⟩ := rowOf_of_exchanges hd hi hexchanges
    obtain ⟨-, -, hinsert⟩ := hexchanges
    obtain ⟨row, i, hrow, hterms⟩ := hi.inserted pid successor hinsert
    obtain rfl := ht'.unique hi ⟨i, hrow, tokenHash_of_terms hterms⟩
    rw [cap_of_terms hterms, hcap]
    exact ih hparent

end Chains

/-! ### The cap -/

/-- A refresh has read the time `now` after the row of its token. -/
def Judged (h : History) (pid : ℕ) (token : Token) (now : ℤ) : Prop :=
  ∃ stored verified, foundLog cfg token stored verified now <:+ log pid h.trace

/-- **The absolute expiry of a session**, as it is kept: all rows of a chain have that of the first,
and no refresh exchanges a token of the chain when it reads a later time. -/
structure Capped (h : History) : Prop where
  carried : ∀ hash hash' t t', Chain cfg h hash hash' → RowOf h hash t → RowOf h hash' t' →
    t'.absoluteExpiresAt = t.absoluteExpiresAt
  judged : ∀ hash t pid token successor, RowOf h hash t → Chain cfg h hash (cfg.digest token) →
    Exchanges h pid token successor → ∃ now, Judged cfg h pid token now ∧ now ≤ t.absoluteExpiresAt

/-- **No refresh outlives the first token**: no successor is stored later than the absolute expiry of
the chain. -/
structure NeverLater (h : History) : Prop where
  carried : ∀ hash hash' t t', Chain cfg h hash hash' → RowOf h hash t → RowOf h hash' t' →
    t'.absoluteExpiresAt = t.absoluteExpiresAt
  stored : ∀ hash t pid token opts successor w, RowOf h hash t → Chain cfg h hash (cfg.digest token) →
    Event.start pid (.refreshTokens token opts) ∈ h.trace →
    Event.did pid (.db (.insertToken successor)) (.ok ()) w ∈ h.trace →
    w.clock ≤ t.absoluteExpiresAt

/-- **The cap holds in every run.** -/
theorem capped_of_reachable (w₀ : World) (hd : Distinct w₀.refreshTokens) (s : AuthState)
    (hs : (system cfg).Reachable (.init w₀) s) : Capped cfg s.hist := by
  have hdisc := disciplined_of_reachable (follows_acting cfg) hs
  obtain ⟨hi, -⟩ := invariant_of_informed (I := fun _ => True) hd trivial
    (fun _ _ _ _ _ _ _ _ => trivial) hs
  refine ⟨fun hash hash' t t' hchain ht ht' => hchain.cap hdisc hi ht ht',
    fun hash t pid token successor ht hchain hexchanges => ?_⟩
  obtain ⟨stored, now, hexchanged⟩ := exchanged_of_exchanges hdisc hi hexchanges
  obtain ⟨row, hrow, hterms, -⟩ := hexchanged.sighted
  obtain ⟨verified, hfound⟩ := hexchanged.found
  have hrowOf : RowOf s.hist (cfg.digest token) row :=
    ⟨_, hrow, (tokenHash_of_terms hterms).trans hexchanged.hash⟩
  refine ⟨now, ⟨stored, verified, hfound⟩, ?_⟩
  rw [← hchain.cap hdisc hi ht hrowOf, cap_of_terms hterms]
  exact hexchanged.exchangeable.within

/-- A refresh before the session is too old. -/
theorem capped_sample : ∃ s : AuthState, Sample.exchanged 0 s.hist.trace = true ∧
    Capped Sample.config s.hist := by
  obtain ⟨s, hs, hdone⟩ := System.exists_of_replay (system Sample.config) (fun _ _ => True)
    (.init (Sample.loggedIn 10)) (Sample.reading 0 10 ++ Sample.exchanging 0 10)
    (fun s => Sample.exchanged 0 s.hist.trace) (by decide +kernel)
  exact ⟨s, hdone, capped_of_reachable Sample.config _ (Sample.distinct_loggedIn _) s hs⟩

/-- The request `0` stores a successor later than `t`. -/
def Sample.storesAfter (t : ℤ) : Event Op.Ret World Call (Except Exc Reply) → Bool
  | .did p (.db (.insertToken _)) (.ok ()) w => p = 0 ∧ t < w.clock
  | _ => false

/-- A refresh reads the time at the absolute expiry, and stores the successor after that. -/
theorem not_neverLater : ¬ ∀ (cfg : Config) (w₀ : World), Distinct w₀.refreshTokens →
    ∀ s, (system cfg).Reachable (.init w₀) s → NeverLater cfg s.hist := by
  intro hall
  obtain ⟨s, hs, hlate⟩ := System.exists_of_replay (system Sample.config) (fun _ _ => True)
    (.init (Sample.loggedIn 10)) (Sample.reading 0 10 ++ Sample.exchanging 0 11)
    (fun s => (s.hist.world.refreshTokens.row 0).any
        (fun t => t.tokenHash = "" ∧ t.absoluteExpiresAt = 10) &&
      (Sample.exchanged 0 s.hist.trace && s.hist.trace.any (Sample.storesAfter 10)))
    (by decide +kernel)
  obtain ⟨hrow, hlate⟩ := Bool.and_eq_true_iff.mp hlate
  obtain ⟨hdone, hlate⟩ := Bool.and_eq_true_iff.mp hlate
  obtain ⟨t, ht, hsame⟩ := System.exists_of_any hrow
  obtain ⟨hhash, hcap⟩ := of_decide_eq_true hsame
  obtain ⟨opts, tokens, hstart, -⟩ := Sample.of_exchanged hdone
  obtain ⟨e, he, hinsert⟩ := List.any_eq_true.mp hlate
  unfold Sample.storesAfter at hinsert
  split at hinsert
  next p successor w =>
    obtain ⟨rfl, hclock⟩ := of_decide_eq_true hinsert
    have hle := (hall _ _ (Sample.distinct_loggedIn _) s hs).stored "" t 0 Sample.token opts successor w
      ⟨0, ht, hhash⟩ (.first _) hstart he
    omega
  next => cases hinsert

end Ahjoor.Auth
