import Ahjoor.Users.UsersService

/-!
# Users and their blind index

A user is found by an e-mail address through the blind index, so every write has to keep the two
columns in step. Updates leave both alone, and a row that is saved has them as they were read; but
`register` creates a row **without a blind index**, and an erasure replaces the address only. As long
as every row that is inserted with an address carries its index, and nobody is erased, all users are
found and no two of them have the same address.
-/

namespace Ahjoor.Users

open Async Store

variable (cfg : Config)

/-! ### What is claimed -/

/-- What `findByEmail(email)` finds. -/
def lookup (w : World) (email : String) : Option User :=
  w.find? fun u => u.emailBlindIndex = some (hmacBlindIndex cfg email)

/-- Every user with an address is found by it, whatever the case of its letters, and no two users
have the same one. -/
structure Findable (w : World) : Prop where
  found : ∀ u ∈ w.rows, ∀ e, u.email = some e → ∀ e', cfg.toLowerCase e' = cfg.toLowerCase e →
    lookup cfg w e' = some u
  distinct : ∀ u ∈ w.rows, ∀ v ∈ w.rows, ∀ e e', u.email = some e → v.email = some e' →
    cfg.toLowerCase e = cfg.toLowerCase e' → u = v

/-- A row with an address has the blind index of the address. -/
def User.indexed (u : User) : Bool :=
  u.email.all fun e => u.emailBlindIndex = some (hmacBlindIndex cfg e)

/-- The operation does not insert an address **without its blind index**, and does not replace the
address of a user, unless a unique index refuses the row. -/
def Op.keepsIndex (w : World) : Op → Bool
  | insert user => user.indexed cfg || (violated w { user with id := w.next }).isSome
  | update id (.anonymized email walletAddress) => (w.row id).all fun user =>
      (violated w ((UserUpdate.anonymized email walletAddress).apply user)).isSome
  | _ => true

/-- The steps at which the two columns stay in step. -/
def keepsIndex (_ h' : History) : Bool :=
  match h'.trace with
  | .did _ o _ before :: _ => o.keepsIndex cfg before
  | _ => true

/-! ### Rows in step -/

/-- The two columns are in step in every row, and no index occurs twice. -/
structure Indexed (w : World) : Prop where
  indexed : ∀ i u, w.row i = some u → u.indexed cfg = true
  unique : ∀ i j u v, w.row i = some u → w.row j = some v → u.emailBlindIndex.isSome = true →
    u.emailBlindIndex = v.emailBlindIndex → i = j

section Rows

variable {cfg} {w : World} {u : User}

theorem blindIndex_of_indexed (h : u.indexed cfg = true) {e : String} (he : u.email = some e) :
    u.emailBlindIndex = some (hmacBlindIndex cfg e) := by
  simpa [User.indexed, he] using h

theorem indexed_congr {v : User} (hemail : u.email = v.email)
    (hindex : u.emailBlindIndex = v.emailBlindIndex) : u.indexed cfg = v.indexed cfg := by
  rw [User.indexed, User.indexed, hemail, hindex]

/-- Where the columns are in step, every user is found. -/
theorem Indexed.findable (hw : Indexed cfg w) : Findable cfg w := by
  have hfound : ∀ u ∈ w.rows, ∀ e, u.email = some e →
      ∀ e', cfg.toLowerCase e' = cfg.toLowerCase e → lookup cfg w e' = some u := by
    intro u hu e he e' hcase
    have hrow := w.mem_rows.mp hu
    have hindex : u.emailBlindIndex = some (hmacBlindIndex cfg e') := by
      rw [blindIndex_of_indexed (hw.indexed _ u hrow) he, hmacBlindIndex, hmacBlindIndex, hcase]
    cases hlookup : lookup cfg w e' with
    | none =>
      have hnone := Table.find?_eq_none.mp hlookup _ u hrow
      simp [hindex] at hnone
    | some v =>
      obtain ⟨hrow', hindex'⟩ := Table.of_find?_eq_some hlookup
      have hsame : u.emailBlindIndex = v.emailBlindIndex := by
        rw [hindex, of_decide_eq_true hindex']
      have hid := hw.unique _ _ u v hrow hrow' (by rw [hindex]; rfl) hsame
      rw [hid, hrow'] at hrow
      exact hrow
  refine ⟨hfound, fun u hu v hv e e' he he' hcase => ?_⟩
  have hsame := (hfound u hu e he e' hcase.symm).symm.trans (hfound v hv e' he' e' rfl)
  exact Option.some.inj hsame

/-- What is not violated by a row. -/
theorem ne_of_violated (h : violated w u = none) (hsome : u.emailBlindIndex.isSome = true)
    {i : ℕ} {v : User} (hv : w.row i = some v) (hi : i ≠ u.id) :
    v.emailBlindIndex ≠ u.emailBlindIndex := by
  intro heq
  have hid : v.id = i := w.id_of_row hv
  have hmem : v ∈ w.rows := w.mem_rows.mpr ((congrArg w.row hid).trans hv)
  have hany : (w.rows.any fun v => v.id ≠ u.id && v.emailBlindIndex = u.emailBlindIndex) = true :=
    List.any_eq_true.mpr ⟨v, hmem, by simp [heq, hid, hi]⟩
  rw [violated] at h
  split at h
  · cases h
  · rw [hsome, Bool.true_and, if_pos hany] at h
    cases h

/-- A row in step may be written unless its index is taken. -/
theorem Indexed.put (hw : Indexed cfg w) (hu : u.indexed cfg = true)
    (hfree : violated w u = none) : Indexed cfg (w.put u) := by
  refine ⟨fun i v hv => ?_, fun i j v v' hv hv' hsome heq => ?_⟩
  · rw [w.row_put] at hv
    split at hv
    · exact Option.some.inj hv ▸ hu
    · exact hw.indexed i v hv
  · rw [w.row_put] at hv hv'
    change (if i = u.id then some u else w.row i) = some v at hv
    change (if j = u.id then some u else w.row j) = some v' at hv'
    split at hv <;> split at hv'
    next hi hj => exact hi.trans hj.symm
    next hi hj =>
      obtain rfl := Option.some.inj hv
      exact absurd heq.symm (ne_of_violated hfree hsome hv' hj)
    next hi hj =>
      obtain rfl := Option.some.inj hv'
      exact absurd heq (ne_of_violated hfree (heq ▸ hsome) hv hi)
    next hi hj => exact hw.unique i j v v' hv hv' hsome heq

theorem Indexed.write (hw : Indexed cfg w)
    (hu : u.indexed cfg = true ∨ (violated w u).isSome = true) : Indexed cfg (write w u).2 := by
  rw [Users.write]
  split
  · exact hw
  next hfree =>
    refine hw.put (hu.resolve_right fun h => ?_) hfree
    rw [hfree] at h
    cases h

end Rows

/-! ### Operations -/

section Operations

variable {cfg} {w w' : World}

/-- An operation that keeps the columns in step, where a row that is saved has been read in step. -/
theorem Indexed.run (hw : Indexed cfg w) {o : Op} {choice : Choice} {r : o.Ret}
    (hkeeps : o.keepsIndex cfg w = true) (hsave : ∀ u, o = .save u → u.indexed cfg = true)
    (h : o.run choice w = some (r, w')) : Indexed cfg w' := by
  cases o with
  | insert user =>
    cases choice <;> cases h
    exact hw.write (Bool.or_eq_true_iff.mp hkeeps)
  | save user =>
    cases choice with
    | done =>
      obtain rfl : (Users.write w user).2 = w' := congrArg Prod.snd (Option.some.inj h)
      exact hw.write (.inl (hsave user rfl))
    | _ => cases h
  | update id fields =>
    cases choice with
    | done =>
      simp only [Op.run] at h
      cases hrow : w.row id with
      | none =>
        rw [hrow] at h
        cases h
        exact hw
      | some user =>
        rw [hrow] at h
        obtain rfl : (Users.write w (fields.apply user)).2 = w' :=
          congrArg Prod.snd (Option.some.inj h)
        have hold := hw.indexed id user hrow
        cases fields with
        | anonymized email walletAddress =>
          simp only [Op.keepsIndex, hrow, Option.all_some] at hkeeps
          exact hw.write (.inr hkeeps)
        | _ => exact hw.write (.inl ((indexed_congr rfl rfl).trans hold))
    | _ => cases h
  | dateNow => cases choice <;> cases h; exact hw
  | hashPassword password => cases choice <;> cases h; exact hw
  | findById id => cases choice <;> cases h; exact hw
  | findByWalletAddress walletAddress => cases choice <;> cases h; exact hw
  | findByBlindIndex blindIndex => cases choice <;> cases h; exact hw

theorem Indexed.exec (hw : Indexed cfg w) {o : Op} {pid : ℕ} {choice : Choice} {r : o.Ret}
    (hkeeps : o.keepsIndex cfg w = true) (hsave : ∀ u, o = .save u → u.indexed cfg = true)
    (h : exec o pid choice w = some (r, w')) : Indexed cfg w' := by
  cases choice with
  | fails message =>
    cases h
    exact hw
  | lost message =>
    obtain ⟨⟨r', w₁⟩, hrun, heq⟩ := Option.map_eq_some_iff.mp h
    obtain rfl := (Prod.mk.inj heq).2
    exact hw.run hkeeps hsave hrun
  | done | time now | hash text => exact hw.run hkeeps hsave h

end Operations

/-! ### Calls -/

/-- A row that is saved has the address and the index with which it was read. -/
def Saves (L : Log Op.Ret) : Op → Prop
  | .save u => ∃ id v, ⟨.findById id, .ok (some v)⟩ ∈ L ∧ u.email = v.email ∧
      u.emailBlindIndex = v.emailBlindIndex
  | _ => True

/-- The operation does not save a row that was read before. -/
def Op.isFresh : Op → Bool
  | save _ => false
  | _ => true

theorem admits_fresh : Admits (fun L o => Saves L o) (fun o => o.isFresh = true) fun _ => True where
  allowed L o _ ho := by
    cases o with
    | save u => cases ho
    | _ => trivial
  kept _ _ _ _ _ := trivial

section Calls

variable {P : Op → Prop} {α β : Type}

theorem uses_await {o : Op} (h : P o) : Routine.Uses P (await o) := Routine.uses_call h

theorem uses_create (userData : User) :
    Routine.Uses (fun o => o.isFresh = true) (create userData) := uses_await rfl

theorem uses_findById (id : Uuid) : Routine.Uses (fun o => o.isFresh = true) (findById id) :=
  Routine.uses_bind (uses_await rfl) fun user => Routine.uses_valueOr user _

/-- A user is created when none is found. -/
theorem uses_createUnlessFound (walletAddress : String) (userData : User) :
    Routine.Uses (fun o => o.isFresh = true) (do
      let user ← await (.findByWalletAddress walletAddress)
      match user with
      | some _ => pure ()
      | none => do
          let _ ← create userData
          pure () : Service Unit) := by
  refine Routine.uses_bind (uses_await rfl) fun user => ?_
  cases user with
  | some u => exact Routine.uses_pure ()
  | none => exact Routine.uses_bind (uses_create _) fun _ => Routine.uses_pure ()

/-- Only `banUser` saves a row that it has read. -/
theorem uses_body {c : Call} (hc : ∀ userId reason, c ≠ .banUser userId reason) :
    Routine.Uses (fun o => o.isFresh = true) (c.body cfg) := by
  cases c with
  | create userData => exact Routine.uses_bind (uses_create _) fun _ => Routine.uses_pure ()
  | updateRefreshToken userId hash => exact uses_await rfl
  | incrementTokenVersion userId =>
    exact Routine.uses_bind (uses_findById _) fun _ => uses_await rfl
  | revokeAllSessions userId => exact Routine.uses_bind (uses_findById _) fun _ => uses_await rfl
  | banUser userId reason => exact absurd rfl (hc userId reason)
  | upsertByWalletAddress walletAddress => exact uses_createUnlessFound walletAddress _
  | update2FA userId fields => exact uses_await rfl
  | register registerDto =>
    refine Routine.uses_bind (uses_await rfl) fun existingUser => ?_
    refine Routine.uses_bind (Routine.uses_throwWhen _ _) fun _ => ?_
    refine Routine.uses_bind (uses_await rfl) fun hashedPassword => ?_
    refine Routine.uses_bind (uses_await rfl) fun now => ?_
    exact Routine.uses_bind (uses_create _) fun _ => Routine.uses_pure ()
  | registerWithWallet walletAddress isValid =>
    exact Routine.uses_bind (Routine.uses_throwWhen _ _) fun _ =>
      uses_createUnlessFound walletAddress _
  | anonymizeUser userId =>
    refine Routine.uses_bind (uses_await rfl) fun found => ?_
    cases found with
    | none => exact Routine.uses_pure ()
    | some user => exact uses_await rfl

theorem obeys_banUser (userId : Uuid) (reason : Option String) :
    Obeys Saves (banUser userId reason) Anyhow (fun _ _ _ => True) () [] := by
  refine Obeys.bind (Obeys.call trivial fun found => ?_)
  cases found with
  | error e => trivial
  | ok found =>
    refine Obeys.bind (Obeys.valueOr (fun user huser => ?_) fun _ => trivial)
    refine Obeys.bind (Obeys.call trivial fun now => ?_)
    cases now with
    | error e => trivial
    | ok now =>
      refine Obeys.call ?_ fun r => by cases r <;> trivial
      exact ⟨userId, user, by simp [huser], rfl, rfl⟩

/-- Every call saves rows as it has read them. -/
theorem follows_saves (c : Call) :
    Follows Saves (fun _ _ => True) ((system cfg).body c) [] := by
  have hbody : Obeys Saves (c.body cfg) Anyhow (fun _ _ _ => True) () [] := by
    by_cases hc : ∃ userId reason, c = .banUser userId reason
    · obtain ⟨userId, reason, rfl⟩ := hc
      exact obeys_banUser userId reason
    · refine (Obeys.of_uses admits_fresh (uses_body cfg fun userId reason heq => ?_) trivial).mono
        (fun _ _ _ _ => trivial) fun _ _ _ _ => trivial
      exact hc ⟨userId, reason, heq⟩
  exact hbody.follows.bind fun x L _ => trivial

end Calls

/-! ### Runs -/

/-- The users are in step, and so was every row that has been read. -/
structure InStep (h : History) : Prop where
  world : Indexed cfg h.world
  read : ∀ pid id v, ⟨.findById id, .ok (some v)⟩ ∈ log pid h.trace → v.indexed cfg = true

variable {cfg}

/-- What is read of a user is a row. -/
theorem row_of_findById {w w' : World} {id : Uuid} {pid : ℕ} {choice : Choice} {v : User}
    (h : exec (.findById id) pid choice w = some (.ok (some v), w')) : w.row id = some v := by
  cases choice with
  | done =>
    have hread := congrArg Prod.fst (Option.some.inj h)
    exact Except.ok.inj hread
  | _ => cases h

/-- **One step** keeps the users in step. -/
theorem InStep.step {h h' : History} (hs : InStep cfg h)
    (hstep : HistStep (system cfg) (fun _ => Saves) h h') (hok : keepsIndex cfg h h' = true) :
    InStep cfg h' := by
  refine ⟨?_, fun pid id v hmem => ?_⟩
  · cases hstep with
    | idle e he hlive => exact hs.world
    | did pid c o choice r w hstart hD hexec hlive =>
      have hdone : exec o pid choice h.world = some (r, w) := hexec
      refine hs.world.exec hok (fun u hu => ?_) hdone
      subst hu
      obtain ⟨id, v, hread, hemail, hindex⟩ := hD
      exact (indexed_congr hemail hindex).trans (hs.read pid id v hread)
  · rcases hstep.mem_log hmem with hold | ⟨choice, hexec⟩
    · exact hs.read pid id v hold
    · have hread : exec (.findById id) pid choice h.world = some (.ok (some v), h'.world) := hexec
      exact hs.world.indexed id v (row_of_findById hread)

/-- **Every user is found**, in every state of every run that inserts no address without its blind
index and erases no user, however the calls interleave. -/
theorem findable_of_keepsIndex (cfg : Config) {s : State Op.Ret World Call (Except Exc Unit)}
    (hs : (system cfg).ReachableWhen (fun h h' => keepsIndex cfg h h' = true)
      (.init Table.empty) s) : Findable cfg s.hist.world := by
  have hempty : ∀ {i : ℕ} {u : User}, Table.empty.row i ≠ some u := nofun
  have hstart : InStep cfg ⟨Table.empty, []⟩ :=
    ⟨⟨fun _ _ h => absurd h hempty, fun _ _ _ _ h => absurd h hempty⟩,
      fun _ _ _ h => absurd h List.not_mem_nil⟩
  exact (hist_invariant (D := fun _ => Saves) (Q := fun _ _ _ => True) (follows_saves cfg)
    (I := InStep cfg) hstart (fun _ _ _ _ hi hstep hok => hi.step hstep hok) hs).world.findable

namespace Sample

/-- Letters as they are, hashes that are the text itself. -/
def plain : Config where
  toLowerCase := id
  hmac := id
  sha256 := id
  digits _ := ""

/-- A user with an address and its index, and a wallet. -/
def indexedUser : List (Move Choice Call) :=
  [.start (.create { walletAddress := "G1", email := some "a@b.c", emailBlindIndex := some "a@b.c" }),
    .run 0 .done, .finish 0, .start (.upsertByWalletAddress "G2"), .run 1 .done, .run 1 .done]

/-- Somebody registers. -/
def registration : List (Move Choice Call) :=
  [.start (.register { email := "a@b.c", password := "secret" }), .run 0 .done,
    .run 0 (.hash "hash"), .run 0 (.time 1), .run 0 .done]

end Sample

/-- A user who was created with the blind index is found. -/
theorem findable_sample : ∃ s : State Op.Ret World Call (Except Exc Unit),
    s.hist.world.rows.length = 2 ∧ (lookup Sample.plain s.hist.world "a@b.c").isSome = true ∧
      Findable Sample.plain s.hist.world := by
  obtain ⟨s, hs, hp⟩ := System.exists_of_replay (system Sample.plain)
    (fun h h' => keepsIndex Sample.plain h h' = true) (.init Table.empty) Sample.indexedUser
    (fun s => s.hist.world.rows.length == 2 &&
      (lookup Sample.plain s.hist.world "a@b.c").isSome) (by decide +kernel)
  obtain ⟨hlength, hfound⟩ := Bool.and_eq_true_iff.mp hp
  exact ⟨s, by simpa using hlength, hfound, findable_of_keepsIndex Sample.plain hs⟩

/-- Who has registered is not found. -/
theorem not_findable : ¬ ∀ (cfg : Config) (s : State Op.Ret World Call (Except Exc Unit)),
    (system cfg).Reachable (.init Table.empty) s → Findable cfg s.hist.world := by
  intro h
  obtain ⟨s, hs, hp⟩ := System.exists_of_replay (system Sample.plain) (fun _ _ => True)
    (.init Table.empty) Sample.registration (fun s => s.hist.world.rows.any fun u =>
      u.email = some "a@b.c" && (lookup Sample.plain s.hist.world "a@b.c").isNone)
    (by decide +kernel)
  obtain ⟨u, hu, hnot⟩ := List.any_eq_true.mp hp
  obtain ⟨hemail, hnone⟩ := Bool.and_eq_true_iff.mp hnot
  rw [(h Sample.plain s hs).found u hu "a@b.c" (of_decide_eq_true hemail) "a@b.c" rfl] at hnone
  cases hnone

end Ahjoor.Users
