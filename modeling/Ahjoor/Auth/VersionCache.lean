import Ahjoor.Async.Embedding
import Ahjoor.Async.Moments
import Ahjoor.Auth.Sessions

/-!
# The version cache

`validate` asks the cache for the token version of the user before it asks the database, and stores
what the database says. Whoever changes the version invalidates the entry after the change. A
validation that has read the version before the change may store it after the invalidation; until
the entry expires, the tokens of the new version are rejected.

`banUser` changes the version too, by saving the whole row.
-/

namespace Ahjoor.Auth.Versions

open Async Store

variable (cfg : Config)

/-! ### Operations -/

/-- An awaited operation. -/
inductive Op
  | session (o : Auth.Op)
  /-- `save` of the row of a user that was loaded before -/
  | saveUser (user : User)
  deriving DecidableEq

/-- What an operation returns. -/
def Op.Ret : Op → Type
  | session o => o.Ret
  | saveUser _ => Except Exc User

/-- What an operation does. -/
def exec : (o : Op) → ℕ → Choice → World → Option (o.Ret × World)
  | .session o, pid, choice, w => Auth.exec cfg o pid choice w
  | .saveUser user, _, .done, w => some (.ok user, { w with users := w.users.put user })
  | .saveUser _, _, .fails msg, w => some (.error (.error msg), w)
  | .saveUser user, _, .lost msg, w => some (.error (.error msg), { w with users := w.users.put user })
  | .saveUser _, _, _, _ => none

/-- The body of an asynchronous method. -/
abbrev Service (α : Type) := Routine Op.Ret Unit Exc α

/-- A method that does not save users. -/
def session {α : Type} (m : Auth.Service α) : Service α := m.via Op.session fun _ r => r

/-! ### Bans -/

/-- `banUser(userId, reason)` of the repository. The columns of the ban are not read here. -/
def UserRepository.banUser (userId : Uuid) : Service User := do
  let found ← session (query (.findUserById userId))
  let user ← Routine.valueOr found (.error "User not found")
  Routine.call (.saveUser { user with tokenVersion := user.tokenVersion + 1 }) fun r => r

/-- `banUser(userId, reason)`. -/
def banUser (userId : Uuid) : Service User := do
  let user ← UserRepository.banUser userId
  Routine.call (.session (.invalidateVersion userId)) fun _ => .ok ()
  pure user

/-! ### The system -/

/-- The calls. -/
inductive Call
  | validate (payload : Payload)
  | incrementTokenVersion (userId : Uuid)
  | revokeAllSessions (userId : Uuid)
  | banUser (userId : Uuid)
  deriving DecidableEq

/-- What a call returns. -/
inductive Reply
  | principal (user : Principal)
  | version (version : ℤ)
  | done
  | user (user : User)
  deriving DecidableEq

/-- The body of a call. -/
def Call.body : Call → Service Reply
  | validate payload => do
      let user ← session (Auth.validate payload)
      pure (.principal user)
  | incrementTokenVersion userId => do
      let version ← session (Auth.incrementTokenVersion userId)
      pure (.version version)
  | revokeAllSessions userId => do
      session (Auth.revokeAllSessions userId)
      pure .done
  | banUser userId => do
      let user ← Versions.banUser userId
      pure (.user user)

/-- Validations, and changes of the version. -/
def system : System Op.Ret Choice World Call (Except Exc Reply) where
  exec := exec cfg
  body c := (c.body ()).bind fun x => .ret x.1

/-- The history of a run. -/
abbrev History := Hist Op.Ret World Call (Except Exc Reply)

/-- The events of a run, newest first. -/
abbrev Events := List (Event Op.Ret World Call (Except Exc Reply))

/-! ### What is claimed -/

/-- The token version of a user in the database. -/
def versionOf (w : World) (userId : Uuid) : Option ℤ := (w.users.row userId).map User.tokenVersion

/-- The validation has accepted. -/
def Accepts (a : Except Exc Reply) : Prop := ∃ user, a = .ok (.principal user)

/-- The validation has rejected. -/
def Rejects (a : Except Exc Reply) : Prop := ∃ message, a = .error (unauthorized message)

/-- **The cache changes nothing but cost**: when a validation returns its verdict, there was a moment
during the call at which it accepts exactly if the version of the token is the one in the database;
and where the cache answers a token of the current version, it answers that version. -/
structure CostOnly (h : History) : Prop where
  verdict : ∀ pid payload a es, h.trace = .returned pid a :: es →
    Event.start pid (.validate payload) ∈ es → Accepts a ∨ Rejects a →
      ∃ w, Moment h pid w ∧ (Accepts a ↔ versionOf w payload.userId = some payload.tokenVersion)
  current : ∀ pid payload (cached : ℤ) w, Event.start pid (.validate payload) ∈ h.trace →
    .did pid (.session (.getVersion payload.userId)) (some cached : Option ℤ) w ∈ h.trace →
      versionOf w payload.userId = some payload.tokenVersion → cached = payload.tokenVersion

/-! ### When it holds -/

/-- What is stored, if anything, is this version. -/
def Op.stores (version : Option ℤ) : Op → Bool
  | session (.setVersion _ stored) => some stored = version
  | _ => true

/-- Since the cache entry of a user was stored, the row has kept its version, and it was that version
that was stored. -/
def upToDate (userId : Uuid) (entry : Option (ℤ × ℤ)) (version : Option ℤ) : Events → Bool
  | [] => true
  | .did _ o _ before :: es =>
      versionOf before userId = version &&
        if before.versions userId = entry then upToDate userId entry version es else o.stores version
  | .start _ _ :: es | .returned _ _ :: es | .crashed _ :: es => upToDate userId entry version es

/-- The payload says which user the token was issued to. -/
def issuedTo (w : World) (payload : Payload) : Bool :=
  (w.users.row payload.userId).any (·.walletAddress = payload.sub)

/-- A step that begins a validation begins that of an issued token. -/
def validatesIssued (h h' : History) : Bool :=
  match h'.trace with
  | .start _ (.validate payload) :: _ => issuedTo h.world payload
  | _ => true

/-- Where a step looks up a token of the current version and finds an entry, the entry is up to
date. -/
def findsUpToDate (_ h' : History) : Bool :=
  match h'.trace with
  | .did pid (.session (.getVersion userId)) (some _) before :: es =>
      es.all fun e =>
        match e with
        | .start p (.validate payload) =>
            p ≠ pid ∨ versionOf before userId ≠ some payload.tokenVersion ∨
              upToDate userId (before.versions userId) (versionOf before userId) es
        | _ => true
  | _ => true

/-- Every entry of the cache has the version of the row. -/
def Coherent (w : World) : Prop :=
  ∀ userId entry, w.versions userId = some entry → versionOf w userId = some entry.1

/-! ### What a call has done -/

/-- Where a row that is saved comes from: the call has read it, and saves it with another version. -/
def SavesRead (L : Log Op.Ret) : Op → Prop
  | .saveUser user => ∃ userId read, ⟨.session (.db (.findUserById userId)), .ok (some read)⟩ ∈ L ∧
      user.id = read.id ∧ user.walletAddress = read.walletAddress
  | .session _ => True

/-- The entry of a method that does not save users. -/
def sessionEntry : Entry Op.Ret → Option (Entry Auth.Op.Ret)
  | ⟨.session o, r⟩ => some ⟨o, r⟩
  | ⟨.saveUser _, _⟩ => none

/-- What a verdict was based on. -/
def Judged (payload : Payload) (L : Log Auth.Op.Ret) : Except Exc Principal → Prop
  | .ok _ => ∃ user, ⟨.db (.findUserByWalletAddress payload.sub), .ok (some user)⟩ ∈ L ∧
      payload.tokenVersion = user.tokenVersion
  | .error e => ⟨.db (.findUserByWalletAddress payload.sub), .error e⟩ ∈ L ∨
      (∃ cached : ℤ, ⟨.getVersion payload.userId, (some cached : Option ℤ)⟩ ∈ L ∧
          cached ≠ payload.tokenVersion) ∨
        ∃ found, ⟨.db (.findUserByWalletAddress payload.sub), .ok found⟩ ∈ L ∧
          ∀ user, found = some user → payload.tokenVersion ≠ user.tokenVersion

section Calls

theorem mem_sessionEntry {o : Auth.Op} {r : o.Ret} {L : Log Op.Ret} :
    ⟨o, r⟩ ∈ L.filterMap sessionEntry ↔ ⟨.session o, r⟩ ∈ L := by
  rw [List.mem_filterMap]
  constructor
  · rintro ⟨⟨o' | user, r'⟩, he, heq⟩
    · cases heq
      exact he
    · cases heq
  · exact fun he => ⟨_, he, rfl⟩

/-- **A validation** says why. -/
theorem obeys_validate (payload : Payload) : Obeys (fun _ _ => True) (Auth.validate payload)
    (fun user _ L => Judged payload L (.ok user)) (fun e _ L => Judged payload L (.error e)) () [] := by
  refine Obeys.bind (Obeys.perform trivial fun cached : Option ℤ => ?_)
  refine Obeys.bind (Obeys.throwWhen (fun hstale => ?_) fun _ => ?_)
  · obtain ⟨version, rfl, hne⟩ := System.exists_of_any hstale
    exact .inr (.inl ⟨version, List.mem_cons_self, of_decide_eq_true hne⟩)
  refine Obeys.bind (Obeys.call trivial fun r => ?_)
  cases r with
  | error e => exact .inl List.mem_cons_self
  | ok found =>
    have hread : ∀ L : Log Auth.Op.Ret, ⟨.db (.findUserByWalletAddress payload.sub), .ok found⟩ ∈
        (⟨.db (.findUserByWalletAddress payload.sub), .ok found⟩ :: L : Log Auth.Op.Ret) :=
      fun _ => List.mem_cons_self
    refine Obeys.bind (Obeys.valueOr (fun user hfound => ?_) fun hnone => ?_)
    · subst hfound
      refine Obeys.bind (Obeys.throwWhen (fun hne => ?_) fun heq => ?_)
      · refine .inr (.inr ⟨some user, hread _, fun user' huser' => ?_⟩)
        obtain rfl := Option.some.inj huser'
        exact of_decide_eq_true hne
      · have hversion : payload.tokenVersion = user.tokenVersion := by simpa using heq
        refine Obeys.bind (Obeys.call trivial fun _ => Obeys.pure ?_)
        exact ⟨user, List.mem_cons_of_mem _ (hread _), hversion⟩
    · exact .inr (.inr ⟨found, hread _, fun user huser => absurd (hnone.symm.trans huser) nofun⟩)

/-- What a call has returned: a validation, its verdict. -/
def Returned : Call → Except Exc Reply → Log Op.Ret → Prop
  | .validate payload, .ok (.principal user), L => Judged payload (L.filterMap sessionEntry) (.ok user)
  | .validate payload, .error e, L => Judged payload (L.filterMap sessionEntry) (.error e)
  | .validate _, .ok _, _ => False
  | _, _, _ => True

/-- A method that does not save users saves none. -/
theorem obeys_session {α : Type} {m : Auth.Service α} {Q : α → Unit → Log Auth.Op.Ret → Prop}
    {X : Exc → Unit → Log Auth.Op.Ret → Prop} {L : Log Op.Ret}
    (hm : Obeys (fun _ _ => True) m Q X () (L.filterMap sessionEntry)) :
    Obeys SavesRead (session m) (fun a t L => Q a t (L.filterMap sessionEntry))
      (fun e t L => X e t (L.filterMap sessionEntry)) () L := by
  have hvia : Follows SavesRead (fun x L => Outcome Q X x (L.filterMap sessionEntry)) (session m ()) L :=
    hm.follows.via sessionEntry (fun _ _ => rfl) fun _ _ _ => trivial
  refine ⟨hvia.mono fun x L hx => ?_⟩
  obtain ⟨e | a, t⟩ := x <;> exact hx

/-- A method of which nothing need be known. -/
theorem obeys_session_any {α : Type} (m : Auth.Service α) (L : Log Op.Ret) :
    Obeys SavesRead (session m) Anyhow Anyhow () L :=
  obeys_session (Obeys.of_forall (fun _ _ _ => trivial) (fun _ _ _ _ => trivial)
    (fun _ _ _ _ => trivial) m)

/-- A ban saves the row that it has read. -/
theorem obeys_banUser (userId : Uuid) : Obeys SavesRead (banUser userId) Anyhow Anyhow () [] := by
  have hfind : Obeys SavesRead (session (query (.findUserById userId)))
      (fun found _ L => ⟨.session (.db (.findUserById userId)), .ok found⟩ ∈ L) Anyhow () [] := by
    refine ⟨⟨trivial, fun r => ?_⟩⟩
    cases r with
    | error e => trivial
    | ok found => exact List.mem_cons_self
  refine Obeys.bind (Obeys.bind (hfind.mono (fun found _ L hfound => ?_) fun _ _ _ _ => trivial))
  refine Obeys.bind (Obeys.valueOr (fun user huser => ?_) fun _ => trivial)
  subst huser
  refine Obeys.call ⟨userId, user, hfound, rfl, rfl⟩ fun r => ?_
  cases r with
  | error e => trivial
  | ok saved => exact Obeys.bind (Obeys.call trivial fun _ => Obeys.pure trivial)

/-- **Every call follows the discipline.** -/
theorem follows_savesRead (cfg : Config) (c : Call) :
    Follows SavesRead (Returned c) ((system cfg).body c) [] := by
  suffices h : Obeys SavesRead c.body (fun reply _ L => Returned c (.ok reply) L)
      (fun e _ L => Returned c (.error e) L) () [] by
    refine h.follows.bind fun x L hx => ?_
    obtain ⟨e | reply, t⟩ := x <;> exact hx
  cases c with
  | validate payload =>
    exact Obeys.bind ((obeys_session (obeys_validate payload)).mono
      (fun user _ L hjudged => Obeys.pure hjudged) fun e _ L hjudged => hjudged)
  | incrementTokenVersion userId =>
    exact Obeys.bind ((obeys_session_any _ _).mono (fun _ _ _ _ => Obeys.pure trivial) fun _ _ _ _ => trivial)
  | revokeAllSessions userId =>
    exact Obeys.bind ((obeys_session_any _ _).mono (fun _ _ _ _ => Obeys.pure trivial) fun _ _ _ _ => trivial)
  | banUser userId =>
    exact Obeys.bind ((obeys_banUser userId).mono (fun _ _ _ _ => Obeys.pure trivial) fun _ _ _ _ => trivial)

end Calls

/-! ### Users keep their wallets -/

/-- The users are those of `w₀`, with the same wallets. -/
def SameWallets (w₀ w : World) : Prop :=
  ∀ i, (w.users.row i).map User.walletAddress = (w₀.users.row i).map User.walletAddress

section Operations

variable {cfg} {pid : ℕ} {o : Op} {choice : Choice} {r : o.Ret} {w₀ w w' : World}

theorem sameWallets_put (hw : SameWallets w₀ w) {user : User}
    (hread : (w₀.users.row user.id).map User.walletAddress = some user.walletAddress) :
    SameWallets w₀ { w with users := w.users.put user } := by
  intro i
  have hrow : (w.users.put user).row i = if i = user.id then some user else w.users.row i :=
    Table.row_put _ _ _
  rw [hrow]
  split
  next hi =>
    rw [hi, hread]
    rfl
  next => exact hw i

/-- **Every operation** leaves the wallets as they are, if a row that is saved is one of theirs. -/
theorem sameWallets_of_exec (hw : SameWallets w₀ w) (hexec : exec cfg o pid choice w = some (r, w'))
    (hsave : ∀ user, o = .saveUser user →
      (w₀.users.row user.id).map User.walletAddress = some user.walletAddress) :
    SameWallets w₀ w' := by
  cases o with
  | session o =>
    have hsession : Auth.exec cfg o pid choice w = some (r, w') := hexec
    rcases users_of_exec hsession with hsame | ⟨id, x, -, rfl⟩
    · intro i
      rw [hsame]
      exact hw i
    · intro i
      rw [← hw i]
      change ((w.users.modify _ _).row i).map User.walletAddress = _
      rw [Table.row_modify, Option.map_map]
      refine congrFun (congrArg Option.map (funext fun u => ?_)) _
      simp only [Function.comp_apply]
      split
      · cases x <;> rfl
      · rfl
  | saveUser user =>
    cases choice with
    | done | lost msg =>
      cases hexec
      exact sameWallets_put hw (hsave user rfl)
    | fails msg =>
      cases hexec
      exact hw
    | _ => cases hexec

/-- Where an entry of the cache comes from: it was there, or it is stored now. -/
theorem entry_of_exec (hexec : exec cfg o pid choice w = some (r, w')) {userId : Uuid}
    {entry : ℤ × ℤ} (hentry : w'.versions userId = some entry) :
    w.versions userId = some entry ∨
      (∃ version, o = .session (.setVersion userId version) ∧ entry.1 = version) ∧
        w'.users = w.users := by
  cases o with
  | session o =>
    have hsession : Auth.exec cfg o pid choice w = some (r, w') := hexec
    by_cases hwrites : o.writesVersion = false
    · rcases (cache_of_exec hwrites hsession).2 userId with hkept | hgone
      · exact .inl (hkept ▸ hentry)
      · exact absurd (hgone.symm.trans hentry) nofun
    · cases o with
      | db q =>
        have hversions : w'.versions = w.versions := by
          rcases exec_db hsession with ⟨rfl, -⟩ | ⟨rfl, -⟩
          · exact (eval_outside q w).1
          · rfl
        exact .inl (hversions ▸ hentry)
      | setVersion userId' version =>
        cases choice with
        | time t =>
          obtain ⟨-, hset⟩ := Option.ite_none_right_eq_some.mp hsession
          cases hset
          by_cases hsame : userId = userId'
          · subst hsame
            have hstored : some (version, t + 30000) = some entry := by
              rw [← hentry]
              exact (Function.update_self userId _ w.versions).symm
            obtain rfl := Option.some.inj hstored
            exact .inr ⟨⟨version, rfl, rfl⟩, rfl⟩
          · exact .inl ((Function.update_of_ne hsame ..).symm.trans hentry)
        | fails msg =>
          cases hsession
          exact .inl hentry
        | _ => cases hsession
      | _ => exact absurd rfl hwrites
  | saveUser user =>
    cases choice with
    | done | lost msg | fails msg =>
      cases hexec
      exact .inl hentry
    | _ => cases hexec

/-- The user whom the wallet finds. -/
theorem SameWallets.found (hw : SameWallets w₀ w) (hd : DistinctWallets w₀.users) {payload : Payload}
    (hissued : (w₀.users.row payload.userId).map User.walletAddress = some payload.sub) :
    ∃ user, w.users.find? (·.walletAddress = payload.sub) = some user ∧
      versionOf w payload.userId = some user.tokenVersion := by
  obtain ⟨holder, hholder, hwallet⟩ := Option.map_eq_some_iff.mp ((hw payload.userId).trans hissued)
  cases hfound : w.users.find? (·.walletAddress = payload.sub) with
  | none =>
    have hid : Entity.id holder = payload.userId := w.users.id_of_row hholder
    have hmem : holder ∈ w.users.rows := (Table.mem_rows _).mpr (hid ▸ hholder)
    exact absurd (decide_eq_true hwallet) (List.find?_eq_none.mp hfound holder hmem)
  | some user =>
    obtain ⟨hrow, hsub⟩ := Table.of_find?_eq_some hfound
    have hsame : (w₀.users.row user.id).map User.walletAddress = some payload.sub := by
      rw [← hw user.id]
      exact Option.map_eq_some_iff.mpr ⟨user, hrow, of_decide_eq_true hsub⟩
    obtain ⟨a, ha, hawallet⟩ := Option.map_eq_some_iff.mp hsame
    obtain ⟨b, hb, hbwallet⟩ := Option.map_eq_some_iff.mp hissued
    have hid : user.id = payload.userId := hd ha hb (hawallet.trans hbwallet.symm)
    exact ⟨user, rfl, Option.map_eq_some_iff.mpr ⟨user, hid ▸ hrow, rfl⟩⟩

end Operations

/-! ### Runs -/

/-- **The users of a run** that began in `w₀` keep their wallets, in every world so far; what has been
read of them, and the payloads that are validated, agree with that. -/
structure Framed (w₀ : World) (h : History) : Prop where
  now : SameWallets w₀ h.world
  past : ∀ pid o r before, .did pid o r before ∈ h.trace → SameWallets w₀ before
  read : ∀ pid userId user, ⟨.session (.db (.findUserById userId)), .ok (some user)⟩ ∈ log pid h.trace →
    (w₀.users.row user.id).map User.walletAddress = some user.walletAddress
  issued : ∀ pid payload, Event.start pid (.validate payload) ∈ h.trace →
    (w₀.users.row payload.userId).map User.walletAddress = some payload.sub

/-- **The cache of a run**: an entry that is up to date has the version of the row; and a validation
of the current version was answered that version. -/
structure Fresh (h : History) : Prop where
  entry : ∀ userId entry, h.world.versions userId = some entry →
    upToDate userId (some entry) (versionOf h.world userId) h.trace = true →
      versionOf h.world userId = some entry.1
  current : ∀ pid payload (cached : ℤ) w, Event.start pid (.validate payload) ∈ h.trace →
    .did pid (.session (.getVersion payload.userId)) (some cached : Option ℤ) w ∈ h.trace →
      versionOf w payload.userId = some payload.tokenVersion → cached = payload.tokenVersion

section Runs

variable {cfg} {w₀ : World} {h h' : History}

/-- What a query for a user by its key has returned. -/
theorem read_of_exec {pid : ℕ} {choice : Choice} {w w' : World} {userId : Uuid} {user : User}
    (hexec : exec cfg (.session (.db (.findUserById userId))) pid choice w =
      some (.ok (some user), w')) : w.users.row user.id = some user := by
  have hsession : Auth.exec cfg (.db (.findUserById userId)) pid choice w =
    some (.ok (some user), w') := hexec
  cases choice with
  | done =>
    obtain ⟨hreply, -⟩ := Prod.mk.inj (Option.some.inj hsession)
    have hrow : w.users.row userId = some user := Except.ok.inj hreply
    have hid : user.id = userId := w.users.id_of_row hrow
    exact hid ▸ hrow
  | _ => cases hsession

/-- **One step** keeps the wallets. -/
theorem Framed.step (hf : Framed w₀ h) (hs : HistStep (system cfg) (fun _ => SavesRead) h h')
    (hok : validatesIssued h h' = true) : Framed w₀ h' := by
  have hread : ∀ pid userId user,
      ⟨.session (.db (.findUserById userId)), .ok (some user)⟩ ∈ log pid h'.trace →
        (w₀.users.row user.id).map User.walletAddress = some user.walletAddress := by
    intro pid userId user hmem
    rcases hs.mem_log hmem with hold | ⟨choice, hexec⟩
    · exact hf.read pid userId user hold
    · rw [← hf.now user.id, read_of_exec hexec]
      rfl
  cases hs with
  | idle e he hlive =>
    refine ⟨hf.now, fun pid o r before hmem => ?_, hread, fun pid payload hstart => ?_⟩
    · rcases List.mem_cons.mp hmem with rfl | hold
      · exact absurd ((log_did_self ..).symm.trans (he pid h.trace)) (List.cons_ne_self _ _)
      · exact hf.past pid o r before hold
    · rcases List.mem_cons.mp hstart with rfl | hold
      · have hissued : issuedTo h.world payload = true := hok
        obtain ⟨user, huser, hwallet⟩ := System.exists_of_any hissued
        rw [← hf.now payload.userId, huser]
        exact congrArg some (of_decide_eq_true hwallet)
      · exact hf.issued pid payload hold
  | did pid c o choice r w hstart hD hexec hlive =>
    refine ⟨sameWallets_of_exec hf.now hexec fun user ho => ?_, fun pid' o' r' before hmem => ?_, hread,
      fun pid' payload hmem => ?_⟩
    · subst ho
      obtain ⟨userId, read, hmem, hid, hwallet⟩ := hD
      rw [hid, hwallet]
      exact hf.read pid userId read hmem
    · rcases List.mem_cons.mp hmem with heq | hold
      · cases heq
        exact hf.now
      · exact hf.past pid' o' r' before hold
    · exact hf.issued pid' payload (by simpa using hmem)

/-- The look-up of a call whose token is current finds an entry that is up to date. -/
theorem upToDate_of_findsUpToDate {pid : ℕ} {userId : Uuid} {cached : ℤ} {w : World}
    {payload : Payload} (hstart : Event.start pid (.validate payload) ∈ h.trace)
    (hok : findsUpToDate h (h.push (.did pid (.session (.getVersion userId)) (some cached : Option ℤ)
      h.world) w) = true)
    (hcurrent : versionOf h.world userId = some payload.tokenVersion) :
    upToDate userId (h.world.versions userId) (versionOf h.world userId) h.trace = true := by
  have hall := List.all_eq_true.mp hok _ hstart
  simpa [hcurrent] using hall

/-- **One step** keeps the cache fresh. -/
theorem Fresh.step (hf : Fresh h) (hd : Disciplined (fun _ => SavesRead) Returned h)
    (hd' : Disciplined (fun _ => SavesRead) Returned h')
    (hs : HistStep (system cfg) (fun _ => SavesRead) h h') (hok : findsUpToDate h h' = true) :
    Fresh h' := by
  -- a call that has performed something had started before
  have hstarted : ∀ pid payload o r w, Event.start pid (.validate payload) ∈ h'.trace →
      .did pid o r w ∈ h.trace → Event.start pid (.validate payload) ∈ h.trace := by
    intro pid payload o r w hstart hmem
    obtain ⟨c, hc⟩ := hd.start_mem _ hmem
    have hc' : Event.start pid c ∈ h'.trace := by
      cases hs with
      | idle e he hlive => exact List.mem_cons_of_mem _ hc
      | did pid c o choice r w hstart hD hexec hlive => exact List.mem_cons_of_mem _ hc
    rw [hd'.start_unique pid _ _ hstart hc']
    exact hc
  cases hs with
  | idle e he hlive =>
    have hsame : ∀ userId entry version,
        upToDate userId entry version (e :: h.trace) = upToDate userId entry version h.trace := by
      intro userId entry version
      cases e with
      | did pid o r w =>
        exact absurd ((log_did_self ..).symm.trans (he pid h.trace)) (List.cons_ne_self _ _)
      | _ => rfl
    refine ⟨fun userId entry hentry hdate => hf.entry userId entry hentry (hsame _ _ _ ▸ hdate),
      fun pid payload cached w hstart hmem => ?_⟩
    rcases List.mem_cons.mp hmem with rfl | hold
    · exact absurd ((log_did_self ..).symm.trans (he pid h.trace)) (List.cons_ne_self _ _)
    · exact hf.current pid payload cached w (hstarted _ _ _ _ _ hstart hold) hold
  | did pid c o choice r w hstart hD hexec hlive =>
    refine ⟨fun userId entry hentry hdate => ?_, fun pid' payload cached before hstart' hmem hcurrent => ?_⟩
    · simp only [Hist.push_trace, Hist.push_world, upToDate, Bool.and_eq_true, decide_eq_true_eq] at hdate
      obtain ⟨hkept, hrest⟩ := hdate
      rw [Hist.push_world, ← hkept]
      by_cases hsame : h.world.versions userId = some entry
      · rw [if_pos hsame, ← hkept] at hrest
        exact hf.entry userId entry hsame hrest
      · rw [if_neg hsame] at hrest
        rcases entry_of_exec hexec hentry with hold | ⟨⟨version, rfl, hversion⟩, -⟩
        · exact absurd hold hsame
        · rw [hkept, hversion]
          exact (of_decide_eq_true hrest).symm
    · replace hstart' : Event.start pid' (.validate payload) ∈ h.trace := by simpa using hstart'
      rcases List.mem_cons.mp hmem with heq | hold
      · cases heq
        have hfresh := upToDate_of_findsUpToDate hstart' hok hcurrent
        have hsession : Auth.exec cfg (.getVersion payload.userId) pid choice h.world =
          some ((some cached : Option ℤ), w) := hexec
        obtain ⟨-, hnone | ⟨t, -, hat⟩⟩ := version_of_exec hsession
        · cases hnone
        · obtain ⟨entry, hentry, hlive⟩ := Option.bind_eq_some_iff.mp hat.symm
          obtain ⟨-, hcached⟩ := Option.ite_none_right_eq_some.mp hlive
          have hversion := hf.entry _ entry hentry (hentry ▸ hfresh)
          rw [hcurrent, Option.some.inj hcached] at hversion
          exact (Option.some.inj hversion).symm
      · exact hf.current pid' payload cached before hstart' hold hcurrent

/-- **The verdict** of a validation is right at the moment at which it has looked. -/
theorem verdict_of_judged (hp : Performed (system cfg) h) (hf : Framed w₀ h) (hfresh : Fresh h)
    (hw : DistinctWallets w₀.users) {pid : ℕ} {payload : Payload} {a : Except Exc Reply}
    (hstart : Event.start pid (.validate payload) ∈ h.trace)
    (hreturned : Returned (.validate payload) a (log pid h.trace)) (hverdict : Accepts a ∨ Rejects a) :
    ∃ w, Moment h pid w ∧ (Accepts a ↔ versionOf w payload.userId = some payload.tokenVersion) := by
  -- what a search for the user has found
  have hsearch : ∀ r : Except Exc (Option User),
      ⟨.db (.findUserByWalletAddress payload.sub), r⟩ ∈ (log pid h.trace).filterMap sessionEntry →
        ∃ w user, Moment h pid w ∧ versionOf w payload.userId = some user.tokenVersion ∧
          (r = .ok (some user) ∨ ∃ msg, r = .error (.error msg)) := by
    intro r hmem
    obtain ⟨w, he⟩ := mem_log.mp (mem_sessionEntry.mp hmem)
    obtain ⟨choice, after, hexec⟩ := hp.exec he
    have hsession : Auth.exec cfg (.db (.findUserByWalletAddress payload.sub)) pid choice w =
      some (r, after) := hexec
    obtain ⟨user, hfound, hversion⟩ := (hf.past _ _ _ _ he).found hw (hf.issued pid payload hstart)
    refine ⟨w, user, hp.moment he, hversion, ?_⟩
    rw [← hfound]
    exact found_of_exec hsession
  cases a with
  | ok reply =>
    obtain ⟨user', heq⟩ : Accepts (.ok reply) := hverdict.resolve_right (by rintro ⟨message, h⟩; cases h)
    obtain rfl := Except.ok.inj heq
    obtain ⟨user, hmem, heq'⟩ := hreturned
    obtain ⟨w, user', hmoment, hversion, hsame | ⟨msg, hfailed⟩⟩ := hsearch _ hmem
    · cases hsame
      refine ⟨w, hmoment, iff_of_true ⟨_, rfl⟩ ?_⟩
      rw [hversion, heq']
    · cases hfailed
  | error e =>
    have hnot : ¬ Accepts (.error e) := by rintro ⟨user, h⟩; cases h
    obtain ⟨message, heq⟩ : Rejects (.error e) := hverdict.resolve_left hnot
    obtain rfl := Except.error.inj heq
    rcases hreturned with hfailed | ⟨cached, hmem, hne⟩ | ⟨found, hmem, hne⟩
    · obtain ⟨w, user, -, -, hsame | ⟨msg, hmsg⟩⟩ := hsearch _ hfailed
      · cases hsame
      · cases hmsg
    · obtain ⟨w, he⟩ := mem_log.mp (mem_sessionEntry.mp hmem)
      exact ⟨w, hp.moment he, iff_of_false hnot fun hversion =>
        hne (hfresh.current pid payload cached w hstart he hversion)⟩
    · obtain ⟨w, user, hmoment, hversion, hsame | ⟨msg, hmsg⟩⟩ := hsearch _ hmem
      · refine ⟨w, hmoment, iff_of_false hnot fun hcurrent => ?_⟩
        rw [hversion] at hcurrent
        exact hne user (Except.ok.inj hsame) (Option.some.inj hcurrent).symm
      · cases hmsg

/-- **The cache changes nothing but cost** in every run whose look-ups find entries that are up to
date: whatever validations and changes of the version overlap, and whenever entries expire. -/
theorem costOnly_of_findsUpToDate (cfg : Config) (w₀ : World) (hw : DistinctWallets w₀.users)
    (hcache : Coherent w₀) (s : State Op.Ret World Call (Except Exc Reply))
    (hs : (system cfg).ReachableWhen
      (fun h h' => validatesIssued h h' = true ∧ findsUpToDate h h' = true) (.init w₀) s) :
    CostOnly s.hist := by
  have hdisc := disciplined_of_reachable (follows_savesRead cfg) hs
  have hp := performed_of_reachable hs
  obtain ⟨hf, hfresh⟩ := hist_invariant (follows_savesRead cfg) (I := fun h => Framed w₀ h ∧ Fresh h)
    ⟨⟨fun _ => rfl, by simp, by simp [log], by simp⟩, ⟨fun userId entry hentry _ => hcache userId entry hentry,
      by simp⟩⟩
    (fun h h' hd hd' hI hk hok => ⟨hI.1.step hk hok.1, hI.2.step hd hd' hk hok.2⟩) hs
  refine ⟨fun pid payload a es htrace hstart hverdict => ?_, hfresh.current⟩
  have hmem : Event.start pid (.validate payload) ∈ s.hist.trace :=
    htrace ▸ List.mem_cons_of_mem _ hstart
  have hreturned : Event.returned pid a ∈ s.hist.trace := htrace ▸ List.mem_cons_self
  exact verdict_of_judged hp hf hfresh hw hmem (hdisc.returned pid _ a hmem hreturned) hverdict

end Runs

namespace Sample

/-- The user and no sessions, with nothing cached. -/
def world : World where
  users := Table.empty.put Auth.Sample.user

theorem distinctWallets_world : DistinctWallets world.users := by
  have hrow : ∀ i a, world.users.row i = some a → i = 0 := by
    intro i a ha
    by_contra hi
    exact absurd (ha.symm.trans (Table.row_put_of_ne Table.empty hi)) nofun
  exact fun i j a b ha hb _ => (hrow i a ha).trans (hrow j b hb).symm

theorem coherent_world : Coherent world := fun userId entry hentry => by cases hentry

/-- A validation up to the search for the user. -/
def looking (pid : ℕ) (version now : ℤ) : List (Move Choice Call) :=
  [.start (.validate (Auth.Sample.payload version)), .run pid (.time now), .run pid .done]

/-- Its end. -/
def storing (pid : ℕ) (now : ℤ) : List (Move Choice Call) := [.run pid (.time now), .finish pid]

/-- The version is counted up. -/
def counting (pid : ℕ) : List (Move Choice Call) :=
  [.start (.incrementTokenVersion 0), .run pid .done, .run pid .done, .run pid .done, .finish pid]

/-- The call validates a token of version 1. -/
def validatesOne (pid : ℕ) : Event Op.Ret World Call (Except Exc Reply) → Bool
  | .start p (.validate payload') => p = pid ∧ payload' = Auth.Sample.payload 1
  | _ => false

/-- The call is answered version 0 while the version is 1. -/
def answeredZero (pid : ℕ) : Event Op.Ret World Call (Except Exc Reply) → Bool
  | .did p (.session (.getVersion 0)) (cached : Option ℤ) w =>
      p = pid ∧ cached = some 0 ∧ versionOf w 0 = some 1
  | _ => false

/-- The call has accepted. -/
def accepted (pid : ℕ) : Event Op.Ret World Call (Except Exc Reply) → Bool
  | .returned p (.ok (.principal _)) => p = pid
  | _ => false

end Sample

/-- A token is accepted, the version is counted up, and a token of the new version is accepted. -/
theorem costOnly_of_findsUpToDate_sample : ∃ s : State Op.Ret World Call (Except Exc Reply),
    s.hist.trace.any (Sample.accepted 0) = true ∧ s.hist.trace.any (Sample.accepted 2) = true ∧
      CostOnly s.hist := by
  obtain ⟨s, hs, hdone⟩ := System.exists_of_replay (system Sample.config)
    (fun h h' => validatesIssued h h' = true ∧ findsUpToDate h h' = true) (.init Sample.world)
    (Sample.looking 0 0 1000 ++ Sample.storing 0 1000 ++ Sample.counting 1 ++ Sample.looking 2 1 2000 ++
      Sample.storing 2 2000)
    (fun s => s.hist.trace.any (Sample.accepted 0) && s.hist.trace.any (Sample.accepted 2))
    (by decide +kernel)
  obtain ⟨hfirst, hsecond⟩ := Bool.and_eq_true_iff.mp hdone
  exact ⟨s, hfirst, hsecond, costOnly_of_findsUpToDate Sample.config Sample.world
    Sample.distinctWallets_world Sample.coherent_world s hs⟩

/-- A validation stores the version that it has read before a change, after the invalidation; the
next token is rejected. -/
theorem not_costOnly : ¬ ∀ (cfg : Config) (w₀ : World), DistinctWallets w₀.users → Coherent w₀ →
    ∀ s, (system cfg).ReachableWhen (fun h h' => validatesIssued h h' = true) (.init w₀) s →
      CostOnly s.hist := by
  intro hall
  obtain ⟨s, hs, hdone⟩ := System.exists_of_replay (system Sample.config)
    (fun h h' => validatesIssued h h' = true) (.init Sample.world)
    (Sample.looking 0 0 1000 ++ Sample.counting 1 ++ Sample.storing 0 1000 ++
      [.start (.validate (Sample.payload 1)), .run 2 (.time 2000), .finish 2])
    (fun s => s.hist.trace.any (Sample.validatesOne 2) && s.hist.trace.any (Sample.answeredZero 2))
    (by decide +kernel)
  obtain ⟨hvalidates, hanswered⟩ := Bool.and_eq_true_iff.mp hdone
  obtain ⟨e, he, hstart⟩ := List.any_eq_true.mp hvalidates
  obtain ⟨e', he', hdid⟩ := List.any_eq_true.mp hanswered
  unfold Sample.validatesOne at hstart
  unfold Sample.answeredZero at hdid
  split at hstart
  next p payload' =>
    obtain ⟨rfl, rfl⟩ := of_decide_eq_true hstart
    split at hdid
    next p' cached w =>
      obtain ⟨rfl, rfl, hversion⟩ := of_decide_eq_true hdid
      have hcost := hall _ _ Sample.distinctWallets_world Sample.coherent_world s hs
      exact absurd (hcost.current 2 _ 0 w he he' hversion) (by decide)
    next => cases hdid
  next => cases hstart

end Ahjoor.Auth.Versions
