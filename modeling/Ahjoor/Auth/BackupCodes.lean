import Ahjoor.Auth.TwoFactorService
import Mathlib.Data.List.Count
import Mathlib.Data.List.Perm.Subperm

/-!
# Backup codes are used once

As long as each request that writes the list back still finds the list that it has read, writing
takes one code off the stored list: the code that the request presents. So the codes that have been
taken off and the codes that are left make up the issued ones.
-/

namespace Ahjoor.TwoFactor

open Async Store

variable (cfg : Config)

/-! ### What a request has done -/

/-- A request writes the list that it has read, without the code that it presents. -/
def May (c : Login) (L : Log Op.Ret) : Op → Prop
  | .update2FA userId codes => ∃ (payload : PreAuthPayload) (user : User) (secret : String),
      L = [⟨.verifyToken c.token secret, false⟩, ⟨.findById2FA payload.sub, .ok (some user)⟩,
        ⟨.verifyPreAuthToken c.preAuthToken, .ok payload⟩] ∧
      userId = user.id ∧ cfg.sha256 c.token ∈ user.backupCodes.getD [] ∧
      codes = (user.backupCodes.getD []).erase (cfg.sha256 c.token)
  | _ => True

theorem obeys_completeTwoFactorLogin (c : Login) :
    Obeys (May cfg c) (completeTwoFactorLogin cfg c.preAuthToken c.token) Anyhow Anyhow () [] := by
  refine .bind (.call trivial fun r => ?_)
  cases r with
  | error e => exact trivial
  | ok payload =>
  refine .bind (.call trivial fun r => ?_)
  cases r with
  | error e => exact trivial
  | ok found =>
  refine .bind (.valueOr (fun user hfound => ?_) fun _ => trivial)
  subst hfound
  refine .bind (.valueOr (fun secret _ => ?_) fun _ => trivial)
  refine .bind (.call trivial fun valid => ?_)
  change Obeys _ (if valid = true then _ else _) _ _ _ _
  split
  · exact .pure trivial
  rename_i hvalid
  obtain rfl : valid = false := eq_false_of_ne_true hvalid
  change Obeys _ (if _ then _ else _) _ _ _ _
  split
  · exact .throw trivial
  · rename_i hindex
    have hmem : cfg.sha256 c.token ∈ user.backupCodes.getD [] := by
      by_contra hnot
      exact hindex (List.idxOf_eq_length hnot)
    refine .bind (.call ⟨payload, user, secret, rfl, rfl, hmem, ?_⟩ fun r => ?_)
    · exact List.eraseIdx_idxOf_eq_erase _ _
    · cases r with
      | error e => exact trivial
      | ok u => exact .pure trivial

theorem follows_body (c : Login) :
    Follows (May cfg c) (fun _ _ => True) ((system cfg).body c) [] :=
  (obeys_completeTwoFactorLogin cfg c).follows.bind fun _ _ _ => trivial

/-- The token that a request presents. -/
def tokenOf (pid : ℕ) (es : Events) : Option String :=
  es.findSome? fun e =>
    match e with
    | .start p c => if p = pid then some c.token else none
    | _ => none

/-- The request that an event shows to have used up a code. -/
def consumer (userId : Uuid) (hashed : String) (es : Events) :
    Event Op.Ret World Login (Except Exc Uuid) → Option ℕ
  | .did pid (.update2FA u _) (.ok _) _ =>
      if u = userId ∧ (tokenOf pid es).map cfg.sha256 = some hashed then some pid else none
  | _ => none

/-- The requests that are known to have used up a code. -/
def consumers (userId : Uuid) (hashed : String) : Events → List ℕ
  | [] => []
  | e :: es => (consumer cfg userId hashed es e).toList ++ consumers userId hashed es

/-- **The balance of codes**: those used up and those left make up the issued ones. -/
structure Balanced (w₀ : World) (h : History) : Prop where
  spent : ∀ userId hashed, (consumers cfg userId hashed h.trace).length +
    (h.world.codes userId).count hashed ≤ (w₀.codes userId).count hashed
  kept : ∀ userId hashed, (∀ code pid, cfg.sha256 code = hashed → ¬ Presents h userId code pid) →
    (h.world.codes userId).count hashed = (w₀.codes userId).count hashed
  found : ∀ pid userId user, ⟨.findById2FA userId, .ok (some user)⟩ ∈ log pid h.trace →
    user.id = userId
  accounted : ∀ pid c userId codes, Event.start pid c ∈ h.trace →
    ⟨.update2FA userId codes, .ok ()⟩ ∈ log pid h.trace →
      pid ∈ consumers cfg userId (cfg.sha256 c.token) h.trace

section Rows

variable {w : World} {userId userId' : Uuid} {codes : List String}

theorem codes_setCodes_self (h : w.codes userId ≠ []) :
    (w.setCodes userId codes).codes userId = codes := by
  cases hrow : w.users.row userId with
  | none =>
    rw [World.codes, hrow] at h
    exact absurd rfl h
  | some user =>
    have hid : user.id = userId := w.users.id_of_row hrow
    simp [World.codes, World.setCodes, Table.row_modify, hrow, hid, Entity.withId]

theorem codes_setCodes_of_ne (h : userId' ≠ userId) :
    (w.setCodes userId codes).codes userId' = w.codes userId' := by
  cases hrow : w.users.row userId' with
  | none => simp [World.codes, World.setCodes, Table.row_modify, hrow]
  | some user =>
    have hid : user.id = userId' := w.users.id_of_row hrow
    simp [World.codes, World.setCodes, Table.row_modify, hrow, hid, h]

end Rows

/-! ### The balance is kept -/

section Steps

variable {cfg} {w₀ : World} {h : History}

theorem Presents.push {userId : Uuid} {code : String} {pid : ℕ}
    {e : Event Op.Ret World Login (Except Exc Uuid)} {w : World}
    (hp : Presents h userId code pid) : Presents (h.push e w) userId code pid := by
  obtain ⟨preAuthToken, payload, hstart, hverified, hsub⟩ := hp
  obtain ⟨before, hdid⟩ := mem_log.mp hverified
  exact ⟨preAuthToken, payload, List.mem_cons_of_mem _ hstart,
    mem_log.mpr ⟨before, List.mem_cons_of_mem _ hdid⟩, hsub⟩

/-- The token of a request that has started. -/
theorem tokenOf_of_start {es : Events} {pid : ℕ} {c : Login}
    (hunique : ∀ c', Event.start pid c' ∈ es → c' = c) (hstart : Event.start pid c ∈ es) :
    tokenOf pid es = some c.token := by
  have hsome : (tokenOf pid es).isSome := by
    rw [tokenOf, List.findSome?_isSome_iff]
    exact ⟨_, hstart, by simp⟩
  obtain ⟨token, htoken⟩ := Option.isSome_iff_exists.mp hsome
  obtain ⟨e, he, hfound⟩ := List.exists_of_findSome?_eq_some htoken
  rw [htoken]
  cases e with
  | start p c' =>
    dsimp only at hfound
    split_ifs at hfound with hp
    subst hp
    rw [← hfound, hunique c' he]
  | did p o r w | returned p a | crashed p => cases hfound

/-- A read answers the row of the user. -/
theorem id_of_exec {userId : Uuid} {pid : ℕ} {choice : Choice} {w w' : World} {user : User}
    (hexec : exec cfg (.findById2FA userId) pid choice w = some (.ok (some user), w')) :
    user.id = userId := by
  cases choice with
  | done =>
    obtain ⟨hrow, -⟩ := Prod.mk.inj (Option.some.inj hexec)
    exact w.users.id_of_row (Except.ok.inj hrow)
  | fails message | replyLost message | totp valid => cases hexec

/-- What the balance says of a request does not depend on where its start is found. -/
theorem Balanced.accounted_of_log (hb : Balanced cfg w₀ h)
    {e : Event Op.Ret World Login (Except Exc Uuid)} {w : World}
    (hd : Disciplined (May cfg) (fun _ _ _ => True) h)
    (hd' : Disciplined (May cfg) (fun _ _ _ => True) (h.push e w)) {pid : ℕ} {c : Login}
    {userId : Uuid} {codes : List String} (hstart : Event.start pid c ∈ (h.push e w).trace)
    (hlog : ⟨.update2FA userId codes, .ok ()⟩ ∈ log pid h.trace) :
    pid ∈ consumers cfg userId (cfg.sha256 c.token) (h.push e w).trace := by
  obtain ⟨before, hdid⟩ := mem_log.mp hlog
  obtain ⟨c', hstart'⟩ := hd.start_mem _ hdid
  obtain rfl := hd'.start_unique pid c c' hstart (List.mem_cons_of_mem _ hstart')
  exact List.mem_append_right _ (hb.accounted pid c userId codes hstart' hlog)

/-- **A step that leaves the lists alone.** -/
theorem Balanced.quiet (hb : Balanced cfg w₀ h)
    {e : Event Op.Ret World Login (Except Exc Uuid)} {w : World}
    (hd : Disciplined (May cfg) (fun _ _ _ => True) h)
    (hd' : Disciplined (May cfg) (fun _ _ _ => True) (h.push e w))
    (hcodes : ∀ userId, w.codes userId = h.world.codes userId)
    (hnone : ∀ userId hashed, consumer cfg userId hashed h.trace e = none)
    (hupdate : ∀ pid userId codes, ⟨.update2FA userId codes, .ok ()⟩ ∈ log pid (e :: h.trace) →
      ⟨.update2FA userId codes, .ok ()⟩ ∈ log pid h.trace)
    (hfound : ∀ pid userId user, ⟨.findById2FA userId, .ok (some user)⟩ ∈ log pid (e :: h.trace) →
      user.id = userId) :
    Balanced cfg w₀ (h.push e w) := by
  refine ⟨fun userId hashed => ?_, fun userId hashed hnot => ?_, hfound,
    fun pid c userId codes hstart hlog => ?_⟩
  · rw [Hist.push_trace, Hist.push_world, consumers, hnone, hcodes]
    exact hb.spent userId hashed
  · rw [Hist.push_world, hcodes]
    exact hb.kept userId hashed fun code pid hcode hp => hnot code pid hcode hp.push
  · exact hb.accounted_of_log hd hd' hstart (hupdate pid userId codes hlog)

/-- **A list that is written back** has lost the code that is presented. -/
theorem Balanced.write (hb : Balanced cfg w₀ h) {pid : ℕ} {c : Login} {userId : Uuid}
    {codes : List String} {r : Except Exc Unit}
    (hd : Disciplined (May cfg) (fun _ _ _ => True) h)
    (hd' : Disciplined (May cfg) (fun _ _ _ => True)
      (h.push (.did pid (.update2FA userId codes) r h.world) (h.world.setCodes userId codes)))
    (hstart : Event.start pid c ∈ h.trace)
    (hpresents : Presents h userId c.token pid)
    (hmem : cfg.sha256 c.token ∈ h.world.codes userId)
    (hcodes : codes = (h.world.codes userId).erase (cfg.sha256 c.token)) :
    Balanced cfg w₀
      (h.push (.did pid (.update2FA userId codes) r h.world) (h.world.setCodes userId codes)) := by
  have htoken : tokenOf pid h.trace = some c.token :=
    tokenOf_of_start (fun c' hc' => hd.start_unique pid c' c hc' hstart) hstart
  have hself : (h.world.setCodes userId codes).codes userId =
      (h.world.codes userId).erase (cfg.sha256 c.token) :=
    (codes_setCodes_self (List.ne_nil_of_mem hmem)).trans hcodes
  refine ⟨fun userId' hashed => ?_, fun userId' hashed hnot => ?_, fun p u user hlog => ?_,
    fun p c' u codes' hstart' hlog => ?_⟩
  · have hspent := hb.spent userId' hashed
    rw [Hist.push_trace, Hist.push_world, consumers, List.length_append]
    obtain rfl | hne := eq_or_ne userId' userId
    · rw [hself]
      obtain rfl | hhash := eq_or_ne hashed (cfg.sha256 c.token)
      · have hpos : 0 < (h.world.codes userId').count (cfg.sha256 c.token) :=
          List.count_pos_iff.mpr hmem
        have hone : ((consumer cfg userId' (cfg.sha256 c.token) h.trace
            (.did pid (.update2FA userId' codes) r h.world)).toList).length ≤ 1 :=
          Option.length_toList_le
        rw [List.count_erase_self]
        omega
      · have hnone : consumer cfg userId' hashed h.trace
            (.did pid (.update2FA userId' codes) r h.world) = none := by
          cases r with
          | error e => rfl
          | ok u =>
            rw [consumer, if_neg]
            rintro ⟨-, hsome⟩
            rw [htoken] at hsome
            exact hhash (Option.some.inj hsome).symm
        rw [hnone, List.count_erase_of_ne hhash]
        simpa using hspent
    · have hnone : consumer cfg userId' hashed h.trace
          (.did pid (.update2FA userId codes) r h.world) = none := by
        cases r with
        | error e => rfl
        | ok u => rw [consumer, if_neg fun hboth => hne hboth.1.symm]
      rw [hnone, codes_setCodes_of_ne hne]
      simpa using hspent
  · have hkept := hb.kept userId' hashed fun code p hcode hp => hnot code p hcode hp.push
    rw [Hist.push_world]
    obtain rfl | hne := eq_or_ne userId' userId
    · have hhash : hashed ≠ cfg.sha256 c.token := fun heq =>
        hnot c.token pid heq.symm hpresents.push
      rw [hself, List.count_erase_of_ne hhash, hkept]
    · rw [codes_setCodes_of_ne hne, hkept]
  · obtain ⟨before, hdid⟩ := mem_log.mp hlog
    have hold := (List.mem_cons.mp hdid).resolve_left fun heq => by cases heq
    exact hb.found p u user (mem_log.mpr ⟨before, hold⟩)
  · obtain ⟨before, hdid⟩ := mem_log.mp hlog
    rcases List.mem_cons.mp hdid with heq | hold
    · cases heq
      obtain rfl := hd'.start_unique pid c' c hstart' (List.mem_cons_of_mem _ hstart)
      have hsome : consumer cfg userId (cfg.sha256 c'.token) h.trace
          (.did pid (.update2FA userId codes) (.ok ()) h.world) = some pid := by
        rw [consumer, if_pos ⟨rfl, by rw [htoken]; rfl⟩]
      rw [Hist.push_trace, consumers, hsome]
      exact List.mem_cons_self
    · exact hb.accounted_of_log hd hd' hstart' (mem_log.mpr ⟨before, hold⟩)

/-- What a step finds, or writes. -/
theorem Balanced.step (hb : Balanced cfg w₀ h) {h' : History}
    (hd : Disciplined (May cfg) (fun _ _ _ => True) h)
    (hd' : Disciplined (May cfg) (fun _ _ _ => True) h')
    (hs : HistStep (system cfg) (May cfg) h h') (hok : writesUnchanged h h' = true) :
    Balanced cfg w₀ h' := by
  cases hs with
  | idle e he hlive =>
    refine hb.quiet hd hd' (fun _ => rfl) (fun _ _ => ?_) (fun pid _ _ hlog => he pid _ ▸ hlog)
      fun pid userId user hlog => hb.found pid userId user (he pid _ ▸ hlog)
    cases e with
    | start p c | returned p a | crashed p => rfl
    | did p o r w =>
      have hlog := he p []
      rw [log_did_self] at hlog
      exact absurd hlog (List.cons_ne_nil _ _)
  | did pid c o choice r w hstart hD hexec hlive =>
    have hexec : exec cfg o pid choice h.world = some (r, w) := hexec
    -- the entry of a log that is not the one of this step
    have hold : ∀ p (o' : Op) (r' : o'.Ret), o' ≠ o →
        ⟨o', r'⟩ ∈ log p (.did pid o r h.world :: h.trace) → ⟨o', r'⟩ ∈ log p h.trace := by
      intro p o' r' hne hlog
      obtain ⟨before, hdid⟩ := mem_log.mp hlog
      refine mem_log.mpr ⟨before, (List.mem_cons.mp hdid).resolve_left fun heq => hne ?_⟩
      cases heq
      rfl
    cases o with
    | verifyPreAuthToken token =>
      have hworld : w = h.world := by
        cases choice <;> cases hexec <;> rfl
      subst hworld
      exact hb.quiet hd hd' (fun _ => rfl) (fun _ _ => rfl)
        (fun p _ _ hlog => hold p _ _ (by simp) hlog)
        fun p _ user hlog => hb.found p _ user (hold p _ _ (by simp) hlog)
    | verifyToken token secret =>
      have hworld : w = h.world := by
        cases choice <;> cases hexec
        rfl
      subst hworld
      exact hb.quiet hd hd' (fun _ => rfl) (fun _ _ => rfl)
        (fun p _ _ hlog => hold p _ _ (by simp) hlog)
        fun p _ user hlog => hb.found p _ user (hold p _ _ (by simp) hlog)
    | findById2FA userId =>
      have hworld : w = h.world := by
        cases choice <;> cases hexec <;> rfl
      subst hworld
      refine hb.quiet hd hd' (fun _ => rfl) (fun _ _ => rfl)
        (fun p _ _ hlog => hold p _ _ (by simp) hlog) fun p u user hlog => ?_
      obtain ⟨before, hdid⟩ := mem_log.mp hlog
      rcases List.mem_cons.mp hdid with heq | hmem
      · cases heq
        exact id_of_exec hexec
      · exact hb.found p u user (mem_log.mpr ⟨before, hmem⟩)
    | update2FA userId codes =>
      obtain ⟨payload, user, secret, hlog, rfl, hmem, rfl⟩ := hD
      have hread : user.backupCodes.getD [] = h.world.codes user.id := by
        simpa [writesUnchanged, hlog] using hok
      have hid : user.id = payload.sub := by
        refine hb.found pid payload.sub user ?_
        rw [hlog]
        simp
      have hpresents : Presents h user.id c.token pid := by
        refine ⟨c.preAuthToken, payload, hstart, ?_, hid.symm⟩
        rw [hlog]
        simp
      rw [hread] at hmem
      cases choice with
      | done | replyLost message =>
        cases hexec
        exact hb.write hd hd' hstart hpresents hmem (by rw [hread])
      | fails message =>
        cases hexec
        refine hb.quiet hd hd' (fun _ => rfl) (fun _ _ => rfl) (fun p u codes hlog => ?_)
          fun p _ user hlog => hb.found p _ user (hold p _ _ (by simp) hlog)
        obtain ⟨before, hdid⟩ := mem_log.mp hlog
        exact mem_log.mpr ⟨before, (List.mem_cons.mp hdid).resolve_left fun heq => by cases heq⟩
      | totp valid => cases hexec

theorem balanced_init (w₀ : World) : Balanced cfg w₀ ⟨w₀, []⟩ :=
  ⟨fun _ _ => by simp [consumers], fun _ _ _ => rfl, by simp [log], by simp⟩

end Steps

/-- **Backup codes log in at most once** in every run in which no request writes a list back that
another has changed since it was read. -/
theorem onceOnly_of_writesUnchanged (hinj : Function.Injective cfg.sha256) {w₀ : World}
    {s : State Op.Ret World Login (Except Exc Uuid)}
    (hs : (system cfg).ReachableWhen (fun h h' => writesUnchanged h h' = true) (.init w₀) s) :
    OnceOnly cfg w₀ s.hist := by
  have hb : Balanced cfg w₀ s.hist :=
    hist_invariant (follows_body cfg) (I := Balanced cfg w₀) (balanced_init w₀)
      (fun _ _ hd hd' hb hstep hok => hb.step hd hd' hstep hok) hs
  refine ⟨fun userId issued code pids hissued hnodup haccepted => ?_,
    fun userId issued code hissued hnot => ?_⟩
  · have hsub : pids ⊆ consumers cfg userId (cfg.sha256 code) s.hist.trace := by
      intro pid hpid
      obtain ⟨preAuthToken, codes, hstart, hlog, -⟩ := haccepted pid hpid
      exact hb.accounted pid _ userId codes hstart hlog
    have hle := (hnodup.subperm hsub).length_le
    have hspent := hb.spent userId (cfg.sha256 code)
    rw [hissued, List.count_map_of_injective _ _ hinj] at hspent
    omega
  · rw [hb.kept userId (cfg.sha256 code) fun code' pid heq => hinj heq ▸ hnot pid, hissued,
      List.count_map_of_injective _ _ hinj]

namespace Sample

/-! ### A user with two codes -/

/-- A digest that keeps the whole text, and one pre-auth token. -/
def config : Config where
  sha256 code := String.ofList ('#' :: code.toList)
  payload token := if token = "pre-auth" then some ⟨0, "ada@example.com", "user"⟩ else none

theorem injective_sha256 : Function.Injective config.sha256 := fun _ _ h =>
  String.toList_injective (List.cons.inj (String.ofList_injective h)).2

/-- The codes of the user. -/
def codes : List String := ["A1B2C3D4", "E5F60718"]

/-- The user. -/
def world : World where
  users := (Table.empty.insert
    { id := 0, twoFactorSecret := some "JBSWY3DPEHPK3PXP", twoFactorEnabled := true
      backupCodes := some (codes.map config.sha256) }).2

theorem codes_world : world.codes 0 = codes.map config.sha256 := by decide +kernel

/-- The request has been answered with success, after it has written the list. -/
def answered (h : History) (pid : ℕ) : Bool :=
  (log pid h.trace).any (fun e =>
    match e with
    | ⟨.update2FA u _, .ok ()⟩ => u = 0
    | _ => false) &&
  h.trace.any fun e =>
    match e with
    | .returned p (.ok u) => p = pid ∧ u = 0
    | _ => false

theorem accepted_of_answered {h : History} {pid : ℕ} {preAuthToken code : String}
    (hstart : Event.start pid ⟨preAuthToken, code⟩ ∈ h.trace) (hanswered : answered h pid) :
    Accepted h 0 code pid := by
  obtain ⟨hlog, hreturned⟩ := Bool.and_eq_true_iff.mp hanswered
  obtain ⟨⟨o, r⟩, hentry, hwrites⟩ := List.any_eq_true.mp hlog
  obtain ⟨e, he, hends⟩ := List.any_eq_true.mp hreturned
  cases o with
  | verifyPreAuthToken token | verifyToken token secret => cases hwrites
  | findById2FA userId => cases hwrites
  | update2FA userId codes =>
    cases r with
    | error e => cases hwrites
    | ok u =>
      obtain rfl := of_decide_eq_true hwrites
      cases e with
      | start p c | did p o r w | crashed p => cases hends
      | returned p a =>
        cases a with
        | error e => cases hends
        | ok u =>
          obtain ⟨rfl, rfl⟩ := of_decide_eq_true hends
          exact ⟨preAuthToken, codes, hstart, hentry, he⟩

/-- One code after the other. -/
def oneByOne : List (Move Choice Login) :=
  [.start ⟨"pre-auth", "A1B2C3D4"⟩, .run 0 .done, .run 0 .done, .run 0 (.totp false), .run 0 .done,
    .finish 0, .start ⟨"pre-auth", "E5F60718"⟩, .run 1 .done, .run 1 .done, .run 1 (.totp false),
    .run 1 .done, .finish 1]

theorem onceOnly_sample :
    ∃ s, (system config).ReachableWhen (fun h h' => writesUnchanged h h' = true) (.init world) s ∧
      (answered s.hist 0 && answered s.hist 1) = true ∧ OnceOnly config world s.hist := by
  obtain ⟨s, hs, hanswered⟩ := System.exists_of_replay (system config)
    (fun h h' => writesUnchanged h h' = true) (.init world) oneByOne
    (fun s => answered s.hist 0 && answered s.hist 1) (by decide +kernel)
  exact ⟨s, hs, hanswered, onceOnly_of_writesUnchanged config injective_sha256 hs⟩

/-- Two logins at once. -/
def atOnce : List (Move Choice Login) :=
  [.start ⟨"pre-auth", "A1B2C3D4"⟩, .start ⟨"pre-auth", "A1B2C3D4"⟩, .run 0 .done, .run 1 .done,
    .run 0 .done, .run 1 .done, .run 0 (.totp false), .run 1 (.totp false), .run 0 .done,
    .run 1 .done, .finish 0, .finish 1]

/-- **One code logs in twice.** -/
theorem not_onceOnly :
    ¬ ∀ s, (system config).Reachable (.init world) s → OnceOnly config world s.hist := by
  intro h
  obtain ⟨s, hs, htrace⟩ := System.exists_of_replay (system config) (fun _ _ => True) (.init world)
    atOnce (fun s => answered s.hist 0 && answered s.hist 1 && s.hist.trace.all fun e =>
      match e with
      | .start _ c => c = ⟨"pre-auth", "A1B2C3D4"⟩
      | _ => true) (by decide +kernel)
  simp only [Bool.and_eq_true, List.all_eq_true] at htrace
  obtain ⟨⟨hfirst, hsecond⟩, hstarts⟩ := htrace
  have hd := disciplined_of_reachable (follows_body config) hs
  have haccepted : ∀ pid, answered s.hist pid = true → Accepted s.hist 0 "A1B2C3D4" pid := by
    intro pid hanswered
    obtain ⟨e, he, hends⟩ := List.any_eq_true.mp (Bool.and_eq_true_iff.mp hanswered).2
    obtain ⟨c, hc⟩ := hd.start_mem e he
    have hlogin : c = ⟨"pre-auth", "A1B2C3D4"⟩ := of_decide_eq_true (hstarts _ hc)
    have hpid : e.pid = pid := by
      cases e with
      | start p c | did p o r w | crashed p => cases hends
      | returned p a =>
        cases a with
        | error e => cases hends
        | ok u => exact (of_decide_eq_true hends).1
    exact accepted_of_answered (hpid ▸ hlogin ▸ hc) hanswered
  have honce := (h s hs).once 0 codes "A1B2C3D4" [0, 1] codes_world (by decide) (by
    intro pid hpid
    rcases List.mem_cons.mp hpid with rfl | hpid
    · exact haccepted 0 hfirst
    · rw [List.mem_singleton.mp hpid]
      exact haccepted 1 hsecond)
  exact absurd honce (by decide)

end Sample

end Ahjoor.TwoFactor
