import Ahjoor.Members.GroupInviteService

/-!
# Applications

Who has an entry in the waitlist, whatever its status: those who had one at first, and those who
have joined since. An entry is only saved by a call that has read it, so that its key stays with
its user, and nobody ever has two: in every run the keys and the users of the waitlist are
distinct.
-/

namespace Ahjoor.Members

open Async

variable {missing : OnMissing} {d : Tables}

/-! ### Writes -/

/-- The keys of the waitlist with their users. -/
def Tables.applications (d : Tables) : List (Uuid × Uuid) := d.waitlist.map fun e => (e.id, e.userId)

/-- The write files no application, and the entry that it saves is a known one. -/
def Listed (known : List (Uuid × Uuid)) : Write → Prop
  | .insertEntry _ => False
  | .saveEntry entry => (entry.id, entry.userId) ∈ known
  | _ => True

variable (missing) in
theorem applications_write (hk : Keyed d) {x : Write} (hx : Listed d.applications x) :
    (d.write missing x).applications = d.applications := by
  cases x with
  | insertEntry entry => exact hx.elim
  | saveEntry entry =>
    obtain ⟨e₀, he₀, heq⟩ := List.mem_map.mp hx
    obtain ⟨hid, huser⟩ := Prod.mk.inj heq
    change (d.waitlist.map _).map _ = d.waitlist.map _
    rw [List.map_map]
    refine List.map_congr_left fun e he => ?_
    simp only [Function.comp_apply]
    split
    next hsame =>
      obtain rfl := hk.eq_of_id he he₀ (hsame.trans hid.symm)
      exact heq.symm
    next => rfl
  | closeGap position =>
    change (d.waitlist.map _).map _ = d.waitlist.map _
    rw [List.map_map]
    refine List.map_congr_left fun e _ => ?_
    simp only [Function.comp_apply]
    split <;> rfl
  | _ => rfl

theorem Listed.mono {known known' : List (Uuid × Uuid)} (h : known ⊆ known') {x : Write}
    (hx : Listed known x) : Listed known' x := by
  cases x with
  | insertEntry entry => exact hx
  | saveEntry entry => exact h hx
  | _ => trivial

variable (missing) in
theorem applications_view (hk : Keyed d) {xs : List Write} (hxs : ∀ x ∈ xs, Listed d.applications x) :
    (d.view missing xs).applications = d.applications := by
  induction xs generalizing d with
  | nil => rfl
  | cons x xs ih =>
    have hwrite := applications_write missing hk (hxs x List.mem_cons_self)
    refine (ih (hk.write x) fun y hy => ?_).trans hwrite
    exact (hxs y (List.mem_cons_of_mem _ hy)).mono fun a ha => hwrite ▸ ha

theorem mem_applications {e : WaitlistEntry} (he : e ∈ d.waitlist) :
    (e.id, e.userId) ∈ d.applications :=
  List.mem_map_of_mem he

theorem users_applications (d : Tables) : d.waitlist.map (·.userId) = d.applications.map Prod.snd := by
  rw [Tables.applications, List.map_map]
  rfl

/-! ### Operations -/

/-- One of the committed transactions has filed an application of the user. -/
def JoinedIn (log : List (List Write)) (userId : Uuid) : Prop :=
  ∃ xs ∈ log, ∃ entry, .insertEntry entry ∈ xs ∧ entry.userId = userId

/-- The write files an application of the user. -/
def Write.files (userId : Uuid) : Write → Bool
  | insertEntry entry => entry.userId = userId
  | _ => false

theorem files_eq_true {userId : Uuid} {x : Write} :
    x.files userId = true ↔ ∃ entry, x = .insertEntry entry ∧ entry.userId = userId := by
  cases x with
  | insertEntry entry => simp [Write.files]
  | _ => simp [Write.files]

instance (log : List (List Write)) (userId : Uuid) : Decidable (JoinedIn log userId) :=
  decidable_of_iff (∃ xs ∈ log, ∃ x ∈ xs, x.files userId = true) <| by
    simp only [JoinedIn, files_eq_true]
    constructor
    · rintro ⟨xs, hxs, x, hx, entry, rfl, huser⟩
      exact ⟨xs, hxs, entry, hx, huser⟩
    · rintro ⟨xs, hxs, entry, hentry, huser⟩
      exact ⟨xs, hxs, _, hentry, entry, rfl, huser⟩

/-- The applications are of distinct users under distinct keys, those of `d₀` and those in the log,
and the open transactions know of those that they save. -/
structure Filed (d₀ : Tables) (w : World) : Prop where
  keyed : Keyed w.tables
  users : (w.tables.applications.map Prod.snd).Nodup
  joined : ∀ userId, userId ∈ w.tables.applications.map Prod.snd ↔
    userId ∈ d₀.applications.map Prod.snd ∨ JoinedIn w.tables.log userId
  pending : ∀ p xs, w.pending p = some xs → ∀ x ∈ xs, Listed w.tables.applications x

/-- The operation files an application outside transactions only, and the entry that it saves is a
known one. -/
def Op.listed (known : List (Uuid × Uuid)) : Op → Prop
  | .db (.write (.insertEntry _)) => True
  | .db (.write x) | .tx (.write x) => Listed known x
  | _ => True

theorem Op.listed_mono {known known' : List (Uuid × Uuid)} (h : known ⊆ known') {o : Op}
    (ho : o.listed known) : o.listed known' := by
  cases o with
  | db q =>
    cases q with
    | write x =>
      cases x with
      | insertEntry entry => trivial
      | saveEntry entry => exact h ho
      | _ => trivial
    | _ => trivial
  | tx q =>
    cases q with
    | write x => exact Listed.mono h ho
    | _ => trivial
  | _ => trivial

/-- What an operation does to the applications: it adds to them. -/
structure Files (d₀ : Tables) (w w' : World) : Prop where
  filed : Filed d₀ w'
  applications : w.tables.applications ⊆ w'.tables.applications

section Operations

variable {d₀ : Tables} {pid : ℕ} {choice : Choice} {w w' : World} {xs : List Write}

theorem Filed.of_tables (hw : Filed d₀ w) (htables : w'.tables = w.tables)
    (hpending : ∀ p xs, w'.pending p = some xs → ∀ x ∈ xs, Listed w.tables.applications x) :
    Files d₀ w w' :=
  ⟨⟨htables ▸ hw.keyed, htables ▸ hw.users, htables ▸ hw.joined, htables ▸ hpending⟩,
    fun _ ha => htables ▸ ha⟩

/-- A transaction that files no application leaves no trace of one. -/
theorem joinedIn_cons {log : List (List Write)} (hxs : ∀ entry, .insertEntry entry ∉ xs)
    (userId : Uuid) : JoinedIn (xs :: log) userId ↔ JoinedIn log userId := by
  constructor
  · rintro ⟨ys, hys, entry, hentry, huser⟩
    rcases List.mem_cons.mp hys with rfl | hys
    · exact absurd hentry (hxs entry)
    · exact ⟨ys, hys, entry, hentry, huser⟩
  · rintro ⟨ys, hys, hentry⟩
    exact ⟨ys, List.mem_cons_of_mem _ hys, hentry⟩

/-- Writes that file no application. -/
theorem Filed.commit (hw : Filed d₀ w) (hxs : ∀ x ∈ xs, Listed w.tables.applications x)
    (htables : w'.tables = w.tables.commit missing xs)
    (hpending : ∀ p ys, w'.pending p = some ys → w.pending p = some ys) : Files d₀ w w' := by
  have hsame : w'.tables.applications = w.tables.applications := by
    rw [htables]
    exact applications_view missing hw.keyed hxs
  refine ⟨⟨?_, hsame ▸ hw.users, fun u => ?_, fun p ys hys y hy => ?_⟩, fun a ha => hsame ▸ ha⟩
  · rw [htables]
    exact hw.keyed.commit xs
  · rw [hsame, htables]
    exact (hw.joined u).trans (or_congr_right (joinedIn_cons (fun e he => hxs _ he) u).symm)
  · exact (hw.pending p ys (hpending p ys hys) y hy).mono fun a ha => hsame ▸ ha

/-- A new application. -/
theorem Filed.apply (hw : Filed d₀ w) {entry : WaitlistEntry}
    (hnew : entry.userId ∉ w.tables.waitlist.map (·.userId)) :
    Files d₀ w { w with tables := w.tables.commit missing [.insertEntry entry] } := by
  have happend : (w.tables.commit missing [.insertEntry entry]).applications =
      w.tables.applications ++ [(w.tables.nextEntry, entry.userId)] :=
    List.map_append
  have hsubset : w.tables.applications ⊆
      (w.tables.commit missing [.insertEntry entry]).applications := by
    rw [happend]
    exact List.subset_append_left ..
  refine ⟨⟨hw.keyed.commit _, ?_, fun u => ?_, fun p ys hys y hy =>
    (hw.pending p ys hys y hy).mono hsubset⟩, hsubset⟩
  · change ((w.tables.commit missing [.insertEntry entry]).applications.map Prod.snd).Nodup
    rw [happend, List.map_append, List.map_singleton, List.nodup_append]
    refine ⟨hw.users, List.nodup_singleton _, fun u hu u' hu' heq => hnew ?_⟩
    have huser : u = entry.userId := heq.trans (List.mem_singleton.mp hu')
    rw [users_applications, ← huser]
    exact hu
  · change u ∈ (w.tables.commit missing [.insertEntry entry]).applications.map Prod.snd ↔ _ ∨
      JoinedIn ([.insertEntry entry] :: w.tables.log) u
    rw [happend, List.map_append, List.map_singleton, List.mem_append, List.mem_singleton, hw.joined]
    constructor
    · rintro ((hold | ⟨ys, hys, hentry⟩) | rfl)
      · exact .inl hold
      · exact .inr ⟨ys, List.mem_cons_of_mem _ hys, hentry⟩
      · exact .inr ⟨_, List.mem_cons_self, entry, List.mem_singleton.mpr rfl, rfl⟩
    · rintro (hold | ⟨ys, hys, e, he, rfl⟩)
      · exact .inl (.inl hold)
      · rcases List.mem_cons.mp hys with rfl | hys
        · obtain rfl := Write.insertEntry.inj (List.mem_singleton.mp he)
          exact .inr rfl
        · exact .inl (.inr ⟨ys, hys, e, he, rfl⟩)

theorem Filed.execute (hw : Filed d₀ w) {q : Query} (hq : (Op.db q).listed w.tables.applications) :
    Files d₀ w (w.execute missing q) := by
  cases q with
  | write x =>
    cases hconflict : w.tables.conflict missing x with
    | some constraint =>
      have hsame : w.execute missing (.write x) = w := execute_refused hconflict
      exact hw.of_tables (congrArg World.tables hsame) fun p ys hys =>
        hw.pending p ys (hsame ▸ hys)
    | none =>
      rw [execute_write hconflict]
      cases x with
      | insertEntry entry =>
        refine hw.apply fun hmem => ?_
        rw [Tables.conflict, if_pos hmem] at hconflict
        cases hconflict
      | _ =>
        refine hw.commit (fun y hy => ?_) rfl fun _ _ h => h
        rw [List.mem_singleton.mp hy]
        exact hq
  | _ => exact hw.of_tables rfl hw.pending

/-- **The applications are kept** by operations that know of the entries that they save. -/
theorem Filed.step (hw : Filed d₀ w) {o : Op} (ho : o.listed w.tables.applications) {r : o.Ret}
    (hexec : exec missing o pid choice w = some (r, w')) : Files d₀ w w' := by
  have hrelease : ∀ p, Files d₀ w (w.release p) := fun p =>
    hw.of_tables rfl fun q ys hys => hw.pending q ys (pending_release hys)
  have hhold : ∀ xs, (∀ x ∈ xs, Listed w.tables.applications x) → Files d₀ w (w.hold pid xs) := by
    refine fun xs hxs => hw.of_tables rfl fun q ys hys => ?_
    by_cases hq : q = pid
    · subst hq
      obtain rfl := Option.some.inj ((pending_hold w q xs).symm.trans hys)
      exact hxs
    · exact hw.pending q ys ((Function.update_of_ne hq _ _).symm.trans hys)
  have hexternal : o.isExternal = true → Files d₀ w w' := by
    intro h
    obtain rfl := exec_external h hexec
    exact hw.of_tables rfl hw.pending
  have hidle : Files d₀ w w := hw.of_tables rfl hw.pending
  cases o with
  | db q =>
    rcases exec_db hexec with ⟨rfl, -⟩ | ⟨-, rfl, -⟩
    · exact hidle
    · exact hw.execute ho
  | startTransaction =>
    rcases exec_startTransaction hexec with ⟨rfl, -⟩ | ⟨-, rfl⟩
    · exact hidle
    · exact hhold [] fun x hx => absurd hx List.not_mem_nil
  | lockGroup =>
    rcases exec_lockGroup hexec with ⟨rfl, -⟩ | ⟨-, -, -, -, rfl⟩
    · exact hidle
    · exact hw.of_tables rfl hw.pending
  | lockWaiting limit =>
    rcases exec_lockWaiting hexec with ⟨rfl, -⟩ | ⟨-, -, -, -, rfl⟩
    · exact hidle
    · exact hw.of_tables rfl hw.pending
  | tx q =>
    rcases exec_tx hexec with ⟨rfl, -⟩ | ⟨xs, hxs, -, rfl⟩
    · exact hidle
    · refine hhold _ fun x hx => ?_
      rcases List.mem_append.mp hx with hx | hx
      · exact hw.pending pid xs hxs x hx
      · cases q with
        | write y =>
          change x ∈ (if _ then some y else none).toList at hx
          split at hx
          · rw [List.mem_singleton.mp hx]
            exact ho
          · cases hx
        | _ => cases hx
  | commitTransaction =>
    rcases exec_commitTransaction hexec with ⟨rfl, -⟩ | ⟨xs, hxs, rfl, -⟩
    · exact hrelease pid
    · exact hw.commit (hw.pending pid xs hxs) rfl fun p ys hys => pending_release hys
  | rollbackTransaction =>
    rcases exec_rollbackTransaction hexec with rfl | rfl
    · exact hidle
    · exact hrelease pid
  | dropSession p =>
    obtain rfl := exec_dropSession hexec
    exact hrelease p
  | notify n => exact hexternal rfl
  | deployRoscaContract group => exact hexternal rfl
  | dispatchEvent event => exact hexternal rfl

/-- The applications that a reply shows. -/
def shows : Entry Op.Ret → List (Uuid × Uuid)
  | ⟨.lockWaiting _, .ok entries⟩ => entries.map fun e => (e.id, e.userId)
  | ⟨.db (.findWaiting _), .ok (some e)⟩ => [(e.id, e.userId)]
  | _ => []

/-- A reply shows applications that are in the table. -/
theorem Filed.shows (hw : Filed d₀ w) {o : Op} {r : o.Ret}
    (hexec : exec missing o pid choice w = some (r, w')) :
    Members.shows ⟨o, r⟩ ⊆ w.tables.applications := by
  intro a ha
  unfold Members.shows at ha
  split at ha
  next limit entries heq =>
    obtain ⟨rfl, hr⟩ := Sigma.mk.inj heq
    obtain rfl := eq_of_heq hr
    rcases exec_lockWaiting hexec with ⟨-, e, he⟩ | ⟨xs, hxs, -, hentries, -⟩
    · cases he
    · obtain rfl := Except.ok.inj hentries
      obtain ⟨e, he, rfl⟩ := List.mem_map.mp ha
      rw [← applications_view missing hw.keyed (hw.pending pid xs hxs)]
      have hwaiting : e ∈ (w.tables.view missing xs).waiting :=
        (List.perm_insertionSort ..).mem_iff.mp (List.mem_of_mem_take he)
      exact mem_applications (List.mem_of_mem_filter hwaiting)
  next userId e heq =>
    obtain ⟨rfl, hr⟩ := Sigma.mk.inj heq
    obtain rfl := eq_of_heq hr
    obtain rfl := List.mem_singleton.mp ha
    rcases exec_db hexec with ⟨-, x, hx⟩ | ⟨-, -, hread | ⟨x, hx⟩⟩
    · cases hx
    · have hfound : w.tables.waiting.find? (·.userId = userId) = some e :=
        (Except.ok.inj hread).symm
      exact mem_applications (List.mem_of_mem_filter (List.mem_of_find?_eq_some hfound))
    · cases hx
  next => cases ha

end Operations

/-! ### Bodies -/

section Bodies

/-- A call saves entries that it has read. -/
def SavesShown (L : Log Op.Ret) (o : Op) : Prop := o.listed (L.flatMap shows)

variable {known : List (Uuid × Uuid)} {L : Log Op.Ret} {α : Type}

/-- While a call has been shown them, it may save known entries. -/
theorem admits_listed (known : List (Uuid × Uuid)) :
    Async.Admits SavesShown (Op.listed known) fun L => known ⊆ L.flatMap shows where
  allowed L o hknown ho := Op.listed_mono hknown ho
  kept L o r hknown _ a ha := by
    rw [List.flatMap_cons]
    exact List.mem_append_right _ (hknown ha)

theorem obeys_listed {m : Service α} (hm : Routine.Uses (Op.listed []) m) :
    Obeys SavesShown m Anyhow Anyhow () L :=
  (Obeys.of_uses (admits_listed []) hm (List.nil_subset _)).mono (fun _ _ _ _ => trivial)
    fun _ _ _ _ => trivial

theorem obeys_listed_transaction {body : Service α} (hbody : ∀ L, Obeys SavesShown body Anyhow Anyhow () L) :
    Obeys SavesShown (transaction body) Anyhow Anyhow () L := by
  have hrollback : ∀ (e : Exc) L, Obeys SavesShown (do
      Routine.call .rollbackTransaction fun _ => .ok ()
      throw e : Service α) Anyhow Anyhow () L := fun e L =>
    Obeys.bind (Obeys.call trivial fun _ => Obeys.throw trivial)
  refine Obeys.bind (Obeys.call trivial fun r => ?_)
  cases r with
  | error e => trivial
  | ok a =>
    refine Obeys.tryCatch (Obeys.bind ((hbody _).mono (fun result _ L _ => ?_)
      fun e _ L _ => hrollback e L))
    refine Obeys.bind (Obeys.call trivial fun r => ?_)
    cases r with
    | error e => exact hrollback e _
    | ok b => exact Obeys.pure trivial

/-- The entries that an admission saves are those that it has locked. -/
theorem uses_admitEntries_listed {entries : List WaitlistEntry} (n : ℤ)
    (h : ∀ e ∈ entries, (e.id, e.userId) ∈ known) :
    Routine.Uses (Op.listed known) (admitEntries entries n) := by
  induction entries generalizing n with
  | nil => exact Routine.uses_pure _
  | cons entry entries ih =>
    obtain ⟨hentry, hentries⟩ := List.forall_mem_cons.mp h
    refine Routine.uses_bind (uses_tx trivial) fun _ => ?_
    refine Routine.uses_bind (uses_tx hentry) fun _ => ?_
    exact Routine.uses_bind (ih (n + 1) hentries) fun _ => Routine.uses_pure _

theorem obeys_listed_admission (maxToAdmit : Option ℤ) :
    Obeys SavesShown (admitFromWaitlistInTransaction maxToAdmit) Anyhow Anyhow () L := by
  have hread : ∀ {q : Query}, q.isRead = true → (Op.tx q).listed [] := fun {q} hq => by
    cases q with
    | write x => cases hq
    | _ => trivial
  refine Obeys.bind (Obeys.call trivial fun r => ?_)
  cases r with
  | error e => trivial
  | ok found =>
  cases found with
  | none => exact Obeys.pure trivial
  | some group =>
  refine Obeys.bind_uses (admits_listed []) (uses_tx (hread rfl)) (List.nil_subset _)
    (fun memberCount L _ => ?_) fun _ _ _ => trivial
  dsimp only
  split
  · exact Obeys.pure trivial
  split
  · exact Obeys.pure trivial
  refine Obeys.bind (Obeys.call trivial fun r => ?_)
  cases r with
  | error e => trivial
  | ok entries =>
  change Obeys SavesShown (if entries.isEmpty then _ else _) _ _ _ _
  split
  · exact Obeys.pure trivial
  -- from here on the locked entries have been shown
  have hshown : entries.map (fun e => (e.id, e.userId)) ⊆
      (⟨.lockWaiting (admissionLimit (group.maxMembers - memberCount) maxToAdmit).toNat,
        .ok entries⟩ :: L : Log Op.Ret).flatMap shows := by
    rw [List.flatMap_cons]
    exact List.subset_append_left ..
  refine Obeys.bind_uses (admits_listed _) (uses_tx trivial) hshown (fun maxOrder L hL => ?_)
    fun _ _ _ => trivial
  refine (Obeys.of_uses (admits_listed _) (uses_admitEntries_listed _ fun e he => ?_) hL).mono
    (fun _ _ _ _ => trivial) fun _ _ _ _ => trivial
  exact List.mem_map_of_mem he

theorem obeys_listed_leaveWaitlist (userId : Uuid) :
    Obeys SavesShown (leaveWaitlist userId) Anyhow Anyhow () L := by
  refine Obeys.bind (Obeys.call trivial fun r => ?_)
  cases r with
  | error e => trivial
  | ok found =>
  cases found with
  | none => exact Obeys.bind (Obeys.throw trivial)
  | some entry =>
  refine Obeys.bind (Obeys.pure ?_)
  have hshown : [(entry.id, entry.userId)] ⊆
      (⟨.db (.findWaiting userId), .ok (some entry)⟩ :: L : Log Op.Ret).flatMap shows := by
    rw [List.flatMap_cons]
    exact List.subset_append_left ..
  refine (Obeys.of_uses (admits_listed _) ?_ hshown).mono (fun _ _ _ _ => trivial)
    fun _ _ _ _ => trivial
  exact Routine.uses_bind (uses_db List.mem_cons_self) fun _ => uses_db trivial

theorem listed_of_isRead {q : Query} (hq : q.isRead = true) :
    (Op.db q).listed known ∧ (Op.tx q).listed known := by
  cases q with
  | write x => cases hq
  | _ => exact ⟨trivial, trivial⟩

theorem listed_of_isExternal {o : Op} (ho : o.isExternal = true) : o.listed known := by
  cases o with
  | notify n => trivial
  | deployRoscaContract group => trivial
  | dispatchEvent event => trivial
  | _ => cases ho

/-- The reply of a call is made of what its service returns. -/
theorem obeys_listed_reply {β : Type} {m : Service α} {f : α → β} (hm : Obeys SavesShown m Anyhow Anyhow () L) :
    Obeys SavesShown (do
      let a ← m
      pure (f a)) Anyhow Anyhow () L :=
  Obeys.bind (hm.mono (fun _ _ _ _ => Obeys.pure trivial) fun _ _ _ _ => trivial)

/-- **Every call on the members** saves entries that it has read. -/
theorem obeys_savesShown (maxWaitlist : ℤ) (c : Call) :
    Obeys SavesShown (c.body maxWaitlist) Anyhow Anyhow () L := by
  have hread : ∀ q : Query, q.isRead = true → (Op.db q).listed [] := fun q hq => (listed_of_isRead hq).1
  have htxRead : ∀ q : Query, q.isRead = true → (Op.tx q).listed [] :=
    fun q hq => (listed_of_isRead hq).2
  have hexternal : ∀ o : Op, o.isExternal = true → o.listed [] := fun o => listed_of_isExternal
  cases c with
  | addMember userId walletAddress =>
    refine obeys_listed_reply (Obeys.tryCatch ((obeys_listed_transaction fun L => obeys_listed ?_).mono
      (fun _ _ _ h => h) fun e _ L _ => ?_))
    · exact uses_insertMember htxRead trivial (fun m => trivial) userId walletAddress
    · cases e <;> exact Obeys.throw trivial
  | removeMember userId =>
    exact obeys_listed_reply (obeys_listed (uses_removeMember hread (fun m => trivial) userId))
  | leaveGroup userId =>
    exact obeys_listed_reply (obeys_listed (uses_leaveGroup hread (fun m => trivial) (fun m => trivial)
      hexternal userId))
  | suspendMember target requesting reason =>
    exact obeys_listed_reply (obeys_listed (uses_suspendMember hread (fun m => trivial) hexternal _ _ _))
  | reinstateMember target requesting =>
    exact obeys_listed_reply (obeys_listed (uses_reinstateMember hread (fun m => trivial) hexternal _ _))
  | joinWaitlist userId walletAddress =>
    exact obeys_listed_reply (obeys_listed (uses_joinWaitlist hread (fun e => trivial) _ _ _))
  | leaveWaitlist userId => exact obeys_listed_reply (obeys_listed_leaveWaitlist userId)
  | admitFromWaitlist maxToAdmit =>
    exact obeys_listed_reply (obeys_listed_transaction fun L => obeys_listed_admission maxToAdmit)
  | activateGroup adminWallet random =>
    exact obeys_listed_reply (obeys_listed (uses_activateGroup hread (fun m => trivial) (fun g => trivial)
      hexternal adminWallet random))
  | dropSession pid => exact Obeys.call trivial fun _ => trivial

end Bodies

/-! ### Runs -/

namespace Invites

/-- What an entry of the log says of the members. -/
def membersEntry : Entry Op.Ret → Option (Entry Members.Op.Ret)
  | ⟨.members o, r⟩ => some ⟨o, r⟩
  | _ => none

/-- A call saves entries of the waitlist that it has read. -/
def SavesShown (L : Log Op.Ret) : Op → Prop
  | .members o => Members.SavesShown (L.filterMap membersEntry) o
  | _ => True

variable {L : Log Op.Ret} {α : Type}

theorem obeys_onMembers {m : Members.Service α}
    (hm : ∀ L, Obeys Members.SavesShown m Anyhow Anyhow () L) :
    Obeys SavesShown (onMembers m) Anyhow Anyhow () L := by
  have hfollows : Follows SavesShown _ (onMembers m ()) L :=
    Follows.via membersEntry (fun _ _ => rfl) (fun _ _ h => h)
      (hm (L.filterMap membersEntry)).follows
  refine ⟨hfollows.mono fun x L _ => ?_⟩
  rcases x with ⟨e | a, t⟩ <;> trivial

theorem obeys_joinByInvite (code : String) (userId : Uuid) (walletAddress : String) :
    Obeys SavesShown (joinByInvite code userId walletAddress) Anyhow Anyhow () L := by
  have hinsert : ∀ L, Obeys SavesShown (onMembers (tx (.write (.insertMember
      { id := 0, userId, walletAddress, payoutOrder := none })))) Anyhow Anyhow () L := fun L =>
    obeys_onMembers fun L => obeys_listed (uses_tx trivial)
  refine Obeys.bind (Obeys.call trivial fun r => ?_)
  cases r with
  | error e => trivial
  | ok found =>
  refine Obeys.bind (Obeys.valueOr (fun invite _ => ?_) fun _ => trivial)
  refine Obeys.bind (Obeys.throwWhen (fun _ => trivial) fun _ => ?_)
  refine Obeys.bind (Obeys.perform trivial fun now => ?_)
  refine Obeys.bind (Obeys.throwWhen (fun _ => trivial) fun _ => ?_)
  refine Obeys.bind (Obeys.throwWhen (fun _ => trivial) fun _ => ?_)
  have hfind : ∀ L, Obeys SavesShown (onMembers (tx (.findMember userId))) Anyhow Anyhow () L :=
    fun L => obeys_onMembers fun L => obeys_listed (uses_tx trivial)
  refine Obeys.bind ((hfind _).mono (fun existing _ L _ => ?_) fun _ _ _ _ => trivial)
  cases existing with
  | some membership => exact Obeys.pure trivial
  | none =>
  refine Obeys.bind (Obeys.call trivial fun r => ?_)
  cases r with
  | error e => trivial
  | ok a =>
  refine Obeys.bind ?_
  split
  · refine Obeys.call trivial fun r => ?_
    cases r with
    | error e => trivial
    | ok a => exact Obeys.bind ((hinsert _).mono (fun _ _ _ _ => Obeys.pure trivial)
        fun _ _ _ _ => trivial)
  · exact Obeys.pure (Obeys.bind ((hinsert _).mono (fun _ _ _ _ => Obeys.pure trivial)
      fun _ _ _ _ => trivial))

theorem obeys_call (maxWaitlist : ℤ) (c : Call) :
    Obeys SavesShown (c.body maxWaitlist) Anyhow Anyhow () L := by
  cases c with
  | members c =>
    exact Obeys.bind ((obeys_onMembers fun L => obeys_savesShown maxWaitlist c).mono
      (fun _ _ _ _ => Obeys.pure trivial) fun _ _ _ _ => trivial)
  | expireStaleInvites =>
    refine Obeys.bind (Obeys.bind (Obeys.perform trivial fun now => Obeys.call trivial fun r => ?_))
    cases r with
    | error e => trivial
    | ok n => exact Obeys.pure trivial
  | joinByCode code userId walletAddress =>
    have hrollback : ∀ (e : Exc) L, Obeys SavesShown (do
        Routine.call (.members .rollbackTransaction) fun _ => .ok ()
        throw e : Service Joined) Anyhow Anyhow () L := fun e L =>
      Obeys.bind (Obeys.call trivial fun _ => Obeys.throw trivial)
    refine Obeys.bind ((Obeys.bind (Obeys.call trivial fun r => ?_) : Obeys SavesShown
      (Invites.joinByCode code userId walletAddress) Anyhow Anyhow () L).mono
        (fun _ _ _ _ => Obeys.pure trivial) fun _ _ _ _ => trivial)
    cases r with
    | error e => trivial
    | ok a =>
    refine Obeys.tryCatch (Obeys.bind ((obeys_joinByInvite code userId walletAddress).mono
      (fun result _ L _ => ?_) fun e _ L _ => hrollback e L))
    refine Obeys.bind (Obeys.call trivial fun r => ?_)
    cases r with
    | error e => exact hrollback e _
    | ok b => exact Obeys.pure trivial

theorem follows_savesShown (missing : OnMissing) (maxWaitlist : ℤ) (c : Call) :
    Follows SavesShown (fun _ _ => True) ((system missing maxWaitlist).body c) [] :=
  (obeys_call maxWaitlist c).follows.bind fun _ _ _ => trivial

/-- An operation does to the members what one of theirs does, or nothing. -/
theorem members_of_exec {missing : OnMissing} {o : Op} {pid : ℕ} {choice : Choice} {w w' : World}
    {r : o.Ret} (h : exec missing o pid choice w = some (r, w')) :
    (membersEntry ⟨o, r⟩ = none ∧ w'.members = w.members) ∨
      ∃ o' r' choice', o = .members o' ∧ membersEntry ⟨o, r⟩ = some ⟨o', r'⟩ ∧
        Members.exec missing o' pid choice' w.members = some (r', w'.members) := by
  cases o with
  | members o =>
    obtain ⟨choice, -, hexec⟩ := exec_members h
    exact .inr ⟨o, r, choice, rfl, rfl, hexec⟩
  | lockInvite code =>
    rcases exec_lockInvite h with ⟨rfl, -⟩ | ⟨-, -, -, ⟨-, rfl⟩ | ⟨-, -, -, rfl⟩⟩ <;>
      exact .inl ⟨rfl, rfl⟩
  | updateInvite x =>
    rcases exec_updateInvite h with ⟨rfl, -⟩ | ⟨-, -, -, -, rfl⟩ <;> exact .inl ⟨rfl, rfl⟩
  | expireInvites now =>
    rcases exec_expireInvites h with ⟨rfl, -⟩ | ⟨-, rfl⟩ <;> exact .inl ⟨rfl, rfl⟩
  | now =>
    obtain ⟨-, rfl⟩ := exec_now h
    exact .inl ⟨rfl, rfl⟩

/-- What the calls know of the waitlist is in it. -/
structure Known (d₀ : Tables) (h : Hist Op.Ret World Call (Except Exc Reply)) : Prop where
  filed : Filed d₀ h.world.members
  shown : ∀ pid, ((log pid h.trace).filterMap membersEntry).flatMap shows ⊆
    h.world.members.tables.applications

/-- What the constraints of the waitlist demand of the tables at first; nothing is in the log. -/
structure Fresh (d : Tables) : Prop where
  keyed : Keyed d
  users : (d.waitlist.map (·.userId)).Nodup
  log : d.log = []

/-- **In every run** the applications are of distinct users under distinct keys. -/
theorem known_of_reachable (missing : OnMissing) (maxWaitlist : ℤ) {d : Tables}
    {invites : List GroupInvite} (hd : Fresh d) {s : InvitesState}
    (hs : (system missing maxWaitlist).Reachable (.init (started d invites)) s) :
    Known d s.hist := by
  refine hist_invariant (D := fun _ => SavesShown) (Q := fun _ _ _ => True)
    (follows_savesShown missing maxWaitlist) (I := Known d) ⟨⟨hd.keyed, ?_, ?_, ?_⟩, ?_⟩ ?_ hs
  · rw [← users_applications]
    exact hd.users
  · intro u
    refine (or_iff_left ?_).symm
    rintro ⟨xs, hxs, -⟩
    change xs ∈ d.log at hxs
    rw [hd.log] at hxs
    exact absurd hxs List.not_mem_nil
  · intro p xs hxs
    cases hxs
  · exact fun pid => List.nil_subset _
  · intro h h' _ _ hknown hstep _
    cases hstep with
    | idle e he hlive => exact ⟨hknown.filed, fun pid => (he pid h.trace) ▸ hknown.shown pid⟩
    | did pid c o choice r w hstart hD hexec hlive =>
      rcases members_of_exec hexec with ⟨hentry, hmembers⟩ | ⟨o', r', choice', rfl, hentry, hexec'⟩
      · refine ⟨hmembers ▸ hknown.filed, fun p => ?_⟩
        rw [Hist.push_world, hmembers]
        by_cases hp : pid = p
        · subst hp
          rw [Hist.push_trace, log_did_self, List.filterMap_cons_none hentry]
          exact hknown.shown pid
        · rw [Hist.push_trace, log_cons_of_ne (e := .did pid o r h.world) hp]
          exact hknown.shown p
      · have hlisted : o'.listed h.world.members.tables.applications :=
          Op.listed_mono (hknown.shown pid) hD
        have hfiles := hknown.filed.step hlisted hexec'
        refine ⟨hfiles.filed, fun p => ?_⟩
        by_cases hp : pid = p
        · subst hp
          rw [Hist.push_trace, log_did_self, List.filterMap_cons_some hentry, List.flatMap_cons]
          exact List.append_subset.mpr ⟨fun a ha => hfiles.applications (hknown.filed.shows hexec' ha),
            fun a ha => hfiles.applications (hknown.shown pid ha)⟩
        · rw [Hist.push_trace, log_cons_of_ne (e := .did pid (Op.members o') r h.world) hp]
          exact fun a ha => hfiles.applications (hknown.shown p ha)

end Invites

end Ahjoor.Members
