import Ahjoor.Members.Applications

/-!
# Admissions make progress

An admission that runs alone takes in the first entries that wait, one for each place that is free
and within its cap, unless one of them belongs to a user who has become a member by another way:
then the whole batch is rolled back, and nobody behind that entry is admitted.
-/

namespace Ahjoor.Members

open Async

variable {missing : OnMissing} {pid : ℕ} {w : World} {xs : List Write} {d : Tables}
  {entries : List WaitlistEntry} {n : ℤ}

/-! ### The loop over the entries -/

theorem users_view_admitted (entry : WaitlistEntry) :
    (d.view missing (xs ++ [.insertMember (admittedMember entry n)] ++
      [.saveEntry { entry with status := .admitted }])).users =
        (d.view missing xs).users ++ [entry.userId] := by
  rw [view_concat, view_concat]
  change ((d.view missing xs).members ++ [_]).map _ = _
  rw [List.map_append]
  rfl

/-- Entries of distinct users who are not members are all admitted. -/
theorem comes_admitEntries (hw : Within pid d xs w) (hnodup : (entries.map (·.userId)).Nodup)
    (hfree : ∀ e ∈ entries, e.userId ∉ (d.view missing xs).users) :
    Comes (working missing) pid (admitEntries entries n) (.ok (entries.map (·.userId)))
      (Within pid d (xs ++ admissionWrites entries n)) () w := by
  induction entries generalizing xs n w with
  | nil =>
    rw [admissionWrites, List.append_nil]
    exact Comes.pure hw
  | cons entry entries ih =>
    obtain ⟨hnew, hrest⟩ := List.nodup_cons.mp hnodup
    obtain ⟨hentry, hentries⟩ := List.forall_mem_cons.mp hfree
    refine Comes.bind (comes_tx_write hw (if_neg hentry)) fun w₁ hw₁ => ?_
    refine Comes.bind (comes_tx_write hw₁ rfl) fun w₂ hw₂ => ?_
    refine Comes.bind (ih hw₂ hrest fun e he => ?_) fun w₃ hw₃ => Comes.pure ?_
    · rw [users_view_admitted, List.mem_append, List.mem_singleton]
      rintro (hmember | hsame)
      · exact hentries e he hmember
      · exact hnew (List.mem_map.mpr ⟨e, he, hsame⟩)
    · rw [List.append_assoc, List.append_assoc] at hw₃
      exact hw₃

/-- An entry of a member is refused. -/
theorem comes_admitEntries_refused (hw : Within pid d xs w)
    (hmember : ∃ e ∈ entries, e.userId ∈ (d.view missing xs).users) :
    Comes (working missing) pid (admitEntries entries n)
      (.error (.uniqueViolation "UQ_memberships_groupId_userId")) (fun w' => w'.tables = d) () w := by
  induction entries generalizing xs n w with
  | nil =>
    obtain ⟨e, he, -⟩ := hmember
    exact absurd he List.not_mem_nil
  | cons entry entries ih =>
    by_cases hentry : entry.userId ∈ (d.view missing xs).users
    · have hrefused : Comes (working missing) pid
          (tx (.write (.insertMember (admittedMember entry n))))
          (.error (.uniqueViolation "UQ_memberships_groupId_userId")) (Within pid d xs) () w :=
        comes_tx_refused hw (if_pos hentry)
      exact Comes.bind_error (hrefused.mono fun _ h => h.tables)
    · obtain ⟨e, he, huser⟩ := hmember
      have hrest : e ∈ entries := (List.mem_cons.mp he).resolve_left fun h => hentry (h ▸ huser)
      refine Comes.bind (comes_tx_write hw (if_neg hentry)) fun w₁ hw₁ => ?_
      refine Comes.bind (comes_tx_write hw₁ rfl) fun w₂ hw₂ => Comes.bind_error (ih hw₂ ?_)
      refine ⟨e, hrest, ?_⟩
      rw [users_view_admitted]
      exact List.mem_append_left _ huser

/-! ### The two outcomes of an admission -/

/-- The places that an admission with a cap may give away in a group. -/
def admissionPlaces (g : GroupRow) (d : Tables) (maxToAdmit : Option ℤ) : ℕ :=
  (admissionLimit (g.maxMembers - d.members.length) maxToAdmit).toNat

/-- The entries that an admission with a cap would take. -/
def Tables.front (g : GroupRow) (d : Tables) (maxToAdmit : Option ℤ) : List WaitlistEntry :=
  d.nextWaiting (admissionPlaces g d maxToAdmit)

/-- None of the entries that an admission would take belongs to a member. -/
def FrontIsFree (g : GroupRow) (d : Tables) (maxToAdmit : Option ℤ) : Prop :=
  ∀ e ∈ d.front g maxToAdmit, e.userId ∉ d.users

instance (g : GroupRow) (d : Tables) (maxToAdmit : Option ℤ) :
    Decidable (FrontIsFree g d maxToAdmit) :=
  inferInstanceAs (Decidable (∀ e ∈ d.front g maxToAdmit, _))

/-- The payout order behind the last one. -/
def Tables.nextOrder (d : Tables) : ℤ := nextPayoutOrder (d.members.filterMap (·.payoutOrder)).max?

variable {g : GroupRow} {maxToAdmit : Option ℤ}

theorem admissionLimit_le {free : ℤ} : admissionLimit free maxToAdmit ≤ free := by
  cases maxToAdmit with
  | none => exact le_rfl
  | some cap => exact min_le_left ..

theorem front_eq_nil (h : admissionLimit (g.maxMembers - d.members.length) maxToAdmit ≤ 0) :
    d.front g maxToAdmit = [] := by
  rw [Tables.front, admissionPlaces, Int.toNat_of_nonpos h, Tables.nextWaiting, List.take_zero]

theorem users_nodup_front (hd : Distinct d) : ((d.front g maxToAdmit).map (·.userId)).Nodup := by
  have hwaiting : (d.waiting.map (·.userId)).Nodup := hd.users.sublist (List.filter_sublist.map _)
  have hperm := (List.perm_insertionSort (fun a b : WaitlistEntry => a.position ≤ b.position)
    d.waiting).map (·.userId)
  exact (hperm.nodup_iff.mpr hwaiting).sublist ((List.take_sublist _ _).map _)

/-- The body of an admission that finds the group: what becomes of its front. -/
theorem comes_admission {x : Except Exc (List Uuid)} {P : World → Prop}
    (hw : Within pid d [] w) (hgroup : d.group = some g)
    (hnone : d.front g maxToAdmit = [] → ∀ w, Within pid d [] w →
      Comes (working missing) pid (pure [] : Service (List Uuid)) x P () w)
    (hsome : ∀ w, Within pid d [] w →
      Comes (working missing) pid (admitEntries (d.front g maxToAdmit) d.nextOrder) x P () w) :
    Comes (working missing) pid (admitFromWaitlistInTransaction maxToAdmit) x P () w := by
  have hlock : Comes (working missing) pid lockGroup (.ok (some g)) (Within pid d []) () w :=
    hgroup ▸ comes_lockGroup hw
  refine Comes.bind hlock fun w₁ hw₁ => ?_
  refine Comes.bind (comes_tx_read hw₁ (q := .countMembers) rfl rfl) fun w₂ hw₂ => ?_
  dsimp only
  split
  next hfull => exact hnone (front_eq_nil (admissionLimit_le.trans hfull)) w₂ hw₂
  next =>
  split
  next hzero => exact hnone (front_eq_nil hzero.le) w₂ hw₂
  next =>
  refine Comes.bind (comes_lockWaiting hw₂ _) fun w₃ hw₃ => ?_
  split
  next hempty => exact hnone (List.isEmpty_iff.mp hempty) w₃ hw₃
  next =>
  exact Comes.bind (comes_tx_read hw₃ (q := .maxPayoutOrder) rfl rfl) fun w₄ hw₄ =>
    hsome w₄ hw₄

/-- **An admission whose front is free** takes it in. -/
theorem comes_admitFromWaitlist (hw : Idle w) (hd : Distinct w.tables)
    (hgroup : w.tables.group = some g) (hfree : FrontIsFree g w.tables maxToAdmit) :
    Comes (working missing) pid (admitFromWaitlist maxToAdmit)
      (.ok ((w.tables.front g maxToAdmit).map (·.userId)))
      (fun w' => w'.tables = w.tables.commit missing
        (admissionWrites (w.tables.front g maxToAdmit) w.tables.nextOrder)) () w := by
  refine comes_transaction hw fun w₁ hw₁ => comes_admission hw₁ hgroup (fun hnil w₂ hw₂ => ?_)
    fun w₂ hw₂ => comes_admitEntries hw₂ (users_nodup_front hd) hfree
  rw [hnil]
  exact Comes.pure hw₂

/-- **An admission with a member in its front** is rolled back. -/
theorem comes_admitFromWaitlist_refused (hw : Idle w) (hgroup : w.tables.group = some g)
    (hmember : ¬ FrontIsFree g w.tables maxToAdmit) :
    Comes (working missing) pid (admitFromWaitlist maxToAdmit)
      (.error (.uniqueViolation "UQ_memberships_groupId_userId"))
      (fun w' => w'.tables = w.tables) () w := by
  have hfront : ∃ e ∈ w.tables.front g maxToAdmit, e.userId ∈ (w.tables.view missing []).users := by
    rw [FrontIsFree] at hmember
    push Not at hmember
    exact hmember
  refine comes_transaction_error hw fun w₁ hw₁ => comes_admission hw₁ hgroup (fun hnil => ?_)
    fun w₂ hw₂ => comes_admitEntries_refused hw₂ hfront
  obtain ⟨e, he, -⟩ := hfront
  rw [hnil] at he
  exact absurd he List.not_mem_nil

theorem forced_admitFromWaitlist (maxToAdmit : Option ℤ) :
    Routine.Uses (Forced (working missing) pid) (admitFromWaitlist maxToAdmit) :=
  uses_transaction (forced_of_isForced rfl) (forced_of_isForced rfl) (forced_of_isForced rfl)
    (uses_admitFromWaitlistInTransaction (fun _ _ => forced_of_isForced rfl) (forced_of_isForced rfl)
      (fun _ => forced_of_isForced rfl) (fun _ => forced_of_isForced rfl)
      (fun _ => forced_of_isForced rfl) maxToAdmit)

/-! ### What is claimed -/

/-- The entries of users who are not members yet, among those that wait, by position. -/
def Tables.candidates (d : Tables) : List WaitlistEntry :=
  (d.waiting.insertionSort fun a b => a.position ≤ b.position).filter (·.userId ∉ d.users)

/-- At most as many as the cap permits, if there is one. -/
def capped (cap : Option ℤ) (n : ℕ) : ℕ :=
  match cap with
  | none => n
  | some cap => min n cap.toNat

/-- The admission succeeds, and takes in the first candidates: one for each free place, as far as
there are candidates and the cap permits. -/
def TakesCandidates (g : GroupRow) (maxToAdmit : Option ℤ) (d : Tables) (x : Except Exc (List Uuid))
    (d' : Tables) : Prop :=
  ∃ admitted, admitted <+: d.candidates ∧
    admitted.length =
      capped maxToAdmit (min (g.maxMembers - d.members.length).toNat d.candidates.length) ∧
    x = .ok (admitted.map (·.userId)) ∧ d'.users = d.users ++ admitted.map (·.userId)

/-- The service, run alone with nothing failing by call `pid`, can end like this. -/
def Invites.Outcome {α : Type} (missing : OnMissing) (pid : ℕ) (m : Invites.Service α)
    (w : Invites.World) (x : Except Exc α) (w' : Invites.World) : Prop :=
  Alone (Invites.working missing) pid (m ()) w (x, ()) w'

/-- **An admission makes progress**: run alone it comes to an end, and takes the candidates in. -/
def AdmissionProgresses (missing : OnMissing) (pid : ℕ) (maxToAdmit : Option ℤ) (g : GroupRow)
    (w : Invites.World) : Prop :=
  (∃ x w', Invites.Outcome missing pid (Invites.onMembers (admitFromWaitlist maxToAdmit)) w x w') ∧
    ∀ x w', Invites.Outcome missing pid (Invites.onMembers (admitFromWaitlist maxToAdmit)) w x w' →
      TakesCandidates g maxToAdmit w.members.tables x w'.members.tables

/-! ### Progress -/

theorem admissionPlaces_eq_capped :
    admissionPlaces g d maxToAdmit = capped maxToAdmit (g.maxMembers - d.members.length).toNat := by
  cases maxToAdmit with
  | none => rfl
  | some cap =>
    simp only [admissionPlaces, admissionLimit, capped]
    omega

theorem capped_min (m n : ℕ) : capped maxToAdmit (min m n) = min (capped maxToAdmit m) n := by
  cases maxToAdmit with
  | none => rfl
  | some cap =>
    simp only [capped]
    omega

/-- A free front is the beginning of the candidates. -/
theorem front_of_frontIsFree (hfree : FrontIsFree g d maxToAdmit) :
    d.front g maxToAdmit <+: d.candidates ∧ (d.front g maxToAdmit).length =
      capped maxToAdmit (min (g.maxMembers - d.members.length).toNat d.candidates.length) := by
  rw [capped_min, ← admissionPlaces_eq_capped]
  generalize hsorted : d.waiting.insertionSort (fun a b => a.position ≤ b.position) = sorted
  have hfront : d.front g maxToAdmit = sorted.take (admissionPlaces g d maxToAdmit) := by
    rw [Tables.front, Tables.nextWaiting, hsorted]
  have hkept : (d.front g maxToAdmit).filter (fun e => e.userId ∉ d.users) = d.front g maxToAdmit :=
    List.filter_eq_self.mpr fun e he => decide_eq_true (hfree e he)
  have hcandidates : d.candidates = d.front g maxToAdmit ++
      (sorted.drop (admissionPlaces g d maxToAdmit)).filter (fun e => e.userId ∉ d.users) := by
    rw [Tables.candidates, hsorted]
    conv_lhs => rw [← List.take_append_drop (admissionPlaces g d maxToAdmit) sorted]
    rw [List.filter_append, ← hfront, hkept]
  refine ⟨⟨_, hcandidates.symm⟩, ?_⟩
  have hle := List.length_filter_le (fun e : WaitlistEntry => e.userId ∉ d.users)
    (sorted.drop (admissionPlaces g d maxToAdmit))
  have hlength := congrArg List.length hcandidates
  rw [List.length_append] at hlength
  rw [List.length_drop] at hle
  have htake := congrArg List.length hfront
  rw [List.length_take] at htake
  omega

theorem users_commit_admission (entries : List WaitlistEntry) (n : ℤ) :
    (d.commit missing (admissionWrites entries n)).users = d.users ++ entries.map (·.userId) := by
  obtain ⟨new, hnew, husers, -⟩ := members_view missing d (takesIn_admissionWrites entries n)
  change (d.view missing (admissionWrites entries n)).members.map _ = _
  rw [hnew, List.map_append, husers, insertedUser_admissionWrites]
  rfl

/-- What a call whose operations are forced comes to, in a world with invites. -/
theorem outcome_of_comes {α : Type} {m : Service α} (hm : Routine.Uses (Forced (working missing) pid) m)
    {v : Invites.World} {x : Except Exc α} {P : World → Prop}
    (h : Comes (working missing) pid m x P () v.members) :
    (∃ v', Invites.Outcome missing pid (Invites.onMembers m) v x v') ∧
      ∀ y v', Invites.Outcome missing pid (Invites.onMembers m) v y v' → y = x ∧ P v'.members := by
  obtain ⟨w', halone, hP⟩ := h
  refine ⟨?_, fun y v' hy => ?_⟩
  · obtain ⟨v', hv', -⟩ := (Invites.carries_members missing).alone_via halone
    exact ⟨v', hv'⟩
  · obtain ⟨heq, rfl⟩ := Alone.unique (hm ()) halone
      ((Invites.carries_members missing).alone hy)
    exact ⟨(Prod.mk.inj heq).1.symm, hP⟩

/-- A member in the front stops the admission. -/
theorem not_admissionProgresses_of_member {v : Invites.World} (hidle : Idle v.members)
    (hgroup : v.members.tables.group = some g)
    (hmember : ¬ FrontIsFree g v.members.tables maxToAdmit) :
    ¬ AdmissionProgresses missing pid maxToAdmit g v := by
  rintro ⟨-, hall⟩
  have hrefused : Comes (working missing) pid (admitFromWaitlist maxToAdmit) _ _ () v.members :=
    comes_admitFromWaitlist_refused hidle hgroup hmember
  obtain ⟨⟨v', hv'⟩, -⟩ := outcome_of_comes (forced_admitFromWaitlist maxToAdmit) hrefused
  obtain ⟨admitted, -, -, hx, -⟩ := hall _ v' hv'
  cases hx

/-- **When admissions make progress**: in every state that the calls on the members and the invites
of a group can reach, an admission takes in the first candidates exactly when none of the first
entries, for which there are places, belongs to a member. -/
theorem admissionProgresses_iff (missing : OnMissing) (maxWaitlist : ℤ) {d : Tables}
    {invites : List Invites.GroupInvite} (hd : Invites.Fresh d) {s : Invites.InvitesState}
    (hs : (Invites.system missing maxWaitlist).Reachable (.init (Invites.started d invites)) s)
    (hidle : Idle s.hist.world.members) {g : GroupRow}
    (hgroup : s.hist.world.members.tables.group = some g) (maxToAdmit : Option ℤ) :
    AdmissionProgresses missing s.started maxToAdmit g s.hist.world ↔
      FrontIsFree g s.hist.world.members.tables maxToAdmit := by
  have hfiled := (Invites.known_of_reachable missing maxWaitlist hd hs).filed
  have hdistinct : Distinct s.hist.world.members.tables :=
    ⟨hfiled.keyed.nodup, by rw [users_applications]; exact hfiled.users⟩
  constructor
  · intro hprogress
    by_contra hmember
    exact not_admissionProgresses_of_member hidle hgroup hmember hprogress
  · intro hfree
    have hcomes : Comes (working missing) s.started (admitFromWaitlist maxToAdmit) _ _ ()
        s.hist.world.members := comes_admitFromWaitlist hidle hdistinct hgroup hfree
    obtain ⟨⟨v', hv'⟩, hall⟩ := outcome_of_comes (forced_admitFromWaitlist maxToAdmit) hcomes
    refine ⟨⟨_, v', hv'⟩, fun y v' hy => ?_⟩
    obtain ⟨rfl, htables⟩ := hall y v' hy
    obtain ⟨hfirst, hlength⟩ := front_of_frontIsFree hfree
    exact ⟨_, hfirst, hlength, rfl, by rw [htables, users_commit_admission]⟩

namespace Invites.Sample

/-- A full group of two, two users who wait, and an invite. -/
def full : Tables where
  group := some { id := 0, name := "group", adminWallet := "G0", minMembers := 1, maxMembers := 2 }
  members := [{ id := 0, userId := 0, walletAddress := "G0", payoutOrder := some 0 },
    { id := 1, userId := 1, walletAddress := "G1", payoutOrder := some 1 }]
  waitlist := [{ id := 0, userId := 2, walletAddress := "G2", position := 1 },
    { id := 1, userId := 3, walletAddress := "G3", position := 2 }]
  issued := [0, 1]
  nextEntry := 2

/-- The invite. -/
def invite : GroupInvite where
  id := 0
  code := "code"
  expiresAt := 1

/-- `n` operations of call `pid` that are done. -/
def dones (pid n : ℕ) : List (Move Choice Call) := List.replicate n (.run pid (.members .done))

/-- The first member is removed. -/
def removal : List (Move Choice Call) :=
  .start (.members (.removeMember 0)) :: dones 0 3 ++ [.finish 0]

/-- Then the first who waits joins by the invite, and the second member is removed. -/
def joinedElsewhere : List (Move Choice Call) :=
  removal ++
    .start (.joinByCode "code" 2 "G2") :: dones 1 2 ++ [.run 1 (.time 0)] ++ dones 1 5 ++ [.finish 1] ++
    .start (.members (.removeMember 1)) :: dones 2 3 ++ [.finish 2]

/-- The state after a schedule. -/
def after (ms : List (Move Choice Call)) : InvitesState :=
  ((system .ignores 50).replay (fun _ _ => True) (.init (started full [invite])) ms).getD
    (.init (started full [invite]))

theorem reachable_after (ms : List (Move Choice Call))
    (h : ((system .ignores 50).replay (fun _ _ => True) (.init (started full [invite])) ms).isSome) :
    (system .ignores 50).Reachable (.init (started full [invite])) (after ms) := by
  obtain ⟨s, hs⟩ := Option.isSome_iff_exists.mp h
  have hafter : after ms = s := by rw [after, hs, Option.getD_some]
  exact hafter ▸ System.reachableWhen_of_replay hs

end Invites.Sample

/-- When a member has left, the first who waits is admitted. -/
theorem admissionProgresses_sample : AdmissionProgresses .ignores 1 none
    { id := 0, name := "group", adminWallet := "G0", minMembers := 1, maxMembers := 2 }
    (Invites.Sample.after Invites.Sample.removal).hist.world := by
  have hfresh : Invites.Fresh Invites.Sample.full := ⟨⟨by decide, by decide⟩, by decide, rfl⟩
  have hs := Invites.Sample.reachable_after Invites.Sample.removal (by decide +kernel)
  exact (admissionProgresses_iff .ignores 50 hfresh hs ⟨by decide +kernel, fun id => rfl⟩ rfl
    none).mpr (by decide +kernel)

/-- When the first who waits has become a member by an invite, a place that is free then stays so,
though somebody waits for it. -/
theorem not_admissionProgresses : ¬ ∀ s : Invites.InvitesState,
    (Invites.system .ignores 50).Reachable
      (.init (Invites.started Invites.Sample.full [Invites.Sample.invite])) s →
    Idle s.hist.world.members → ∀ g, s.hist.world.members.tables.group = some g →
      AdmissionProgresses .ignores s.started none g s.hist.world := by
  intro hall
  have hs := Invites.Sample.reachable_after Invites.Sample.joinedElsewhere (by decide +kernel)
  have hidle : Idle (Invites.Sample.after Invites.Sample.joinedElsewhere).hist.world.members :=
    ⟨by decide +kernel, fun id => rfl⟩
  exact not_admissionProgresses_of_member hidle rfl (by decide +kernel) (hall _ hs hidle _ rfl)

end Ahjoor.Members
