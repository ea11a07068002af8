import Ahjoor.Members.Admission
import Ahjoor.Members.Direct

/-!
# Joining the waitlist again

`joinWaitlist` looks for an entry of the user that waits, while the table takes one entry for each
user, whatever its status. So only those can join who never had an entry: whoever has left the
waitlist, or was admitted and has left the group, is refused by the constraint.
-/

namespace Ahjoor.Members

open Async

variable {missing : OnMissing} {pid : ℕ} {w : World} {d : Tables}

/-! ### The join -/

/-- The user may expect to join: the group is full, its waitlist is not, and the user neither is a
member nor waits. -/
structure MayJoin (maxWaitlist : ℤ) (userId : Uuid) (d : Tables) : Prop where
  full : ∃ g, d.group = some g ∧ g.maxMembers ≤ (d.members.length : ℤ)
  room : (d.waiting.length : ℤ) < maxWaitlist
  notMember : userId ∉ d.users
  notWaiting : userId ∉ d.waiting.map (·.userId)

instance (maxWaitlist : ℤ) (userId : Uuid) (d : Tables) : Decidable (MayJoin maxWaitlist userId d) :=
  decidable_of_iff ((d.group.any fun g => decide (g.maxMembers ≤ (d.members.length : ℤ))) = true ∧
      (d.waiting.length : ℤ) < maxWaitlist ∧ userId ∉ d.users ∧ userId ∉ d.waiting.map (·.userId)) <| by
    rw [Option.any_eq_true]
    simp only [decide_eq_true_eq]
    exact ⟨fun ⟨h₁, h₂, h₃, h₄⟩ => ⟨h₁, h₂, h₃, h₄⟩, fun h => ⟨h.full, h.room, h.notMember, h.notWaiting⟩⟩

variable {maxWaitlist : ℤ} {userId : Uuid} {walletAddress : String}

/-- The join comes down to its insert. -/
theorem comes_joinWaitlist (hw : Idle w) (h : MayJoin maxWaitlist userId w.tables)
    {x : Except Exc ℕ} {P : World → Prop}
    (hinsert : Comes (working missing) pid (do
      db (.write (.insertEntry
        { id := 0, userId, walletAddress, position := (w.tables.waiting.length : ℕ) + 1 }))
      pure (w.tables.waiting.length + 1)) x P () w) :
    Comes (working missing) pid (joinWaitlist maxWaitlist userId walletAddress) x P () w := by
  obtain ⟨⟨g, hgroup, hfull⟩, hroom, hmember, hwaiting⟩ := h
  have hnoMember : w.tables.members.find? (·.userId = userId) = none :=
    List.find?_eq_none.mpr fun m hm huser =>
      hmember (List.mem_map.mpr ⟨m, hm, of_decide_eq_true huser⟩)
  have hnoEntry : w.tables.waiting.find? (·.userId = userId) = none :=
    List.find?_eq_none.mpr fun e he huser =>
      hwaiting (List.mem_map.mpr ⟨e, he, of_decide_eq_true huser⟩)
  refine Comes.bind (comes_db_read hw (q := .findGroup) rfl (congrArg Except.ok hgroup)) ?_
  rintro _ rfl
  refine Comes.bind (R := (w = ·)) (Comes.pure rfl) ?_
  rintro _ rfl
  refine Comes.bind (comes_db_read hw (q := .findMember userId) rfl (congrArg Except.ok hnoMember)) ?_
  rintro _ rfl
  refine Comes.bind (R := (w = ·)) (Comes.throwWhen rfl rfl) ?_
  rintro _ rfl
  refine Comes.bind (comes_db_read hw (q := .findWaiting userId) rfl (congrArg Except.ok hnoEntry)) ?_
  rintro _ rfl
  refine Comes.bind (R := (w = ·)) (Comes.throwWhen rfl rfl) ?_
  rintro _ rfl
  refine Comes.bind (comes_db_read hw (q := .countMembers) rfl rfl) ?_
  rintro _ rfl
  refine Comes.bind (R := (w = ·))
    (Comes.throwWhen (decide_eq_false (not_lt.mpr hfull)) rfl) ?_
  rintro _ rfl
  refine Comes.bind (comes_db_read hw (q := .countWaiting) rfl rfl) ?_
  rintro _ rfl
  refine Comes.bind (R := (w = ·))
    (Comes.throwWhen (decide_eq_false (not_le.mpr hroom)) rfl) ?_
  rintro _ rfl
  exact hinsert

/-- Who has no entry gets one. -/
theorem comes_joinWaitlist_ok (hw : Idle w) (h : MayJoin maxWaitlist userId w.tables)
    (hnew : userId ∉ w.tables.waitlist.map (·.userId)) :
    Comes (working missing) pid (joinWaitlist maxWaitlist userId walletAddress)
      (.ok (w.tables.waiting.length + 1)) (fun _ => True) () w := by
  let entry : WaitlistEntry :=
    { id := 0, userId, walletAddress, position := (w.tables.waiting.length : ℕ) + 1 }
  have hinsert : Comes (working missing) pid (db (.write (.insertEntry entry))) _ _ () w :=
    comes_db hw (.write (.insertEntry entry))
  have haccepted : (Query.write (.insertEntry entry)).read missing w.tables = .ok () := by
    have hconflict : w.tables.conflict missing (.insertEntry entry) = none := if_neg hnew
    simp only [Query.read, hconflict]
  rw [haccepted] at hinsert
  exact comes_joinWaitlist hw h (Comes.bind hinsert fun w' _ => Comes.pure trivial)

/-- Who has one, whatever its status, is refused. -/
theorem comes_joinWaitlist_refused (hw : Idle w) (h : MayJoin maxWaitlist userId w.tables)
    (hold : userId ∈ w.tables.waitlist.map (·.userId)) :
    Comes (working missing) pid (joinWaitlist maxWaitlist userId walletAddress)
      (.error (.uniqueViolation "UQ_group_waitlist_group_user")) (fun _ => True) () w := by
  let entry : WaitlistEntry :=
    { id := 0, userId, walletAddress, position := (w.tables.waiting.length : ℕ) + 1 }
  have hinsert : Comes (working missing) pid (db (.write (.insertEntry entry))) _ _ () w :=
    comes_db hw (.write (.insertEntry entry))
  have hrefused : (Query.write (.insertEntry entry)).read missing w.tables =
      .error (.uniqueViolation "UQ_group_waitlist_group_user") := by
    have hconflict : w.tables.conflict missing (.insertEntry entry) =
        some "UQ_group_waitlist_group_user" := if_pos hold
    simp only [Query.read, hconflict]
  rw [hrefused] at hinsert
  exact comes_joinWaitlist hw h (Comes.bind_error (hinsert.mono fun _ _ => trivial))

theorem forced_joinWaitlist (maxWaitlist : ℤ) (userId : Uuid) (walletAddress : String) :
    Routine.Uses (Forced (working missing) pid) (joinWaitlist maxWaitlist userId walletAddress) :=
  uses_joinWaitlist (fun _ _ => forced_of_isForced rfl) (fun _ => forced_of_isForced rfl) _ _ _

/-! ### What is claimed -/

/-- **The user can join the waitlist**: run alone the call comes to an end, and it returns a
position. -/
def Joins (missing : OnMissing) (pid : ℕ) (maxWaitlist : ℤ) (userId : Uuid) (walletAddress : String)
    (w : Invites.World) : Prop :=
  (∃ x w', Invites.Outcome missing pid
      (Invites.onMembers (joinWaitlist maxWaitlist userId walletAddress)) w x w') ∧
    ∀ x w', Invites.Outcome missing pid
        (Invites.onMembers (joinWaitlist maxWaitlist userId walletAddress)) w x w' →
      ∃ position, x = .ok position

/-- Who has an entry cannot join. -/
theorem not_joins_of_entry {v : Invites.World} (hidle : Idle v.members)
    (hmay : MayJoin maxWaitlist userId v.members.tables)
    (hold : userId ∈ v.members.tables.waitlist.map (·.userId)) :
    ¬ Joins missing pid maxWaitlist userId walletAddress v := by
  rintro ⟨-, hall⟩
  have hcomes : Comes (working missing) pid (joinWaitlist maxWaitlist userId walletAddress) _ _ ()
      v.members := comes_joinWaitlist_refused hidle hmay hold
  obtain ⟨⟨v', hv'⟩, -⟩ := outcome_of_comes (forced_joinWaitlist _ _ _) hcomes
  obtain ⟨position, hx⟩ := hall _ v' hv'
  cases hx

/-- **Who can join the waitlist**: in every state that the calls on the members and the invites of a
group can reach, a user who may expect to join can do so exactly when the waitlist had no entry of
the user at first, and no join of the user has been stored since. -/
theorem joins_iff (missing : OnMissing) (maxWaitlist : ℤ) {d : Tables}
    {invites : List Invites.GroupInvite} (hd : Invites.Fresh d) {s : Invites.InvitesState}
    (hs : (Invites.system missing maxWaitlist).Reachable (.init (Invites.started d invites)) s)
    (hidle : Idle s.hist.world.members) {userId : Uuid}
    (hmay : MayJoin maxWaitlist userId s.hist.world.members.tables) (walletAddress : String) :
    Joins missing s.started maxWaitlist userId walletAddress s.hist.world ↔
      userId ∉ d.waitlist.map (·.userId) ∧
        ¬ JoinedIn s.hist.world.members.tables.log userId := by
  have hjoined := (Invites.known_of_reachable missing maxWaitlist hd hs).filed.joined userId
  rw [← users_applications, ← users_applications] at hjoined
  rw [← not_or, ← hjoined]
  constructor
  · exact fun hjoins hold => not_joins_of_entry hidle hmay hold hjoins
  · intro hnew
    have hcomes : Comes (working missing) s.started
        (joinWaitlist maxWaitlist userId walletAddress) _ _ () s.hist.world.members :=
      comes_joinWaitlist_ok hidle hmay hnew
    obtain ⟨⟨v', hv'⟩, hall⟩ := outcome_of_comes (forced_joinWaitlist _ _ _) hcomes
    exact ⟨⟨_, v', hv'⟩, fun x w' hx => ⟨_, (hall x w' hx).1⟩⟩

namespace Invites.Sample

/-- A third user joins the waitlist of the full group, and leaves it. -/
def joinedAndLeft : List (Move Choice Call) :=
  .start (.members (.joinWaitlist 4 "G4")) :: dones 0 6 ++ [.finish 0] ++
    .start (.members (.leaveWaitlist 4)) :: dones 1 3 ++ [.finish 1]

end Invites.Sample

/-- A user who has never joined can join behind the two who wait. -/
theorem joins_sample : Joins .ignores 2 50 5 "G5"
    (Invites.Sample.after Invites.Sample.joinedAndLeft).hist.world := by
  have hfresh : Invites.Fresh Invites.Sample.full := ⟨⟨by decide, by decide⟩, by decide, rfl⟩
  have hs := Invites.Sample.reachable_after Invites.Sample.joinedAndLeft (by decide +kernel)
  exact (joins_iff .ignores 50 hfresh hs ⟨by decide +kernel, fun id => rfl⟩ (by decide +kernel)
    "G5").mpr ⟨by decide, by decide +kernel⟩

/-- Who has left the waitlist cannot join it again. -/
theorem not_joins : ¬ ∀ s : Invites.InvitesState,
    (Invites.system .ignores 50).Reachable
      (.init (Invites.started Invites.Sample.full [Invites.Sample.invite])) s →
    Idle s.hist.world.members → ∀ userId, MayJoin 50 userId s.hist.world.members.tables →
      ∀ walletAddress, Joins .ignores s.started 50 userId walletAddress s.hist.world := by
  intro hall
  have hs := Invites.Sample.reachable_after Invites.Sample.joinedAndLeft (by decide +kernel)
  have hidle : Idle (Invites.Sample.after Invites.Sample.joinedAndLeft).hist.world.members :=
    ⟨by decide +kernel, fun id => rfl⟩
  have hmay : MayJoin 50 4
      (Invites.Sample.after Invites.Sample.joinedAndLeft).hist.world.members.tables := by
    decide +kernel
  exact not_joins_of_entry hidle hmay (by decide +kernel) (hall _ hs hidle 4 hmay "G4")

end Ahjoor.Members
