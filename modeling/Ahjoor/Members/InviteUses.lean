import Ahjoor.Members.Applications

/-!
# The uses of an invite

`joinByCode` counts the use of the invite, marks the invite when it is used up, and inserts the
membership, in one transaction that holds the lock of the invite from its first read to its commit.
So the three go together however joins and expiries interleave: the counter of an invite is the
number of memberships that were created through it, and nobody else changes the invite meanwhile.
Only the time is not held: it has been read under the lock, and goes on until the commit.
-/

namespace Ahjoor.Members.Invites

open Async

/-! ### What the log of a join says -/

/-- The invite lets somebody in at an instant. -/
structure Admitting (invite : GroupInvite) (now : ℤ) : Prop where
  active : invite.status = .active
  unexpired : now ≤ invite.expiresAt
  unused : invite.usedCount < invite.maxUses

/-- The transaction has begun. -/
def begunLog : Log Op.Ret := [⟨.members .startTransaction, .ok ()⟩]

/-- The join has locked the invite. -/
def lockedLog (code : String) (invite : GroupInvite) : Log Op.Ret :=
  ⟨.lockInvite code, .ok (some invite)⟩ :: begunLog

/-- The join has read the clock. -/
def timedLog (code : String) (invite : GroupInvite) (now : ℤ) : Log Op.Ret :=
  ⟨.now, now⟩ :: lockedLog code invite

/-- The join has looked for a membership of the user. -/
def lookedLog (code : String) (userId : Uuid) (invite : GroupInvite) (now : ℤ)
    (existing : Option Member) : Log Op.Ret :=
  ⟨.members (.tx (.findMember userId)), .ok existing⟩ :: timedLog code invite now

/-- The join has counted the use. -/
def countedLog (code : String) (userId : Uuid) (invite : GroupInvite) (now : ℤ) : Log Op.Ret :=
  ⟨.updateInvite (.incrementUsedCount invite.id), .ok ()⟩ :: lookedLog code userId invite now none

/-- The join has marked the invite if it is used up. -/
def markedLog (code : String) (userId : Uuid) (invite : GroupInvite) (now : ℤ) : Log Op.Ret :=
  if invite.maxUses ≤ invite.usedCount + 1 then
    ⟨.updateInvite (.updateStatus invite.id .exhausted), .ok ()⟩ :: countedLog code userId invite now
  else countedLog code userId invite now

/-- The membership that a join inserts. -/
def joiner (userId : Uuid) (walletAddress : String) : Member :=
  { id := 0, userId, walletAddress, payoutOrder := none }

/-- The join has inserted the membership. -/
def joinedLog (code : String) (userId : Uuid) (walletAddress : String) (invite : GroupInvite)
    (now : ℤ) : Log Op.Ret :=
  ⟨.members (.tx (.write (.insertMember (joiner userId walletAddress)))), .ok ()⟩ ::
    markedLog code userId invite now

/-- **What a join does next.** -/
inductive Joining (code : String) (userId : Uuid) (walletAddress : String) : Log Op.Ret → Op → Prop
  | start : Joining code userId walletAddress [] (.members .startTransaction)
  | lock : Joining code userId walletAddress begunLog (.lockInvite code)
  | time (invite : GroupInvite) :
      Joining code userId walletAddress (lockedLog code invite) .now
  | look {invite : GroupInvite} {now : ℤ} (h : Admitting invite now) :
      Joining code userId walletAddress (timedLog code invite now) (.members (.tx (.findMember userId)))
  | count {invite : GroupInvite} {now : ℤ} (h : Admitting invite now) :
      Joining code userId walletAddress (lookedLog code userId invite now none)
        (.updateInvite (.incrementUsedCount invite.id))
  | mark {invite : GroupInvite} {now : ℤ} (h : Admitting invite now)
      (hlast : invite.maxUses ≤ invite.usedCount + 1) :
      Joining code userId walletAddress (countedLog code userId invite now)
        (.updateInvite (.updateStatus invite.id .exhausted))
  | insert {invite : GroupInvite} {now : ℤ} (h : Admitting invite now) :
      Joining code userId walletAddress (markedLog code userId invite now)
        (.members (.tx (.write (.insertMember (joiner userId walletAddress)))))
  /-- the user has been a member before -/
  | commitExisting (invite : GroupInvite) (now : ℤ) (member : Member) :
      Joining code userId walletAddress (lookedLog code userId invite now (some member))
        (.members .commitTransaction)
  | commit {invite : GroupInvite} {now : ℤ} (h : Admitting invite now) :
      Joining code userId walletAddress (joinedLog code userId walletAddress invite now)
        (.members .commitTransaction)
  | rollback (L : Log Op.Ret) : Joining code userId walletAddress L (.members .rollbackTransaction)

/-- What a call does next. -/
inductive Acting : Call → Log Op.Ret → Op → Prop
  | members (c : Members.Call) (L : Log Op.Ret) (o : Members.Op) : Acting (.members c) L (.members o)
  | time (L : Log Op.Ret) : Acting .expireStaleInvites L .now
  | expire (L : Log Op.Ret) (now : ℤ) : Acting .expireStaleInvites L (.expireInvites now)
  | join {code : String} {userId : Uuid} {walletAddress : String} {L : Log Op.Ret} {o : Op}
      (h : Joining code userId walletAddress L o) : Acting (.joinByCode code userId walletAddress) L o

/-- The body of the transaction is done. -/
inductive JoinDone (code : String) (userId : Uuid) (walletAddress : String) : Log Op.Ret → Prop
  | existing (invite : GroupInvite) (now : ℤ) (member : Member) :
      JoinDone code userId walletAddress (lookedLog code userId invite now (some member))
  | joined {invite : GroupInvite} {now : ℤ} (h : Admitting invite now) :
      JoinDone code userId walletAddress (joinedLog code userId walletAddress invite now)

theorem JoinDone.commits {code : String} {userId : Uuid} {walletAddress : String} {L : Log Op.Ret}
    (h : JoinDone code userId walletAddress L) :
    Joining code userId walletAddress L (.members .commitTransaction) := by
  cases h with
  | existing invite now member => exact .commitExisting invite now member
  | joined h => exact .commit h

theorem obeys_onMembers_tx {D : Log Op.Ret → Op → Prop} {q : Query} {L : Log Op.Ret}
    {Q : q.Ret → Unit → Log Op.Ret → Prop} (hD : D L (Op.members (.tx q)))
    (hok : ∀ r, Q r () (⟨Op.members (.tx q), .ok r⟩ :: L)) :
    Obeys D (onMembers (tx q)) Q (fun _ _ _ => True) () L :=
  Obeys.call (o := Op.members (.tx q)) hD fun r => by
    cases r with
    | error e => trivial
    | ok r => exact hok r

theorem obeys_joiningInvite (code : String) (userId : Uuid) (walletAddress : String) :
    Obeys (Joining code userId walletAddress) (joinByInvite code userId walletAddress)
      (fun _ _ L => JoinDone code userId walletAddress L) (fun _ _ _ => True) () begunLog := by
  refine Obeys.bind (Obeys.call .lock fun r => ?_)
  cases r with
  | error e => trivial
  | ok found =>
  refine Obeys.bind (Obeys.valueOr (fun invite hfound => ?_) fun _ => trivial)
  subst hfound
  refine Obeys.bind (Obeys.throwWhen (fun _ => trivial) fun hstatus => ?_)
  refine Obeys.bind (Obeys.perform (.time invite) fun now : ℤ => ?_)
  refine Obeys.bind (Obeys.throwWhen (fun _ => trivial) fun hexpired => ?_)
  refine Obeys.bind (Obeys.throwWhen (fun _ => trivial) fun hused => ?_)
  have hadmitting : Admitting invite now := by
    refine ⟨?_, not_lt.mp (of_decide_eq_false hexpired), not_le.mp (of_decide_eq_false hused)⟩
    exact not_not.mp (of_decide_eq_false hstatus)
  refine Obeys.bind (obeys_onMembers_tx (.look hadmitting) fun existing => ?_)
  cases existing with
  | some membership => exact Obeys.pure (.existing invite now membership)
  | none =>
  refine Obeys.bind (Obeys.call (.count hadmitting) fun r => ?_)
  cases r with
  | error e => trivial
  | ok a =>
  have hinsert : Obeys (Joining code userId walletAddress) (do
      onMembers (tx (.write (.insertMember { id := 0, userId, walletAddress, payoutOrder := none })))
      pure Joined.created) (fun _ _ L => JoinDone code userId walletAddress L) (fun _ _ _ => True) ()
      (markedLog code userId invite now) := by
    exact Obeys.bind (obeys_onMembers_tx (.insert hadmitting) fun _ => Obeys.pure (.joined hadmitting))
  refine Obeys.bind ?_
  split
  next hlast =>
    refine Obeys.call (.mark hadmitting hlast) fun r => ?_
    cases r with
    | error e => trivial
    | ok a =>
      rw [markedLog, if_pos hlast] at hinsert
      exact hinsert
  next hlast =>
    rw [markedLog, if_neg hlast] at hinsert
    exact Obeys.pure hinsert

/-- A call on the members performs operations on the members. -/
theorem obeys_membersCall (c : Members.Call) (maxWaitlist : ℤ) :
    Obeys (Acting (.members c)) ((Call.members c).body maxWaitlist) Anyhow Anyhow () [] := by
  have hbody : Obeys (fun _ _ => True) (c.body maxWaitlist) (fun _ _ _ => True) (fun _ _ _ => True)
      () (([] : Log Op.Ret).filterMap membersEntry) :=
    Obeys.of_forall (fun _ _ _ => trivial) (fun _ _ _ _ => trivial) (fun _ _ _ _ => trivial) _
  have hD : ∀ (L : Log Op.Ret) (o : Members.Op), True → Acting (.members c) L (.members o) :=
    fun L o _ => .members c L o
  have hacting : Obeys (Acting (.members c)) (onMembers (c.body maxWaitlist)) Anyhow Anyhow () [] :=
    ⟨(hbody.follows.via membersEntry (fun _ _ => rfl) hD).mono fun
      | (.ok _, _), _, _ => trivial
      | (.error _, _), _, _ => trivial⟩
  exact Obeys.bind (hacting.mono (fun _ _ _ _ => Obeys.pure trivial) fun _ _ _ _ => trivial)

theorem obeys_acting (maxWaitlist : ℤ) (c : Call) :
    Obeys (Acting c) (c.body maxWaitlist) Anyhow Anyhow () [] := by
  cases c with
  | members c => exact obeys_membersCall c maxWaitlist
  | expireStaleInvites =>
    refine Obeys.bind (Obeys.bind (Obeys.perform (.time []) fun now : ℤ => ?_))
    refine Obeys.call (.expire _ now) fun r => ?_
    cases r with
    | error e => trivial
    | ok n => exact Obeys.pure trivial
  | joinByCode code userId walletAddress =>
    have hrollback : ∀ (e : Exc) L, Obeys (Joining code userId walletAddress) (do
        Routine.call (.members .rollbackTransaction) fun _ => .ok ()
        throw e : Service Joined) Anyhow Anyhow () L := fun e L =>
      Obeys.bind (Obeys.call (.rollback L) fun _ => Obeys.throw trivial)
    have hjoin : Obeys (Joining code userId walletAddress)
        (Invites.joinByCode code userId walletAddress) Anyhow Anyhow () [] := by
      refine Obeys.bind (Obeys.call .start fun r => ?_)
      cases r with
      | error e => trivial
      | ok a =>
      refine Obeys.tryCatch (Obeys.bind ((obeys_joiningInvite code userId walletAddress).mono
        (fun result _ L hdone => ?_) fun e _ L _ => hrollback e L))
      refine Obeys.bind (Obeys.call hdone.commits fun r => ?_)
      cases r with
      | error e => exact hrollback e _
      | ok b => exact Obeys.pure trivial
    have hacting : Obeys (Acting (.joinByCode code userId walletAddress))
        (Invites.joinByCode code userId walletAddress) Anyhow Anyhow () [] :=
      ⟨hjoin.follows.weaken fun L o h => .join h⟩
    exact Obeys.bind (hacting.mono (fun _ _ _ _ => Obeys.pure trivial) fun _ _ _ _ => trivial)

theorem follows_acting (missing : OnMissing) (maxWaitlist : ℤ) (c : Call) :
    Follows (Acting c) (fun _ _ => True) ((system missing maxWaitlist).body c) [] :=
  (obeys_acting maxWaitlist c).follows.bind fun _ _ _ => trivial

/-! ### What a transaction holds back -/

/-- The write on the members that an operation holds back. -/
def heldWrite : Entry Op.Ret → List Write
  | ⟨.members (.tx (.write x)), .ok _⟩ => [x]
  | _ => []

/-- The update of an invite that an operation holds back. -/
def heldUpdate : Entry Op.Ret → List InviteWrite
  | ⟨.updateInvite x, .ok _⟩ => [x]
  | _ => []

/-- The invite that an operation locks. -/
def lockedInvite : Entry Op.Ret → Option GroupInvite
  | ⟨.lockInvite _, .ok found⟩ => found
  | _ => none

/-- **The transaction of a join is what its log says**, if it is open: it holds back what the join
has written, and the invites that the join has locked are as they were. -/
structure Tracks (w : World) (pid : ℕ) (L : Log Op.Ret) : Prop where
  writes : ∀ xs, w.members.pending pid = some xs → xs = L.reverse.flatMap heldWrite
  updates : ∀ xs, w.members.pending pid = some xs → w.pendingInvites pid = L.reverse.flatMap heldUpdate
  locks : ∀ xs, w.members.pending pid = some xs → ∀ invite ∈ L.filterMap lockedInvite,
    w.inviteHolder invite.id = some pid ∧ invite ∈ w.invites
  closed : w.members.pending pid = none → w.pendingInvites pid = []

section Transactions

variable {missing : OnMissing} {pid p : ℕ} {choice : Choice} {w w' : World} {o : Op} {r : o.Ret}

/-- A step of `pid` leaves the transaction of `p` alone, or drops it. -/
structure Spares (p : ℕ) (w w' : World) : Prop where
  transaction : (w'.members.pending p = w.members.pending p ∧ w'.pendingInvites p = w.pendingInvites p) ∨
    (w'.members.pending p = none ∧ w'.pendingInvites p = [])
  holder : w'.members.pending p ≠ none → ∀ id, w.inviteHolder id = some p → w'.inviteHolder id = some p

theorem Tracks.spared {L : Log Op.Ret} (ht : Tracks w p L) (hs : Spares p w w')
    (hinvites : ∀ invite ∈ w.invites, w.inviteHolder invite.id = some p → invite ∈ w'.invites) :
    Tracks w' p L := by
  rcases hs.transaction with ⟨hpending, hupdates⟩ | ⟨hpending, hupdates⟩
  · refine ⟨fun xs hxs => ht.writes xs (hpending ▸ hxs), fun xs hxs => ?_, fun xs hxs invite hi => ?_,
      fun hnone => ?_⟩
    · exact hupdates.trans (ht.updates xs (hpending ▸ hxs))
    · obtain ⟨hholder, hmem⟩ := ht.locks xs (hpending ▸ hxs) invite hi
      have hopen : w'.members.pending p ≠ none := by
        rw [hxs]
        exact nofun
      exact ⟨hs.holder hopen _ hholder, hinvites invite hmem hholder⟩
    · exact hupdates.trans (ht.closed (hpending ▸ hnone))
  · have hclosed : ∀ xs, w'.members.pending p ≠ some xs := fun xs hxs =>
      absurd (hpending.symm.trans hxs) nofun
    exact ⟨fun xs hxs => absurd hxs (hclosed xs), fun xs hxs => absurd hxs (hclosed xs),
      fun xs hxs => absurd hxs (hclosed xs), fun _ => hupdates⟩

/-- Somebody else's operation on the members. -/
theorem pending_of_ne {o : Members.Op} {choice : Members.Choice} {v v' : Members.World} {r : o.Ret}
    (hp : p ≠ pid) (h : Members.exec missing o pid choice v = some (r, v')) :
    v'.pending p = v.pending p ∨ (o = .dropSession p ∧ v'.pending p = none) := by
  have hhold : ∀ xs, (v.hold pid xs).pending p = v.pending p := fun xs => Function.update_of_ne hp _ _
  have hrelease : (v.release pid).pending p = v.pending p := Function.update_of_ne hp _ _
  cases o with
  | db q => rcases exec_db h with ⟨rfl, -⟩ | ⟨-, rfl, -⟩ <;> exact .inl rfl
  | startTransaction =>
    rcases exec_startTransaction h with ⟨rfl, -⟩ | ⟨-, rfl⟩
    · exact .inl rfl
    · exact .inl (hhold _)
  | lockGroup => rcases exec_lockGroup h with ⟨rfl, -⟩ | ⟨-, -, -, -, rfl⟩ <;> exact .inl rfl
  | lockWaiting limit => rcases exec_lockWaiting h with ⟨rfl, -⟩ | ⟨-, -, -, -, rfl⟩ <;> exact .inl rfl
  | tx q =>
    rcases exec_tx h with ⟨rfl, -⟩ | ⟨-, -, -, rfl⟩
    · exact .inl rfl
    · exact .inl (hhold _)
  | commitTransaction =>
    rcases exec_commitTransaction h with ⟨rfl, -⟩ | ⟨xs, -, rfl, -⟩
    · exact .inl hrelease
    · exact .inl (Function.update_of_ne hp _ _)
  | rollbackTransaction =>
    rcases exec_rollbackTransaction h with rfl | rfl
    · exact .inl rfl
    · exact .inl hrelease
  | dropSession q =>
    obtain rfl := exec_dropSession h
    by_cases hq : p = q
    · subst hq
      exact .inr ⟨rfl, pending_release_self v p⟩
    · exact .inl (Function.update_of_ne hq _ _)
  | notify n =>
    obtain rfl := exec_external (o := .notify n) rfl h
    exact .inl rfl
  | deployRoscaContract group =>
    obtain rfl := exec_external (o := .deployRoscaContract group) rfl h
    exact .inl rfl
  | dispatchEvent event =>
    obtain rfl := exec_external (o := .dispatchEvent event) rfl h
    exact .inl rfl

/-- What an operation on the members does to the invites. -/
theorem settle_cases (w : World) (pid : ℕ) (o : Members.Op) (choice : Members.Choice) :
    (w.settle pid o choice = w ∧ ∀ q, o ≠ .dropSession q) ∨
      (w.settle pid o choice = w.releaseInvites pid ∧ ∀ q, o ≠ .dropSession q) ∨
      (o = .commitTransaction ∧
        w.settle pid o choice = (w.commitInvites pid).releaseInvites pid) ∨
      ∃ q, o = .dropSession q ∧ w.settle pid o choice = w.releaseInvites q := by
  cases o with
  | commitTransaction =>
    cases choice with
    | fails msg => exact .inr (.inl ⟨rfl, nofun⟩)
    | _ => exact .inr (.inr (.inl ⟨rfl, rfl⟩))
  | startTransaction =>
    cases choice with
    | done => exact .inr (.inl ⟨rfl, nofun⟩)
    | _ => exact .inl ⟨rfl, nofun⟩
  | rollbackTransaction =>
    cases choice with
    | done => exact .inr (.inl ⟨rfl, nofun⟩)
    | _ => exact .inl ⟨rfl, nofun⟩
  | dropSession q => exact .inr (.inr (.inr ⟨q, rfl, rfl⟩))
  | _ => exact .inl ⟨rfl, nofun⟩

theorem pendingInvites_release (w : World) {q : ℕ} (hp : p ≠ q) :
    (w.releaseInvites q).pendingInvites p = w.pendingInvites p :=
  Function.update_of_ne hp _ _

theorem inviteHolder_release {q : ℕ} {id : Uuid} (hp : p ≠ q) (h : w.inviteHolder id = some p) :
    (w.releaseInvites q).inviteHolder id = some p := by
  have hne : w.inviteHolder id ≠ some q := fun heq => hp (Option.some.inj (h.symm.trans heq))
  exact (if_neg hne).trans h

theorem exec_members_settle {o : Members.Op} {r : o.Ret}
    (h : exec missing (.members o) pid choice w = some (r, w')) :
    ∃ choice' v, Members.exec missing o pid choice' w.members = some (r, v) ∧
      w' = { w.settle pid o choice' with members := v } := by
  obtain ⟨choice', rfl, hexec⟩ := exec_members h
  have hcarried := (exec_members_of (w := w) hexec).symm.trans h
  exact ⟨choice', _, hexec, (Prod.mk.inj (Option.some.inj hcarried)).2.symm⟩

/-- **Nobody but its own call touches a transaction**, except to drop it. -/
theorem spares_of_exec (hp : p ≠ pid) (h : exec missing o pid choice w = some (r, w')) :
    Spares p w w' := by
  have hsame : ∀ {u : World}, u.members = w.members → u.pendingInvites p = w.pendingInvites p →
      (∀ id, w.inviteHolder id = some p → u.inviteHolder id = some p) → Spares p w u :=
    fun hmembers hupdates hholder =>
      ⟨.inl ⟨congrArg (fun v => v.pending p) hmembers, hupdates⟩, fun _ => hholder⟩
  cases o with
  | members o =>
    obtain ⟨choice', v, hexec, rfl⟩ := exec_members_settle h
    have hpending := pending_of_ne hp hexec
    rcases settle_cases w pid o choice' with ⟨heq, hdrop⟩ | ⟨heq, hdrop⟩ | ⟨rfl, heq⟩ | ⟨q, rfl, heq⟩
    · exact ⟨.inl ⟨hpending.resolve_right fun h => hdrop p h.1, congrArg (·.pendingInvites p) heq⟩,
        fun _ id hid => by rw [heq]; exact hid⟩
    · refine ⟨.inl ⟨hpending.resolve_right fun h => hdrop p h.1, ?_⟩, fun _ id hid => ?_⟩
      · rw [heq]
        exact pendingInvites_release w hp
      · rw [heq]
        exact inviteHolder_release hp hid
    · refine ⟨.inl ⟨hpending.resolve_right fun h => absurd h.1 nofun, ?_⟩, fun _ id hid => ?_⟩
      · rw [heq]
        exact pendingInvites_release (w.commitInvites pid) hp
      · rw [heq]
        exact inviteHolder_release (w := w.commitInvites pid) hp hid
    · by_cases hq : p = q
      · subst hq
        have hnone : v.pending p = none := by
          rw [exec_dropSession hexec]
          exact pending_release_self ..
        refine ⟨.inr ⟨hnone, ?_⟩, fun hopen => absurd hnone hopen⟩
        rw [heq]
        exact Function.update_self ..
      · have hother : Members.Op.dropSession q ≠ .dropSession p := fun h =>
          hq (Members.Op.dropSession.inj h).symm
        refine ⟨.inl ⟨hpending.resolve_right fun h => hother h.1, ?_⟩, fun _ id hid => ?_⟩
        · rw [heq]
          exact pendingInvites_release w hq
        · rw [heq]
          exact inviteHolder_release hq hid
  | lockInvite code =>
    rcases exec_lockInvite h with ⟨rfl, -⟩ | ⟨-, -, -, ⟨-, rfl⟩ | ⟨invite, -, hheld, rfl⟩⟩
    · exact hsame rfl rfl fun _ hid => hid
    · exact hsame rfl rfl fun _ hid => hid
    · refine hsame rfl rfl fun id hid => ?_
      have hne : id ≠ invite.id := by
        rintro rfl
        rw [World.inviteHeld, hid] at hheld
        exact absurd (of_decide_eq_false hheld) (not_not.mpr hp)
      exact (Function.update_of_ne hne _ _).trans hid
  | updateInvite x =>
    rcases exec_updateInvite h with ⟨rfl, -⟩ | ⟨-, -, -, -, rfl⟩
    · exact hsame rfl rfl fun _ hid => hid
    · exact hsame rfl (Function.update_of_ne hp _ _) fun _ hid => hid
  | expireInvites now =>
    rcases exec_expireInvites h with ⟨rfl, -⟩ | ⟨-, rfl⟩ <;> exact hsame rfl rfl fun _ hid => hid
  | now =>
    obtain ⟨-, rfl⟩ := exec_now h
    exact hsame rfl rfl fun _ hid => hid

/-- A commit drops the transaction with its updates, or applies both. -/
theorem exec_commit {r : Except Exc Unit}
    (h : exec missing (.members .commitTransaction) pid choice w = some (r, w')) :
    (w'.members.pending pid = none ∧ w'.pendingInvites pid = []) ∧
      ((w'.invites = w.invites ∧ w'.members.tables = w.members.tables) ∨
        ∃ xs, w.members.pending pid = some xs ∧
          w'.invites = applyAll w.invites (w.pendingInvites pid) ∧
          w'.members.tables = w.members.tables.commit missing xs) := by
  obtain ⟨choice', v, hexec, rfl⟩ := exec_members_settle h
  cases choice' with
  | fails msg =>
    cases hexec
    exact ⟨⟨pending_release_self .., Function.update_self ..⟩, .inl ⟨rfl, rfl⟩⟩
  | deployed contractAddress => cases hexec
  | _ =>
    obtain ⟨xs, hxs, heq⟩ := Option.map_eq_some_iff.mp hexec
    cases heq
    exact ⟨⟨pending_release_self .., Function.update_self ..⟩, .inr ⟨xs, hxs, rfl, rfl⟩⟩

/-- An operation of the transaction of `pid` that does not end it. -/
theorem Tracks.extend {L : Log Op.Ret} {e : Entry Op.Ret} (ht : Tracks w pid L)
    (hpending : w'.members.pending pid = (w.members.pending pid).map (· ++ heldWrite e))
    (hupdates : w'.pendingInvites pid = w.pendingInvites pid ++ heldUpdate e)
    (hopen : heldUpdate e ≠ [] → w.members.pending pid ≠ none)
    (hlocked : ∀ invite, lockedInvite e = some invite → w'.inviteHolder invite.id = some pid ∧
      (w.members.pending pid ≠ none → invite ∈ w.invites))
    (hholder : ∀ id, w.inviteHolder id = some pid → w'.inviteHolder id = some pid)
    (hinvites : w'.invites = w.invites) : Tracks w' pid (e :: L) := by
  have hopened : ∀ xs', w'.members.pending pid = some xs' →
      ∃ xs, w.members.pending pid = some xs ∧ xs ++ heldWrite e = xs' := fun xs' hxs' =>
    Option.map_eq_some_iff.mp (hpending.symm.trans hxs')
  refine ⟨fun xs' hxs' => ?_, fun xs' hxs' => ?_, fun xs' hxs' invite hinvite => ?_, fun hnone => ?_⟩
  · obtain ⟨xs, hxs, rfl⟩ := hopened xs' hxs'
    rw [List.reverse_cons, List.flatMap_append, ← ht.writes xs hxs, List.flatMap_singleton]
  · obtain ⟨xs, hxs, -⟩ := hopened xs' hxs'
    rw [List.reverse_cons, List.flatMap_append, ← ht.updates xs hxs, List.flatMap_singleton, hupdates]
  · obtain ⟨xs, hxs, -⟩ := hopened xs' hxs'
    rw [hinvites]
    cases he : lockedInvite e with
    | none =>
      rw [List.filterMap_cons_none he] at hinvite
      obtain ⟨hheld, hmem⟩ := ht.locks xs hxs invite hinvite
      exact ⟨hholder _ hheld, hmem⟩
    | some locked =>
      rw [List.filterMap_cons_some he] at hinvite
      rcases List.mem_cons.mp hinvite with rfl | hinvite
      · obtain ⟨hheld, hmem⟩ := hlocked _ he
        exact ⟨hheld, hmem (hxs ▸ nofun)⟩
      · obtain ⟨hheld, hmem⟩ := ht.locks xs hxs invite hinvite
        exact ⟨hholder _ hheld, hmem⟩
  · have hclosed : w.members.pending pid = none := Option.map_eq_none_iff.mp (hpending.symm.trans hnone)
    have hnothing : heldUpdate e = [] := by
      by_contra hne
      exact hopen hne hclosed
    rw [hupdates, ht.closed hclosed, hnothing, List.append_nil]

/-- An operation that neither holds anything back nor locks anything. -/
theorem Tracks.quiet {L : Log Op.Ret} {e : Entry Op.Ret} (ht : Tracks w pid L)
    (he : heldWrite e = [] ∧ heldUpdate e = [] ∧ lockedInvite e = none)
    (hpending : w'.members.pending pid = w.members.pending pid)
    (hupdates : w'.pendingInvites pid = w.pendingInvites pid)
    (hholder : w'.inviteHolder = w.inviteHolder) (hinvites : w'.invites = w.invites) :
    Tracks w' pid (e :: L) := by
  obtain ⟨hwrite, hupdate, hlock⟩ := he
  refine ht.extend ?_ ?_ (fun hne => absurd hupdate hne) (fun invite hi => ?_) (fun id hid => ?_) hinvites
  · simpa [hwrite] using hpending
  · rw [hupdate, List.append_nil, hupdates]
  · rw [hlock] at hi
    cases hi
  · rw [hholder]
    exact hid

theorem Tracks.ended {L : Log Op.Ret} (hpending : w.members.pending pid = none)
    (hupdates : w.pendingInvites pid = []) : Tracks w pid L := by
  have hclosed : ∀ xs, w.members.pending pid ≠ some xs := fun xs hxs =>
    absurd (hpending.symm.trans hxs) nofun
  exact ⟨fun xs hxs => absurd hxs (hclosed xs), fun xs hxs => absurd hxs (hclosed xs),
    fun xs hxs => absurd hxs (hclosed xs), fun _ => hupdates⟩

theorem Tracks.begin (hpending : w.members.pending pid = some [])
    (hupdates : w.pendingInvites pid = []) : Tracks w pid begunLog := by
  refine ⟨fun xs hxs => ?_, fun xs hxs => hupdates, fun xs hxs invite hi => ?_, fun hnone => hupdates⟩
  · exact (Option.some.inj (hpending.symm.trans hxs)).symm
  · cases hi

/-- An operation inside the transaction of a call leaves the invites alone. -/
theorem settle_tx {q : Query} {choice : Members.Choice} :
    w.settle pid (.tx q) choice = w := by
  cases choice <;> rfl

theorem Tracks.tx {q : Query} {r : Except Exc q.Ret} {L : Log Op.Ret} (ht : Tracks w pid L)
    (hwrites : ∀ v, q.read missing v = r → (q.writes missing v).toList =
      heldWrite ⟨.members (.tx q), r⟩)
    (herror : ∀ e, r = .error e → heldWrite ⟨.members (.tx q), r⟩ = [])
    (h : exec missing (.members (.tx q)) pid choice w = some (r, w')) :
    Tracks w' pid (⟨.members (.tx q), r⟩ :: L) := by
  obtain ⟨choice', v, hexec, rfl⟩ := exec_members_settle h
  rw [settle_tx]
  rcases exec_tx hexec with ⟨rfl, e, he⟩ | ⟨xs, hxs, hr, rfl⟩
  · exact ht.quiet ⟨herror e he, rfl, rfl⟩ rfl rfl rfl rfl
  · refine ht.extend ?_ (List.append_nil _).symm (fun hne => absurd rfl hne) nofun (fun _ h => h) rfl
    rw [← hwrites _ hr.symm, hxs]
    exact pending_hold ..

/-- **Each operation of a join** keeps its transaction to its log. -/
theorem Tracks.step {code : String} {userId : Uuid} {walletAddress : String} {L : Log Op.Ret}
    (ht : Tracks w pid L) (hj : Joining code userId walletAddress L o)
    (h : exec missing o pid choice w = some (r, w')) : Tracks w' pid (⟨o, r⟩ :: L) := by
  have hcommit : ∀ {L : Log Op.Ret} {r : Except Exc Unit},
      exec missing (.members .commitTransaction) pid choice w = some (r, w') →
        Tracks w' pid (⟨.members .commitTransaction, r⟩ :: L) := fun h =>
    .ended (exec_commit h).1.1 (exec_commit h).1.2
  have hupdate : ∀ {L : Log Op.Ret} {x : InviteWrite} {r : Except Exc Unit}, Tracks w pid L →
      exec missing (.updateInvite x) pid choice w = some (r, w') →
        Tracks w' pid (⟨.updateInvite x, r⟩ :: L) := by
    intro L x r ht h
    rcases exec_updateInvite h with ⟨rfl, e, rfl⟩ | ⟨xs, hxs, -, rfl, rfl⟩
    · exact ht.quiet ⟨rfl, rfl, rfl⟩ rfl rfl rfl rfl
    · refine ht.extend ?_ (Function.update_self ..) (fun _ => hxs ▸ nofun) nofun (fun _ h => h) rfl
      rw [hxs]
      exact congrArg some (List.append_nil xs).symm
  cases hj with
  | start =>
    obtain ⟨choice', v, hexec, rfl⟩ := exec_members_settle h
    cases choice' with
    | done =>
      cases hexec
      exact .begin (pending_hold ..) (Function.update_self ..)
    | fails msg =>
      cases hexec
      exact ht.quiet ⟨rfl, rfl, rfl⟩ rfl rfl rfl rfl
    | _ => cases hexec
  | lock =>
    rcases exec_lockInvite h with ⟨rfl, e, rfl⟩ | ⟨xs, hxs, hfound, hlocked⟩
    · exact ht.quiet ⟨rfl, rfl, rfl⟩ rfl rfl rfl rfl
    rcases hlocked with ⟨rfl, rfl⟩ | ⟨invite, rfl, -, rfl⟩
    · exact ht.quiet ⟨rfl, rfl, rfl⟩ rfl rfl rfl rfl
    · refine ht.extend ?_ (List.append_nil _).symm (fun hne => absurd rfl hne) (fun invite' hi => ?_)
        (fun id hid => ?_) rfl
      · rw [hxs]
        exact congrArg some (List.append_nil xs).symm
      · obtain rfl : invite = invite' := Option.some.inj hi
        refine ⟨Function.update_self .., fun _ => ?_⟩
        rw [ht.updates xs hxs] at hfound
        exact List.mem_of_find?_eq_some (Except.ok.inj hfound).symm
      · by_cases hsame : id = invite.id
        · exact hsame ▸ Function.update_self ..
        · exact (Function.update_of_ne hsame _ _).trans hid
  | time invite =>
    obtain ⟨-, rfl⟩ := exec_now h
    exact ht.quiet ⟨rfl, rfl, rfl⟩ rfl rfl rfl rfl
  | look hadmitting => exact ht.tx (fun _ _ => rfl) (fun _ _ => rfl) h
  | count hadmitting => exact hupdate ht h
  | mark hadmitting hlast => exact hupdate ht h
  | insert hadmitting =>
    refine ht.tx (fun v hread => ?_) (fun e he => ?_) h
    · simp only [Query.read] at hread
      simp only [Query.writes]
      split at hread <;> subst hread <;> simp_all [heldWrite]
    · subst he
      rfl
  | commitExisting invite now member => exact hcommit h
  | commit hadmitting => exact hcommit h
  | rollback L =>
    obtain ⟨choice', v, hexec, rfl⟩ := exec_members_settle h
    cases choice' with
    | done =>
      cases hexec
      exact .ended (pending_release_self ..) (Function.update_self ..)
    | fails msg =>
      cases hexec
      exact ht.quiet ⟨rfl, rfl, rfl⟩ rfl rfl rfl rfl
    | _ => cases hexec

/-- An operation of a join that is not its commit changes no row. -/
theorem still_of_joining {code : String} {userId : Uuid} {walletAddress : String} {L : Log Op.Ret}
    (hj : Joining code userId walletAddress L o) (h : exec missing o pid choice w = some (r, w')) :
    (w'.invites = w.invites ∧ w'.members.tables = w.members.tables) ∨
      o = .members .commitTransaction := by
  have htx : ∀ {q : Query} {r : Except Exc q.Ret},
      exec missing (.members (.tx q)) pid choice w = some (r, w') →
        w'.invites = w.invites ∧ w'.members.tables = w.members.tables := by
    intro q r h
    obtain ⟨choice', v, hexec, rfl⟩ := exec_members_settle h
    rw [settle_tx]
    rcases exec_tx hexec with ⟨rfl, -⟩ | ⟨-, -, -, rfl⟩ <;> exact ⟨rfl, rfl⟩
  have hupdate : ∀ {x : InviteWrite} {r : Except Exc Unit},
      exec missing (.updateInvite x) pid choice w = some (r, w') →
        w'.invites = w.invites ∧ w'.members.tables = w.members.tables := by
    intro x r h
    rcases exec_updateInvite h with ⟨rfl, -⟩ | ⟨-, -, -, -, rfl⟩ <;> exact ⟨rfl, rfl⟩
  cases hj with
  | start =>
    obtain ⟨choice', v, hexec, rfl⟩ := exec_members_settle h
    cases choice' with
    | done =>
      cases hexec
      exact .inl ⟨rfl, rfl⟩
    | fails msg =>
      cases hexec
      exact .inl ⟨rfl, rfl⟩
    | _ => cases hexec
  | lock =>
    rcases exec_lockInvite h with ⟨rfl, -⟩ | ⟨-, -, -, ⟨-, rfl⟩ | ⟨-, -, -, rfl⟩⟩ <;> exact .inl ⟨rfl, rfl⟩
  | time invite =>
    obtain ⟨-, rfl⟩ := exec_now h
    exact .inl ⟨rfl, rfl⟩
  | look hadmitting => exact .inl (htx h)
  | count hadmitting => exact .inl (hupdate h)
  | mark hadmitting hlast => exact .inl (hupdate h)
  | insert hadmitting => exact .inl (htx h)
  | commitExisting invite now member => exact .inr rfl
  | commit hadmitting => exact .inr rfl
  | rollback L =>
    obtain ⟨choice', v, hexec, rfl⟩ := exec_members_settle h
    cases choice' with
    | done =>
      cases hexec
      exact .inl ⟨rfl, rfl⟩
    | fails msg =>
      cases hexec
      exact .inl ⟨rfl, rfl⟩
    | _ => cases hexec

/-- What an operation does to the invites: nothing, or the updates of its transaction, or the
expiry of the stale ones, which nobody else has locked. -/
theorem invites_of_exec (h : exec missing o pid choice w = some (r, w')) :
    w'.invites = w.invites ∨ w'.invites = applyAll w.invites (w.pendingInvites pid) ∨
      ∃ now, o = .expireInvites now ∧
        (∀ invite ∈ w.invites, invite.isStale now = true → w.inviteHeld pid invite.id = false) ∧
        w'.invites = w.invites.map fun invite =>
          if invite.isStale now then { invite with status := .expired } else invite := by
  cases o with
  | members o =>
    obtain ⟨choice', v, -, rfl⟩ := exec_members_settle h
    have hinvites : ∀ u : World, w.settle pid o choice' = u →
        ({ w.settle pid o choice' with members := v } : World).invites = u.invites := by
      rintro u rfl
      rfl
    rcases settle_cases w pid o choice' with ⟨heq, -⟩ | ⟨heq, -⟩ | ⟨-, heq⟩ | ⟨q, -, heq⟩
    · exact .inl (hinvites w heq)
    · exact .inl (hinvites (w.releaseInvites pid) heq)
    · exact .inr (.inl (hinvites _ heq))
    · exact .inl (hinvites (w.releaseInvites q) heq)
  | lockInvite code =>
    rcases exec_lockInvite h with ⟨rfl, -⟩ | ⟨-, -, -, ⟨-, rfl⟩ | ⟨-, -, -, rfl⟩⟩ <;> exact .inl rfl
  | updateInvite x => rcases exec_updateInvite h with ⟨rfl, -⟩ | ⟨-, -, -, -, rfl⟩ <;> exact .inl rfl
  | expireInvites now =>
    rcases exec_expireInvites h with ⟨rfl, -⟩ | ⟨hfree, rfl⟩
    · exact .inl rfl
    · exact .inr (.inr ⟨now, rfl, hfree, rfl⟩)
  | now =>
    obtain ⟨-, rfl⟩ := exec_now h
    exact .inl rfl

/-- Updates of other invites leave an invite alone. -/
theorem mem_applyAll {invites : List GroupInvite} {invite : GroupInvite} (hi : invite ∈ invites)
    {xs : List InviteWrite} (hxs : ∀ x ∈ xs, x.id ≠ invite.id) : invite ∈ applyAll invites xs := by
  induction xs generalizing invites with
  | nil => exact hi
  | cons x xs ih =>
    refine ih (List.mem_map.mpr ⟨invite, hi, ?_⟩) fun y hy => hxs y (List.mem_cons_of_mem _ hy)
    have hne := hxs x List.mem_cons_self
    cases x with
    | incrementUsedCount id => exact if_neg fun heq => hne heq.symm
    | updateStatus id status => exact if_neg fun heq => hne heq.symm

/-- **A locked invite is left alone** by everybody else. -/
theorem mem_invites_of_exec (hheld : ∀ x ∈ w.pendingInvites pid, w.inviteHolder x.id = some pid)
    (hp : p ≠ pid) (h : exec missing o pid choice w = some (r, w')) (invite : GroupInvite)
    (hi : invite ∈ w.invites) (hholder : w.inviteHolder invite.id = some p) : invite ∈ w'.invites := by
  rcases invites_of_exec h with heq | heq | ⟨now, -, hfree, heq⟩ <;> rw [heq]
  · exact hi
  · refine mem_applyAll hi fun x hx hsame => hp ?_
    exact Option.some.inj (hholder.symm.trans (hsame ▸ hheld x hx))
  · refine List.mem_map.mpr ⟨invite, hi, if_neg fun hstale => ?_⟩
    have hblocked := hfree invite hi hstale
    rw [World.inviteHeld, hholder] at hblocked
    exact absurd (of_decide_eq_false hblocked) (not_not.mpr hp)

/-- A join holds back updates of invites only that it has locked. -/
theorem Tracks.held {code : String} {userId : Uuid} {walletAddress : String} {L : Log Op.Ret}
    (ht : Tracks w pid L) (hlawful : Lawful (Acting (.joinByCode code userId walletAddress)) L)
    {x : InviteWrite} (hx : x ∈ w.pendingInvites pid) : w.inviteHolder x.id = some pid := by
  cases hpending : w.members.pending pid with
  | none =>
    rw [ht.closed hpending] at hx
    cases hx
  | some xs =>
  rw [ht.updates xs hpending] at hx
  obtain ⟨e, he, hxe⟩ := List.mem_flatMap.mp hx
  obtain ⟨L', hL', hacting⟩ := hlawful.allowed (List.mem_reverse.mp he)
  have hlocked : ∀ invite, invite ∈ L'.filterMap lockedInvite → w.inviteHolder invite.id = some pid :=
    fun invite hi => (ht.locks xs hpending invite
      (((List.suffix_cons _ _).trans hL').sublist.filterMap _ |>.subset hi)).1
  obtain ⟨o, r⟩ := e
  cases hacting with
  | join hj =>
    cases hj with
    | @count invite now hadmitting =>
      cases r with
      | error e => cases hxe
      | ok a =>
        obtain rfl := List.mem_singleton.mp hxe
        exact hlocked invite List.mem_cons_self
    | @mark invite now hadmitting hlast =>
      cases r with
      | error e => cases hxe
      | ok a =>
        obtain rfl := List.mem_singleton.mp hxe
        exact hlocked invite List.mem_cons_self
    | insert hadmitting => cases r <;> cases hxe
    | _ => cases hxe

end Transactions

/-! ### The memberships that an invite has created -/

/-- The history of a run. -/
abbrev History := Hist Op.Ret World Call (Except Exc Reply)

/-- The events of a run, newest first. -/
abbrev Events := List (Event Op.Ret World Call (Except Exc Reply))

/-- The call is a join. -/
def Call.Joins (c : Call) : Prop := ∃ code userId walletAddress, c = .joinByCode code userId walletAddress

/-- The call `pid` joins by the code. -/
def joinsBy (code : String) (pid : ℕ) (es : Events) : Bool :=
  es.any fun
    | .start p (.joinByCode code' _ _) => p = pid ∧ code' = code
    | _ => false

/-- A step that has created a membership: its call, and the world and the events before it. -/
structure Creation where
  pid : ℕ
  before : World
  past : Events

/-- **The memberships that were created by a code**: a step of a join adds as many as it issues keys
of memberships. -/
def creations (code : String) : World → Events → List Creation
  | _, [] => []
  | after, .did pid _ _ before :: es =>
      (if joinsBy code pid es then
        List.replicate (after.members.tables.issued.length - before.members.tables.issued.length)
          ⟨pid, before, es⟩
      else []) ++ creations code before es
  | after, _ :: es => creations code after es

theorem joinsBy_eq_true {code : String} {pid : ℕ} {es : Events} :
    joinsBy code pid es = true ↔
      ∃ userId walletAddress, Event.start pid (.joinByCode code userId walletAddress) ∈ es := by
  rw [joinsBy, List.any_eq_true]
  constructor
  · rintro ⟨e, he, h⟩
    split at h
    next p code' userId walletAddress =>
      obtain ⟨rfl, rfl⟩ := of_decide_eq_true h
      exact ⟨userId, walletAddress, he⟩
    next => cases h
  · rintro ⟨userId, walletAddress, he⟩
    exact ⟨_, he, decide_eq_true ⟨rfl, rfl⟩⟩

section Creations

variable {code : String} {pid : ℕ} {o : Op} {r : o.Ret} {w w' : World} {es : Events}

theorem creations_of_not_joinsBy (h : joinsBy code pid es = false) :
    creations code w' (.did pid o r w :: es) = creations code w es := by
  simp [creations, h]

theorem creations_of_tables (h : w'.members.tables = w.members.tables) :
    creations code w' (.did pid o r w :: es) = creations code w es := by
  simp [creations, h]

theorem creations_of_join (hjoins : joinsBy code pid es = true)
    (h : w'.members.tables.issued.length = w.members.tables.issued.length + 1) :
    creations code w' (.did pid o r w :: es) = ⟨pid, w, es⟩ :: creations code w es := by
  simp [creations, h, hjoins]

theorem creations_idle {e : Event Op.Ret World Call (Except Exc Reply)}
    (he : ∀ pid es, log pid (e :: es) = log pid es) : creations code w (e :: es) = creations code w es := by
  cases e with
  | did p o r w₀ =>
    have hcons := (log_did_self p o r w₀ es).symm.trans (he p es)
    exact absurd hcons (List.cons_ne_self _ _)
  | start p c => rfl
  | returned p a => rfl
  | crashed p => rfl

end Creations

/-! ### Accounts -/

/-- The books of an invite are right, if the memberships in the list were created by it. -/
structure Account (invite : GroupInvite) (created : List Creation) : Prop where
  counted : (created.length : ℤ) = invite.usedCount
  limited : invite.usedCount ≤ invite.maxUses
  exhausted : invite.status = .exhausted ↔ invite.usedCount = invite.maxUses

/-- The membership was created while the invite was active and had not expired. -/
def Creation.Timely (code : String) (m : Creation) : Prop :=
  ∃ invite ∈ m.before.invites, invite.code = code ∧ invite.status = .active ∧
    m.before.clock ≤ invite.expiresAt

/-- The membership was created while the invite was active, by a call that has found it not expired
after it has locked it. -/
def Creation.Admitted (code : String) (m : Creation) : Prop :=
  ∃ invite ∈ m.before.invites, invite.code = code ∧ invite.status = .active ∧
    ∃ now : ℤ, now ≤ invite.expiresAt ∧
      [⟨.now, now⟩, ⟨.lockInvite code, .ok (some invite)⟩] <:+: log m.pid m.past

/-- What an invite never changes. -/
def GroupInvite.terms (invite : GroupInvite) : Uuid × String × ℤ × ℤ :=
  (invite.id, invite.code, invite.maxUses, invite.expiresAt)

/-- Invites that nobody has used yet. -/
structure Unused (invites : List GroupInvite) : Prop where
  ids : (invites.map (·.id)).Nodup
  codes : (invites.map (·.code)).Nodup
  state : ∀ invite ∈ invites, invite.status = .active ∧ invite.usedCount = 0 ∧ 1 ≤ invite.maxUses

/-- **The books are right**, and the transactions are what their logs say. -/
structure Booked (invites : List GroupInvite) (h : History) : Prop where
  terms : h.world.invites.map (·.terms) = invites.map (·.terms)
  tracks : ∀ pid, (∀ c, Event.start pid c ∈ h.trace → c.Joins) → Tracks h.world pid (log pid h.trace)
  foreign : ∀ pid c, Event.start pid c ∈ h.trace → ¬ c.Joins → h.world.pendingInvites pid = []
  coded : ∀ pid code invite, ⟨.lockInvite code, .ok (some invite)⟩ ∈ log pid h.trace → invite.code = code
  account : ∀ invite ∈ h.world.invites, Account invite (creations invite.code h.world h.trace)
  admitted : ∀ code, ∀ m ∈ creations code h.world h.trace, m.Admitted code

/-! ### One use -/

/-- The updates by which a join uses an invite. -/
def uses (invite : GroupInvite) : List InviteWrite :=
  .incrementUsedCount invite.id ::
    if invite.maxUses ≤ invite.usedCount + 1 then [.updateStatus invite.id .exhausted] else []

/-- The invite, once it is used. -/
def GroupInvite.used (invite : GroupInvite) : GroupInvite :=
  { invite with
    usedCount := invite.usedCount + 1
    status := if invite.maxUses ≤ invite.usedCount + 1 then .exhausted else invite.status }

theorem heldUpdate_joinedLog (code : String) (userId : Uuid) (walletAddress : String)
    (invite : GroupInvite) (now : ℤ) :
    (joinedLog code userId walletAddress invite now).reverse.flatMap heldUpdate = uses invite := by
  rw [joinedLog, markedLog, uses]
  split <;> rfl

theorem heldWrite_joinedLog (code : String) (userId : Uuid) (walletAddress : String)
    (invite : GroupInvite) (now : ℤ) :
    (joinedLog code userId walletAddress invite now).reverse.flatMap heldWrite =
      [.insertMember (joiner userId walletAddress)] := by
  rw [joinedLog, markedLog]
  split <;> rfl

/-- A use changes the invite that is used, and no other. -/
theorem mem_applyAll_uses {invites : List GroupInvite} {invite i : GroupInvite}
    (hids : (invites.map (·.id)).Nodup) (hinvite : invite ∈ invites)
    (hi : i ∈ applyAll invites (uses invite)) :
    i = invite.used ∨ (i ∈ invites ∧ i.id ≠ invite.id) := by
  have hsame : ∀ j ∈ invites, j.id = invite.id → j = invite := fun j hj hid =>
    List.inj_on_of_nodup_map hids hj hinvite hid
  rw [uses] at hi
  by_cases hlast : invite.maxUses ≤ invite.usedCount + 1
  · rw [if_pos hlast] at hi
    simp only [applyAll, List.foldl_cons, List.foldl_nil, List.mem_map, InviteWrite.apply] at hi
    obtain ⟨_, ⟨j, hj, rfl⟩, rfl⟩ := hi
    by_cases hid : j.id = invite.id
    · obtain rfl := hsame j hj hid
      simp [GroupInvite.used, hlast]
    · exact .inr (by simpa [hid] using hj)
  · rw [if_neg hlast] at hi
    simp only [applyAll, List.foldl_cons, List.foldl_nil, List.mem_map, InviteWrite.apply] at hi
    obtain ⟨j, hj, rfl⟩ := hi
    by_cases hid : j.id = invite.id
    · obtain rfl := hsame j hj hid
      simp [GroupInvite.used, hlast]
    · exact .inr (by simpa [hid] using hj)

theorem Account.use {invite : GroupInvite} {now : ℤ} {created : List Creation} (m : Creation)
    (ha : Account invite created) (hadmitting : Admitting invite now) :
    Account invite.used (m :: created) := by
  have hcounted := ha.counted
  have hunused := hadmitting.unused
  refine ⟨?_, ?_, ?_⟩
  · rw [List.length_cons]
    push_cast
    exact congrArg (· + 1) hcounted
  · exact hunused
  · change (if _ then _ else _) = _ ↔ invite.usedCount + 1 = invite.maxUses
    rw [hadmitting.active]
    split
    next hlast => exact iff_of_true rfl (le_antisymm hunused hlast)
    next hlast => exact iff_of_false nofun fun heq => hlast heq.ge

/-- An expiry leaves the books right. -/
theorem Account.expire {invite : GroupInvite} {now : ℤ} {created : List Creation}
    (ha : Account invite created) :
    Account (if invite.isStale now then { invite with status := .expired } else invite) created := by
  split
  next hstale =>
    refine ⟨ha.counted, ha.limited, iff_of_false nofun fun hfull => ?_⟩
    have hexhausted := ha.exhausted.mpr hfull
    have hactive : invite.status = .active := (of_decide_eq_true hstale).1
    exact absurd (hactive.symm.trans hexhausted) nofun
  next => exact ha

theorem terms_applyAll (invites : List GroupInvite) (xs : List InviteWrite) :
    (applyAll invites xs).map (·.terms) = invites.map (·.terms) := by
  induction xs generalizing invites with
  | nil => rfl
  | cons x xs ih =>
    refine (ih _).trans ?_
    rw [List.map_map]
    refine List.map_congr_left fun invite _ => ?_
    cases x with
    | _ => simp only [Function.comp_apply, InviteWrite.apply]; split <;> rfl

theorem terms_expire (invites : List GroupInvite) (now : ℤ) :
    (invites.map fun invite => if invite.isStale now then { invite with status := .expired }
      else invite).map (·.terms) = invites.map (·.terms) := by
  rw [List.map_map]
  refine List.map_congr_left fun invite _ => ?_
  simp only [Function.comp_apply]
  split <;> rfl

/-! ### The books through a run -/

section Booked

variable {missing : OnMissing} {invites : List GroupInvite} {h : History} {pid : ℕ} {c : Call} {o : Op}
  {choice : Choice} {r : o.Ret} {w : World} {Q : Call → Except Exc Reply → Log Op.Ret → Prop}

theorem Booked.tracks_of_start (hb : Booked invites h) (hd : Disciplined Acting Q h)
    (hstart : Event.start pid c ∈ h.trace) (hc : c.Joins) : Tracks h.world pid (log pid h.trace) :=
  hb.tracks pid fun _ hc' => hd.start_unique pid _ _ hstart hc' ▸ hc

theorem Booked.held (hb : Booked invites h) (hd : Disciplined Acting Q h)
    (hstart : Event.start pid c ∈ h.trace) :
    ∀ x ∈ h.world.pendingInvites pid, h.world.inviteHolder x.id = some pid := by
  intro x hx
  by_cases hc : c.Joins
  · have htracks := hb.tracks_of_start hd hstart hc
    obtain ⟨code, userId, walletAddress, rfl⟩ := hc
    exact htracks.held (hd.lawful pid _ hstart) hx
  · rw [hb.foreign pid c hstart hc] at hx
    cases hx

/-- A call that is not a join holds no updates back. -/
theorem pendingInvites_of_acting (hc : ¬ c.Joins) {L : Log Op.Ret} (hD : Acting c L o)
    (hnone : h.world.pendingInvites pid = []) (hexec : exec missing o pid choice h.world = some (r, w)) :
    w.pendingInvites pid = [] := by
  have hrelease : ∀ (u : World) (q : ℕ), u.pendingInvites pid = [] →
      (u.releaseInvites q).pendingInvites pid = [] := by
    intro u q hu
    by_cases hq : pid = q
    · subst hq
      exact Function.update_self ..
    · exact (pendingInvites_release u hq).trans hu
  cases hD with
  | members c L o =>
    obtain ⟨choice', v, -, rfl⟩ := exec_members_settle hexec
    have hsettle : ∀ u : World, h.world.settle pid o choice' = u → u.pendingInvites pid = [] →
        ({ h.world.settle pid o choice' with members := v } : World).pendingInvites pid = [] := by
      rintro u rfl hu
      exact hu
    rcases settle_cases h.world pid o choice' with ⟨heq, -⟩ | ⟨heq, -⟩ | ⟨-, heq⟩ | ⟨q, -, heq⟩
    · exact hsettle _ heq hnone
    · exact hsettle _ heq (hrelease _ _ hnone)
    · exact hsettle _ heq (hrelease _ _ hnone)
    · exact hsettle _ heq (hrelease _ _ hnone)
  | time L =>
    obtain ⟨-, rfl⟩ := exec_now hexec
    exact hnone
  | expire L now => rcases exec_expireInvites hexec with ⟨rfl, -⟩ | ⟨-, rfl⟩ <;> exact hnone
  | join hj => exact absurd ⟨_, _, _, rfl⟩ hc

/-- The transactions through an operation. -/
theorem Booked.tracks_did (hb : Booked invites h) (hd : Disciplined Acting Q h)
    (hstart : Event.start pid c ∈ h.trace) (hD : Acting c (log pid h.trace) o)
    (hexec : exec missing o pid choice h.world = some (r, w)) (p : ℕ)
    (hp : ∀ c, Event.start p c ∈ h.trace → c.Joins) :
    Tracks w p (log p (.did pid o r h.world :: h.trace)) := by
  by_cases hsame : p = pid
  · subst hsame
    rw [log_did_self]
    obtain ⟨code, userId, walletAddress, rfl⟩ := hp c hstart
    cases hD with
    | join hj => exact (hb.tracks p hp).step hj hexec
  · rw [log_cons_of_ne (e := .did pid o r h.world) fun heq => hsame heq.symm]
    exact (hb.tracks p hp).spared (spares_of_exec hsame hexec)
      (mem_invites_of_exec (hb.held hd hstart) hsame hexec)

theorem Booked.foreign_did (hb : Booked invites h) (hd : Disciplined Acting Q h)
    (hstart : Event.start pid c ∈ h.trace) (hD : Acting c (log pid h.trace) o)
    (hexec : exec missing o pid choice h.world = some (r, w)) (p : ℕ) (c' : Call)
    (hp : Event.start p c' ∈ h.trace) (hc' : ¬ c'.Joins) : w.pendingInvites p = [] := by
  have hnone := hb.foreign p c' hp hc'
  by_cases hsame : p = pid
  · subst hsame
    obtain rfl := hd.start_unique p _ _ hp hstart
    exact pendingInvites_of_acting hc' hD hnone hexec
  · rcases (spares_of_exec hsame hexec).transaction with ⟨-, heq⟩ | ⟨-, heq⟩
    · exact heq.trans hnone
    · exact heq

theorem Booked.coded_did (hb : Booked invites h)
    (hexec : exec missing o pid choice h.world = some (r, w)) (p : ℕ) (code : String)
    (invite : GroupInvite)
    (hlock : ⟨.lockInvite code, .ok (some invite)⟩ ∈ log p (.did pid o r h.world :: h.trace)) :
    invite.code = code := by
  by_cases hsame : p = pid
  · subst hsame
    rw [log_did_self] at hlock
    rcases List.mem_cons.mp hlock with heq | hlock
    · obtain ⟨rfl, hr⟩ := Sigma.mk.inj heq
      obtain rfl := eq_of_heq hr
      rcases exec_lockInvite hexec with ⟨-, e, he⟩ | ⟨-, -, hfound, -⟩
      · cases he
      · have hcode := List.find?_some (Except.ok.inj hfound).symm
        exact of_decide_eq_true hcode
    · exact hb.coded p code invite hlock
  · rw [log_cons_of_ne (e := .did pid o r h.world) fun heq => hsame heq.symm] at hlock
    exact hb.coded p code invite hlock

theorem Booked.terms_did (hb : Booked invites h)
    (hexec : exec missing o pid choice h.world = some (r, w)) :
    w.invites.map (·.terms) = invites.map (·.terms) := by
  refine Eq.trans ?_ hb.terms
  rcases invites_of_exec hexec with heq | heq | ⟨now, -, -, heq⟩ <;> rw [heq]
  · exact terms_applyAll _ _
  · exact terms_expire _ now

/-- What the books say of an invite and of the memberships it has created. -/
structure Kept (w : World) (es : Events) : Prop where
  account : ∀ invite ∈ w.invites, Account invite (creations invite.code w es)
  admitted : ∀ code, ∀ m ∈ creations code w es, m.Admitted code

theorem Booked.kept (hb : Booked invites h) : Kept h.world h.trace := ⟨hb.account, hb.admitted⟩

/-- A step that creates no membership by a code, and leaves the invites alone. -/
theorem Booked.kept_of_same (hb : Booked invites h)
    (hcreations : ∀ code, creations code w (.did pid o r h.world :: h.trace) =
      creations code h.world h.trace)
    (hinvites : w.invites = h.world.invites) : Kept w (.did pid o r h.world :: h.trace) := by
  refine ⟨fun invite hi => ?_, fun code m hm => ?_⟩
  · rw [hcreations]
    exact hb.account invite (hinvites ▸ hi)
  · rw [hcreations] at hm
    exact hb.admitted code m hm

theorem not_joinsBy (hd : Disciplined Acting Q h) (hstart : Event.start pid c ∈ h.trace) {code : String}
    (hc : ∀ userId walletAddress, c ≠ .joinByCode code userId walletAddress) :
    joinsBy code pid h.trace = false := by
  refine Bool.eq_false_iff.mpr fun hjoins => ?_
  obtain ⟨userId, walletAddress, hstart'⟩ := joinsBy_eq_true.mp hjoins
  exact hc userId walletAddress (hd.start_unique pid _ _ hstart hstart')

theorem Booked.nodup_ids (hb : Booked invites h) (hinvites : Unused invites) :
    (h.world.invites.map (·.id)).Nodup := by
  have hterms := congrArg (List.map Prod.fst) hb.terms
  rw [List.map_map, List.map_map] at hterms
  exact hterms ▸ hinvites.ids

theorem Booked.nodup_codes (hb : Booked invites h) (hinvites : Unused invites) :
    (h.world.invites.map (·.code)).Nodup := by
  have hterms := congrArg (List.map fun t => t.2.1) hb.terms
  rw [List.map_map, List.map_map] at hterms
  exact hterms ▸ hinvites.codes

/-- **The commit of a join.** -/
theorem Booked.kept_of_commit (hinvites : Unused invites) (hb : Booked invites h)
    (hd : Disciplined Acting Q h) {code : String} {userId : Uuid} {walletAddress : String}
    (hstart : Event.start pid (.joinByCode code userId walletAddress) ∈ h.trace)
    {invite : GroupInvite} {now : ℤ} (hadmitting : Admitting invite now)
    (hlog : log pid h.trace = joinedLog code userId walletAddress invite now) {r : Except Exc Unit}
    (hexec : exec missing (.members .commitTransaction) pid choice h.world = some (r, w)) :
    Kept w (.did pid (.members .commitTransaction) r h.world :: h.trace) := by
  rcases (exec_commit hexec).2 with ⟨hsame, htables⟩ | ⟨xs, hxs, happlied, htables⟩
  · exact hb.kept_of_same (fun code => creations_of_tables htables) hsame
  have htracks := hb.tracks_of_start hd hstart ⟨_, _, _, rfl⟩
  have hwrites := htracks.writes xs hxs
  have hupdates := htracks.updates xs hxs
  rw [hlog, heldWrite_joinedLog] at hwrites
  rw [hlog, heldUpdate_joinedLog] at hupdates
  subst hwrites
  have hsuffix : timedLog code invite now <:+ log pid h.trace := by
    rw [hlog, joinedLog, markedLog]
    split
    · exact ⟨[_, _, _, _], rfl⟩
    · exact ⟨[_, _, _], rfl⟩
  have hlocked : (⟨.lockInvite code, .ok (some invite)⟩ : Entry Op.Ret) ∈ log pid h.trace :=
    hsuffix.subset (List.mem_cons_of_mem _ List.mem_cons_self)
  obtain ⟨-, hinvite⟩ := htracks.locks _ hxs invite (List.mem_filterMap.mpr ⟨_, hlocked, rfl⟩)
  have hcode : invite.code = code := hb.coded pid code invite hlocked
  have hcreated : creations code w (.did pid (.members .commitTransaction) r h.world :: h.trace) =
      ⟨pid, h.world, h.trace⟩ :: creations code h.world h.trace := by
    refine creations_of_join (joinsBy_eq_true.mpr ⟨_, _, hstart⟩) ?_
    rw [htables]
    exact List.length_append
  have hothers : ∀ code', code' ≠ code →
      creations code' w (.did pid (.members .commitTransaction) r h.world :: h.trace) =
        creations code' h.world h.trace := fun code' hne =>
    creations_of_not_joinsBy (not_joinsBy hd hstart fun _ _ heq => hne (Call.joinByCode.inj heq).1.symm)
  refine ⟨fun i hi => ?_, fun code' m hm => ?_⟩
  · rw [happlied, hupdates] at hi
    rcases mem_applyAll_uses (hb.nodup_ids hinvites) hinvite hi with rfl | ⟨hi, hne⟩
    · rw [show invite.used.code = code from hcode, hcreated, ← hcode]
      exact (hb.account invite hinvite).use _ hadmitting
    · have hcode' : i.code ≠ code := fun heq =>
        hne (congrArg (·.id) (List.inj_on_of_nodup_map (hb.nodup_codes hinvites) hi hinvite (heq.trans hcode.symm)))
      rw [hothers _ hcode']
      exact hb.account i hi
  · by_cases hsame : code' = code
    · subst hsame
      rw [hcreated] at hm
      rcases List.mem_cons.mp hm with rfl | hm
      · refine ⟨invite, hinvite, hcode, hadmitting.active, now, hadmitting.unexpired, ?_⟩
        exact List.IsInfix.trans ⟨[], begunLog, rfl⟩ hsuffix.isInfix
      · exact hb.admitted _ m hm
    · rw [hothers _ hsame] at hm
      exact hb.admitted _ m hm

/-- **The books through an operation.** -/
theorem Booked.kept_did (hinvites : Unused invites) (hb : Booked invites h)
    (hd : Disciplined Acting Q h) (hstart : Event.start pid c ∈ h.trace)
    (hD : Acting c (log pid h.trace) o) (hexec : exec missing o pid choice h.world = some (r, w)) :
    Kept w (.did pid o r h.world :: h.trace) := by
  have hforeign : ¬ c.Joins → ∀ code, creations code w (.did pid o r h.world :: h.trace) =
      creations code h.world h.trace := fun hc code =>
    creations_of_not_joinsBy (not_joinsBy hd hstart fun _ _ heq => hc ⟨_, _, _, heq⟩)
  generalize hL : log pid h.trace = L at hD
  cases hD with
  | members c L o =>
    have hc : ¬ (Call.members c).Joins := fun ⟨_, _, _, h⟩ => nomatch h
    refine hb.kept_of_same (hforeign hc) ?_
    rcases invites_of_exec hexec with heq | heq | ⟨_, ho, -⟩
    · exact heq
    · rw [heq, hb.foreign pid _ hstart hc]
      rfl
    · cases ho
  | time L =>
    have hc : ¬ Call.expireStaleInvites.Joins := fun ⟨_, _, _, h⟩ => nomatch h
    obtain ⟨-, rfl⟩ := exec_now hexec
    exact hb.kept_of_same (hforeign hc) rfl
  | expire L now =>
    have hc : ¬ Call.expireStaleInvites.Joins := fun ⟨_, _, _, h⟩ => nomatch h
    rcases exec_expireInvites hexec with ⟨rfl, -⟩ | ⟨-, rfl⟩
    · exact hb.kept_of_same (hforeign hc) rfl
    refine ⟨fun invite hi => ?_, fun code m hm => ?_⟩
    · obtain ⟨i, hold, rfl⟩ := List.mem_map.mp hi
      have hcode : (if i.isStale now then { i with status := .expired } else i).code = i.code := by
        split <;> rfl
      rw [hforeign hc, hcode]
      exact (hb.account i hold).expire
    · rw [hforeign hc] at hm
      exact hb.admitted code m hm
  | @join code userId walletAddress L o hj =>
    rcases still_of_joining hj hexec with ⟨hsame, htables⟩ | rfl
    · exact hb.kept_of_same (fun code => creations_of_tables htables) hsame
    cases hj with
    | commit hadmitting => exact hb.kept_of_commit hinvites hd hstart hadmitting hL hexec
    | commitExisting invite now member =>
      rcases (exec_commit hexec).2 with ⟨hsame, htables⟩ | ⟨xs, hxs, happlied, htables⟩
      · exact hb.kept_of_same (fun code => creations_of_tables htables) hsame
      have htracks := hb.tracks_of_start hd hstart ⟨_, _, _, rfl⟩
      have hwrites := htracks.writes xs hxs
      have hupdates := htracks.updates xs hxs
      rw [hL] at hwrites hupdates
      subst hwrites
      refine hb.kept_of_same (fun code' => ?_) ?_
      · have hissued : w.members.tables.issued = h.world.members.tables.issued := by
          rw [htables]
          rfl
        simp [creations, hissued]
      · rw [happlied, hupdates]
        rfl

/-- **Every step keeps the books.** -/
theorem Booked.step {maxWaitlist : ℤ} (hinvites : Unused invites) (hb : Booked invites h) {h' : History}
    (hd : Disciplined Acting Q h) (hd' : Disciplined Acting Q h')
    (hs : HistStep (system missing maxWaitlist) Acting h h') : Booked invites h' := by
  cases hs with
  | idle e he hlive =>
    have hbefore : ∀ {p c}, Event.start p c ∈ h.trace → Event.start p c ∈ (h.push e h.world).trace :=
      List.mem_cons_of_mem e
    have htracks : ∀ p, (∀ c, Event.start p c ∈ (h.push e h.world).trace → c.Joins) →
        Tracks h.world p (log p h.trace) := fun p hp => hb.tracks p fun c hc => hp c (hbefore hc)
    refine ⟨hb.terms, fun p hp => ?_, fun p c hp hc => ?_, fun p code invite hlock => ?_,
      fun invite hi => ?_, fun code m hm => ?_⟩
    · rw [Hist.push_trace, he]
      exact htracks p hp
    · rcases List.mem_cons.mp hp with rfl | hp'
      · by_cases hold : ∃ c', Event.start p c' ∈ h.trace
        · obtain ⟨c', hc'⟩ := hold
          exact hb.foreign p c' hc' (hd'.start_unique p _ _ (hbefore hc') hp ▸ hc)
        · -- a call that starts holds nothing back
          have hlog : log p h.trace = [] := log_eq_nil fun e' he' heq => by
            obtain ⟨c', hc'⟩ := hd.start_mem e' he'
            exact hold ⟨c', heq ▸ hc'⟩
          have hempty := hb.tracks p fun c' hc' => absurd ⟨c', hc'⟩ hold
          rw [hlog] at hempty
          cases hpending : h.world.members.pending p with
          | none => exact hempty.closed hpending
          | some xs => exact hempty.updates xs hpending
      · exact hb.foreign p c hp' hc
    · rw [Hist.push_trace, he] at hlock
      exact hb.coded p code invite hlock
    · rw [Hist.push_trace, Hist.push_world, creations_idle he]
      exact hb.account invite hi
    · rw [Hist.push_trace, Hist.push_world, creations_idle he] at hm
      exact hb.admitted code m hm
  | did pid c o choice r w hstart hD hexec hlive =>
    have hkept := hb.kept_did hinvites hd hstart hD hexec
    have hstarted : ∀ {p c'}, Event.start p c' ∈ (h.push (.did pid o r h.world) w).trace →
        Event.start p c' ∈ h.trace := fun hp => (List.mem_cons.mp hp).resolve_left nofun
    exact ⟨hb.terms_did hexec, fun p hp => hb.tracks_did hd hstart hD hexec p fun c' hc' =>
        hp c' (List.mem_cons_of_mem _ hc'),
      fun p c' hp hc' => hb.foreign_did hd hstart hD hexec p c' (hstarted hp) hc',
      fun p code invite hlock => hb.coded_did hexec p code invite hlock, hkept.account, hkept.admitted⟩

end Booked

theorem booked_of_reachable {missing : OnMissing} {maxWaitlist : ℤ} {d : Tables}
    {invites : List GroupInvite} (hinvites : Unused invites) {s : InvitesState}
    (hs : (system missing maxWaitlist).Reachable (.init (started d invites)) s) :
    Booked invites s.hist := by
  refine hist_invariant (follows_acting missing maxWaitlist) (I := Booked invites) ?_
    (fun h h' hd hd' hb hstep _ => hb.step hinvites hd hd' hstep) hs
  refine ⟨rfl, fun pid _ => .ended rfl rfl, fun pid c hc => absurd hc List.not_mem_nil,
    fun pid code invite hlock => absurd hlock List.not_mem_nil, fun invite hi => ?_,
    fun code m hm => absurd hm List.not_mem_nil⟩
  obtain ⟨hactive, hused, hmax⟩ := hinvites.state invite hi
  refine ⟨hused.symm, ?_, ?_⟩
  · omega
  · rw [hactive, hused]
    exact iff_of_false nofun fun heq => by omega

/-- **Invites are accounted for** in every run of joins, expiries and calls on the members: the
memberships created by an invite are its `usedCount`, which stays within `maxUses`, and reaches it
exactly when the invite is exhausted; and each was created while the invite was active, by a join
that has found it not expired while it held the lock. -/
theorem invites_accounted (missing : OnMissing) (maxWaitlist : ℤ) (d : Tables)
    (invites : List GroupInvite) (hinvites : Unused invites) (s : InvitesState)
    (hs : (system missing maxWaitlist).Reachable (.init (started d invites)) s) :
    ∀ invite ∈ s.hist.world.invites,
      Account invite (creations invite.code s.hist.world s.hist.trace) ∧
        ∀ m ∈ creations invite.code s.hist.world s.hist.trace, m.Admitted invite.code := fun invite hi =>
  have hbooked := booked_of_reachable hinvites hs
  ⟨hbooked.account invite hi, hbooked.admitted invite.code⟩

/-! ### Two joins -/

namespace Trial

/-- A group that nobody has joined. -/
def empty : Tables where
  group := some { id := 0, name := "group", adminWallet := "G0", minMembers := 1, maxMembers := 2 }

/-- An invite for one. -/
def invite : GroupInvite where
  id := 0
  code := "code"
  expiresAt := 10

theorem unused : Unused [invite] := ⟨by decide, by decide, by decide⟩

/-- `n` operations of call `pid` that are done. -/
def dones (pid n : ℕ) : List (Move Choice Call) := List.replicate n (.run pid (.members .done))

/-- A join that reads the time `now`, while the calls `between` go on. -/
def joining (now : ℤ) (between : List (Move Choice Call)) : List (Move Choice Call) :=
  .start (.joinByCode "code" 1 "G1") :: dones 0 2 ++ .run 0 (.time now) :: between ++ dones 0 5

end Trial

/-- A user joins, and the invite is exhausted. -/
theorem invites_accounted_sample : ∃ s : InvitesState,
    s.hist.world.invites.map (·.status) = [.exhausted] ∧
      ∀ invite ∈ s.hist.world.invites,
        Account invite (creations invite.code s.hist.world s.hist.trace) ∧
          ∀ m ∈ creations invite.code s.hist.world s.hist.trace, m.Admitted invite.code := by
  obtain ⟨s, hs, hstatus⟩ := System.exists_of_replay (system .inserts 50) (fun _ _ => True)
    (.init (started Trial.empty [Trial.invite])) (Trial.joining 0 [])
    (fun s => s.hist.world.invites.map (·.status) == [.exhausted]) (by decide +kernel)
  exact ⟨s, by simpa using hstatus, invites_accounted .inserts 50 _ _ Trial.unused s hs⟩

/-- A join reads the time just before the invite expires; before it inserts the membership, an
expiry has read a time after that. -/
theorem not_timely : ¬ ∀ (missing : OnMissing) (maxWaitlist : ℤ) (d : Tables)
    (invites : List GroupInvite), Unused invites → ∀ s : InvitesState,
    (system missing maxWaitlist).Reachable (.init (started d invites)) s →
    ∀ invite ∈ s.hist.world.invites,
      Account invite (creations invite.code s.hist.world s.hist.trace) ∧
        ∀ m ∈ creations invite.code s.hist.world s.hist.trace, m.Timely invite.code := by
  intro hall
  obtain ⟨s, hs, hlate⟩ := System.exists_of_replay (system .inserts 50) (fun _ _ => True)
    (.init (started Trial.empty [Trial.invite]))
    (Trial.joining 10 [.start .expireStaleInvites, .run 1 (.time 11)])
    (fun s => s.hist.world.invites.any fun i =>
      (creations i.code s.hist.world s.hist.trace).any fun m =>
        m.before.invites.all fun i => i.expiresAt < m.before.clock) (by decide +kernel)
  obtain ⟨invite, hinvite, hcreated⟩ := List.any_eq_true.mp hlate
  obtain ⟨m, hm, hexpired⟩ := List.any_eq_true.mp hcreated
  obtain ⟨i, hi, -, -, htimely⟩ := (hall _ _ _ _ Trial.unused s hs invite hinvite).2 m hm
  exact absurd (of_decide_eq_true (List.all_eq_true.mp hexpired i hi)) (not_lt.mpr htimely)

end Ahjoor.Members.Invites
