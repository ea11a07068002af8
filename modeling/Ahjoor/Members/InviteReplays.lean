import Ahjoor.Async.Moments
import Ahjoor.Members.InviteUses

/-!
# Joining by an invite twice

`joinByCode` means to give a user who has joined before the membership back, and to change nothing.
It looks for the membership only after it has checked that the invite lets somebody in, which the
first join has changed: a user who joins again is turned away once the invite is used up, also when
nobody else has used it.

Joins only add memberships, and a join holds nothing back until it has looked for one. So a join
that starts after another join of the same user has returned finds the membership, if it looks.
-/

namespace Ahjoor.Members.Invites

open Async

/-! ### How a join ends -/

/-- An operation of a join was answered by an error. -/
def failed : Entry Op.Ret → Bool
  | ⟨.members .startTransaction, .error _⟩ | ⟨.members .commitTransaction, .error _⟩ => true
  | ⟨.members (.tx _), .error _⟩ => true
  | ⟨.lockInvite _, .error _⟩ | ⟨.updateInvite _, .error _⟩ => true
  | _ => false

/-- **Why a join throws**: there is no such invite, or the invite lets nobody in, or an operation
has failed. -/
inductive Stopped (code : String) (L : Log Op.Ret) : Prop
  | unknown (hlock : ⟨.lockInvite code, .ok none⟩ ∈ L)
  | inactive (invite : GroupInvite) (hlock : ⟨.lockInvite code, .ok (some invite)⟩ ∈ L)
      (h : invite.status ≠ .active)
  | expired (invite : GroupInvite) (hlock : ⟨.lockInvite code, .ok (some invite)⟩ ∈ L) (now : ℤ)
      (hnow : ⟨.now, now⟩ ∈ L) (h : invite.expiresAt < now)
  | usedUp (invite : GroupInvite) (hlock : ⟨.lockInvite code, .ok (some invite)⟩ ∈ L)
      (h : invite.maxUses ≤ invite.usedCount)
  | failed (e : Entry Op.Ret) (he : e ∈ L) (h : failed e = true)

theorem Stopped.cons {code : String} {L : Log Op.Ret} (h : Stopped code L) (e : Entry Op.Ret) :
    Stopped code (e :: L) := by
  have hmem : ∀ {e' : Entry Op.Ret}, e' ∈ L → e' ∈ e :: L := List.mem_cons_of_mem e
  cases h with
  | unknown hlock => exact .unknown (hmem hlock)
  | inactive invite hlock h => exact .inactive invite (hmem hlock) h
  | expired invite hlock now hnow h => exact .expired invite (hmem hlock) now (hmem hnow) h
  | usedUp invite hlock h => exact .usedUp invite (hmem hlock) h
  | failed e' he h => exact .failed e' (hmem he) h

/-- What a join has done when it commits. -/
inductive Reached (code : String) (userId : Uuid) (walletAddress : String) : Joined → Log Op.Ret → Prop
  | existing {invite : GroupInvite} {now : ℤ} (h : Admitting invite now) (membership : Member) :
      Reached code userId walletAddress (.existing membership)
        (lookedLog code userId invite now (some membership))
  | created {invite : GroupInvite} {now : ℤ} (h : Admitting invite now) :
      Reached code userId walletAddress .created (joinedLog code userId walletAddress invite now)

theorem Reached.commits {code : String} {userId : Uuid} {walletAddress : String} {joined : Joined}
    {L : Log Op.Ret} (h : Reached code userId walletAddress joined L) :
    Joining code userId walletAddress L (.members .commitTransaction) := by
  cases h with
  | existing h membership => exact .commitExisting _ _ membership
  | created h => exact .commit h

/-- How a call ends. -/
def CallEnded : Call → Except Exc Reply → Log Op.Ret → Prop
  | .joinByCode code userId walletAddress, .ok (.joined joined), L =>
      ∃ L', L = ⟨.members .commitTransaction, .ok ()⟩ :: L' ∧ Reached code userId walletAddress joined L'
  | .joinByCode _ _ _, .ok _, _ => False
  | .joinByCode code _ _, .error _, L => Stopped code L
  | _, _, _ => True

section Walk

variable {code : String} {userId : Uuid} {walletAddress : String}

theorem obeys_reaching : Obeys (Joining code userId walletAddress)
    (joinByInvite code userId walletAddress)
    (fun joined _ L => Reached code userId walletAddress joined L) (fun _ _ L => Stopped code L) ()
    begunLog := by
  have hhere : ∀ {e : Entry Op.Ret} {L : Log Op.Ret}, failed e = true → Stopped code (e :: L) :=
    fun h => .failed _ List.mem_cons_self h
  refine Obeys.bind (Obeys.call .lock fun r => ?_)
  cases r with
  | error e => exact hhere rfl
  | ok found =>
  refine Obeys.bind (Obeys.valueOr (fun invite hfound => ?_) fun hnone => ?_)
  rotate_left
  · subst hnone
    exact .unknown List.mem_cons_self
  subst hfound
  have hlocked : (⟨.lockInvite code, .ok (some invite)⟩ : Entry Op.Ret) ∈ lockedLog code invite :=
    List.mem_cons_self
  refine Obeys.bind (Obeys.throwWhen (fun h => ?_) fun hstatus => ?_)
  · exact .inactive invite hlocked (of_decide_eq_true h)
  refine Obeys.bind (Obeys.perform (.time invite) fun now : ℤ => ?_)
  have htimed : (⟨.lockInvite code, .ok (some invite)⟩ : Entry Op.Ret) ∈ timedLog code invite now :=
    List.mem_cons_of_mem _ hlocked
  refine Obeys.bind (Obeys.throwWhen (fun h => ?_) fun hexpired => ?_)
  · exact .expired invite htimed now List.mem_cons_self (of_decide_eq_true h)
  refine Obeys.bind (Obeys.throwWhen (fun h => ?_) fun hused => ?_)
  · exact .usedUp invite htimed (of_decide_eq_true h)
  have hadmitting : Admitting invite now := by
    refine ⟨?_, not_lt.mp (of_decide_eq_false hexpired), not_le.mp (of_decide_eq_false hused)⟩
    exact not_not.mp (of_decide_eq_false hstatus)
  refine Obeys.bind (Obeys.call (.look hadmitting) fun r => ?_)
  cases r with
  | error e => exact hhere rfl
  | ok existing =>
  cases existing with
  | some membership => exact Obeys.pure (.existing hadmitting membership)
  | none =>
  refine Obeys.bind (Obeys.call (.count hadmitting) fun r => ?_)
  cases r with
  | error e => exact hhere rfl
  | ok a =>
  have hinsert : Obeys (Joining code userId walletAddress) (do
      onMembers (tx (.write (.insertMember { id := 0, userId, walletAddress, payoutOrder := none })))
      pure Joined.created) (fun joined _ L => Reached code userId walletAddress joined L)
      (fun _ _ L => Stopped code L) () (markedLog code userId invite now) := by
    refine Obeys.bind (Obeys.call (.insert hadmitting) fun r => ?_)
    cases r with
    | error e => exact hhere rfl
    | ok b => exact Obeys.pure (.created hadmitting)
  refine Obeys.bind ?_
  split
  next hlast =>
    refine Obeys.call (.mark hadmitting hlast) fun r => ?_
    cases r with
    | error e => exact hhere rfl
    | ok b =>
      rw [markedLog, if_pos hlast] at hinsert
      exact hinsert
  next hlast =>
    rw [markedLog, if_neg hlast] at hinsert
    exact Obeys.pure hinsert

theorem obeys_ending : Obeys (Joining code userId walletAddress)
    (Invites.joinByCode code userId walletAddress)
    (fun joined _ L => ∃ L', L = ⟨.members .commitTransaction, .ok ()⟩ :: L' ∧
      Reached code userId walletAddress joined L') (fun _ _ L => Stopped code L) () [] := by
  have hrollback : ∀ (e : Exc) (L : Log Op.Ret), Stopped code L →
      Obeys (Joining code userId walletAddress) (do
        Routine.call (.members .rollbackTransaction) fun _ => .ok ()
        throw e : Service Joined) (fun joined _ L => ∃ L', L = ⟨.members .commitTransaction, .ok ()⟩ :: L' ∧
          Reached code userId walletAddress joined L') (fun _ _ L => Stopped code L) () L := fun e L h =>
    Obeys.bind (Obeys.call (.rollback L) fun _ => Obeys.throw (h.cons _))
  refine Obeys.bind (Obeys.call .start fun r => ?_)
  cases r with
  | error e => exact .failed _ List.mem_cons_self rfl
  | ok a =>
  refine Obeys.tryCatch (Obeys.bind (obeys_reaching.mono (fun joined _ L hreached => ?_)
    fun e _ L hstopped => hrollback e L hstopped))
  refine Obeys.bind (Obeys.call hreached.commits fun r => ?_)
  cases r with
  | error e => exact hrollback e _ (.failed _ List.mem_cons_self rfl)
  | ok b => exact Obeys.pure ⟨L, rfl, hreached⟩

end Walk

theorem follows_ending (missing : OnMissing) (maxWaitlist : ℤ) (c : Call) :
    Follows (Acting c) (CallEnded c) ((system missing maxWaitlist).body c) [] := by
  cases c with
  | members c => exact (obeys_acting maxWaitlist (.members c)).follows.bind fun _ _ _ => trivial
  | expireStaleInvites => exact (obeys_acting maxWaitlist .expireStaleInvites).follows.bind fun _ _ _ => trivial
  | joinByCode code userId walletAddress =>
    have hacting : Obeys (Acting (.joinByCode code userId walletAddress))
        (Invites.joinByCode code userId walletAddress)
        (fun joined _ L => ∃ L', L = ⟨.members .commitTransaction, .ok ()⟩ :: L' ∧
          Reached code userId walletAddress joined L') (fun _ _ L => Stopped code L) () [] :=
      ⟨obeys_ending.follows.weaken fun L o h => .join h⟩
    have hreply : Obeys (Acting (.joinByCode code userId walletAddress))
        ((Call.joinByCode code userId walletAddress).body maxWaitlist)
        (fun reply _ => CallEnded (.joinByCode code userId walletAddress) (.ok reply))
        (fun e _ => CallEnded (.joinByCode code userId walletAddress) (.error e)) () [] :=
      Obeys.bind (hacting.mono (fun joined _ L h => Obeys.pure h) fun _ _ _ h => h)
    exact hreply.follows.bind fun
      | (.ok reply, _), _, h => h
      | (.error e, _), _, h => h

/-! ### What an operation of a join does -/

/-- What the database holds, without the record of the commits. -/
def World.rows (w : World) : Tables × List GroupInvite :=
  ({ w.members.tables with log := [] }, w.invites)

section Operations

variable {missing : OnMissing} {pid : ℕ} {choice : Choice} {w w' : World} {o : Op} {r : o.Ret}
  {code : String} {userId : Uuid} {walletAddress : String} {L : Log Op.Ret}

/-- Time does not go back. -/
theorem clock_le_of_exec (h : exec missing o pid choice w = some (r, w')) : w.clock ≤ w'.clock := by
  cases o with
  | members o =>
    obtain ⟨choice', v, -, rfl⟩ := exec_members_settle h
    have hclock : (w.settle pid o choice').clock = w.clock := by
      rcases settle_cases w pid o choice' with ⟨heq, -⟩ | ⟨heq, -⟩ | ⟨-, heq⟩ | ⟨q, -, heq⟩ <;>
        rw [heq] <;> rfl
    exact hclock.ge
  | lockInvite code =>
    rcases exec_lockInvite h with ⟨rfl, -⟩ | ⟨-, -, -, ⟨-, rfl⟩ | ⟨-, -, -, rfl⟩⟩ <;> exact le_rfl
  | updateInvite x => rcases exec_updateInvite h with ⟨rfl, -⟩ | ⟨-, -, -, -, rfl⟩ <;> exact le_rfl
  | expireInvites now => rcases exec_expireInvites h with ⟨rfl, -⟩ | ⟨-, rfl⟩ <;> exact le_rfl
  | now =>
    obtain ⟨hle, rfl⟩ := exec_now h
    exact hle

/-- A join locks the invite of a code. -/
theorem find_of_lock (ht : Tracks w pid L) {found : Option GroupInvite} {code' : String}
    (hj : Joining code userId walletAddress L (.lockInvite code'))
    (h : exec missing (.lockInvite code') pid choice w = some (.ok found, w')) :
    found = w.invites.find? (·.code = code') := by
  cases hj
  rcases exec_lockInvite h with ⟨-, e, he⟩ | ⟨xs, hxs, hfound, -⟩
  · cases he
  rw [ht.updates xs hxs] at hfound
  exact Except.ok.inj hfound

/-- **A join sees every membership** when it looks for the one of its user. -/
theorem find_of_look (ht : Tracks w pid L) {found : Option Member} {userId' : Uuid}
    (hj : Joining code userId walletAddress L (.members (.tx (.findMember userId'))))
    (h : exec missing (.members (.tx (.findMember userId'))) pid choice w = some (.ok found, w')) :
    found = w.members.tables.members.find? (·.userId = userId') := by
  obtain ⟨choice', v, hexec, rfl⟩ := exec_members_settle h
  rcases exec_tx hexec with ⟨-, e, he⟩ | ⟨xs, hxs, hread, -⟩
  · cases he
  cases hj
  rw [ht.writes xs hxs] at hread
  exact Except.ok.inj hread

/-- What a commit of a join does: nothing, if it fails; else it adds the membership, if the join
has found none. -/
theorem members_of_commit (ht : Tracks w pid L)
    (hj : Joining code userId walletAddress L (.members .commitTransaction)) {r : Except Exc Unit}
    (h : exec missing (.members .commitTransaction) pid choice w = some (r, w')) :
    (∃ added, w'.members.tables.members = w.members.tables.members ++ added) ∧
      (r = .ok () → (∃ invite now member, L = lookedLog code userId invite now (some member)) ∨
        userId ∈ w'.members.tables.users) := by
  obtain ⟨choice', v, hexec, rfl⟩ := exec_members_settle h
  rcases exec_commitTransaction hexec with ⟨rfl, e, rfl⟩ | ⟨xs, hxs, rfl, -⟩
  · exact ⟨⟨[], (List.append_nil _).symm⟩, nofun⟩
  obtain rfl := ht.writes xs hxs
  cases hj with
  | commitExisting invite now member =>
    exact ⟨⟨[], (List.append_nil _).symm⟩, fun _ => .inl ⟨invite, now, member, rfl⟩⟩
  | commit hadmitting =>
    rw [heldWrite_joinedLog]
    refine ⟨⟨[_], rfl⟩, fun _ => .inr ?_⟩
    exact List.mem_map.mpr ⟨_, List.mem_append_right _ (List.mem_singleton_self _), rfl⟩

/-- **Joins only add memberships.** -/
theorem members_of_joining (ht : Tracks w pid L) (hj : Joining code userId walletAddress L o)
    (h : exec missing o pid choice w = some (r, w')) :
    ∃ added, w'.members.tables.members = w.members.tables.members ++ added := by
  rcases still_of_joining hj h with ⟨-, htables⟩ | rfl
  · exact ⟨[], by rw [htables, List.append_nil]⟩
  · exact (members_of_commit ht hj h).1

/-- A join that holds nothing back changes no row. -/
theorem rows_of_joining (ht : Tracks w pid L) (hj : Joining code userId walletAddress L o)
    (hwrites : L.reverse.flatMap heldWrite = []) (hupdates : L.reverse.flatMap heldUpdate = [])
    (h : exec missing o pid choice w = some (r, w')) : w'.rows = w.rows := by
  rcases still_of_joining hj h with ⟨hinvites, htables⟩ | rfl
  · rw [World.rows, hinvites, htables, World.rows]
  rcases (exec_commit h).2 with ⟨hinvites, htables⟩ | ⟨xs, hxs, hinvites, htables⟩
  · rw [World.rows, hinvites, htables, World.rows]
  · rw [World.rows, hinvites, htables, ht.updates xs hxs, ht.writes xs hxs, hwrites, hupdates]
    rfl

/-- No update of a join marks an invite as expired. -/
theorem unexpired_applyAll {invites : List GroupInvite} {xs : List InviteWrite}
    (hxs : ∀ x ∈ xs, ∀ id, x ≠ .updateStatus id .expired)
    (h : ∀ invite ∈ invites, invite.status ≠ .expired) :
    ∀ invite ∈ applyAll invites xs, invite.status ≠ .expired := by
  induction xs generalizing invites with
  | nil => exact h
  | cons x xs ih =>
    refine ih (fun y hy => hxs y (List.mem_cons_of_mem _ hy)) fun invite hi => ?_
    obtain ⟨old, hold, rfl⟩ := List.mem_map.mp hi
    have hx := hxs x List.mem_cons_self
    cases x with
    | incrementUsedCount id =>
      rw [InviteWrite.apply]
      split
      · exact h old hold
      · exact h old hold
    | updateStatus id status =>
      rw [InviteWrite.apply]
      split
      · rintro rfl
        exact hx id rfl
      · exact h old hold

theorem unexpired_of_joining (ht : Tracks w pid L) (hj : Joining code userId walletAddress L o)
    (h : exec missing o pid choice w = some (r, w'))
    (hunexpired : ∀ invite ∈ w.invites, invite.status ≠ .expired) :
    ∀ invite ∈ w'.invites, invite.status ≠ .expired := by
  rcases still_of_joining hj h with ⟨hinvites, -⟩ | rfl
  · exact hinvites ▸ hunexpired
  rcases (exec_commit h).2 with ⟨hinvites, -⟩ | ⟨xs, hxs, hinvites, -⟩
  · exact hinvites ▸ hunexpired
  rw [hinvites, ht.updates xs hxs]
  refine unexpired_applyAll (fun x hx id => ?_) hunexpired
  cases hj with
  | commitExisting invite now member => cases hx
  | @commit invite now hadmitting =>
    rw [heldUpdate_joinedLog, uses] at hx
    rcases List.mem_cons.mp hx with rfl | hx
    · intro h
      cases h
    · split at hx
      · obtain rfl := List.mem_singleton.mp hx
        intro h
        cases h
      · cases hx

end Operations

/-! ### Runs of joins -/

/-- Only joins have started. -/
def OnlyJoins (es : Events) : Prop := ∀ pid c, Event.start pid c ∈ es → c.Joins

instance (es : Events) : Decidable (OnlyJoins es) :=
  decidable_of_iff (es.all fun
    | .start _ (.joinByCode _ _ _) => true
    | .start _ _ => false
    | _ => true) <| by
    rw [List.all_eq_true]
    constructor
    · intro h pid c hc
      have hstart := h _ hc
      cases c with
      | joinByCode code userId walletAddress => exact ⟨code, userId, walletAddress, rfl⟩
      | members c => cases hstart
      | expireStaleInvites => cases hstart
    · intro h e he
      cases e with
      | start pid c =>
        obtain ⟨code, userId, walletAddress, rfl⟩ := h pid c he
        rfl
      | _ => rfl

/-- The user has joined by the code: such a join has returned a membership. -/
def hasJoined (code : String) (userId : Uuid) (es : Events) : Bool :=
  es.any fun
    | .returned q (.ok (.joined _)) => es.any fun
      | .start q' (.joinByCode code' userId' _) => q' = q ∧ code' = code ∧ userId' = userId
      | _ => false
    | _ => false

/-- The call `pid` is a join by the code of a user who has joined by it before. -/
def joinsAgain (code : String) (userId : Uuid) (pid : ℕ) : Events → Bool
  | [] => false
  | .start p (.joinByCode code' userId' _) :: es =>
      (decide (p = pid ∧ code' = code ∧ userId' = userId) && hasJoined code userId es) ||
        joinsAgain code userId pid es
  | _ :: es => joinsAgain code userId pid es

theorem of_hasJoined {code : String} {userId : Uuid} {es : Events} (h : hasJoined code userId es = true) :
    ∃ q walletAddress joined, Event.start q (.joinByCode code userId walletAddress) ∈ es ∧
      Event.returned q (.ok (.joined joined)) ∈ es := by
  obtain ⟨e, he, hreturned⟩ := List.any_eq_true.mp h
  split at hreturned
  next q joined =>
    obtain ⟨e', he', hstart⟩ := List.any_eq_true.mp hreturned
    split at hstart
    next q' code' userId' walletAddress =>
      obtain ⟨rfl, rfl, rfl⟩ := of_decide_eq_true hstart
      exact ⟨q', walletAddress, joined, he', he⟩
    next => cases hstart
  next => cases hreturned

theorem of_joinsAgain {code : String} {userId : Uuid} {pid : ℕ} {es : Events}
    (h : joinsAgain code userId pid es = true) :
    ∃ later walletAddress earlier, es = later ++ Event.start pid (.joinByCode code userId walletAddress) :: earlier ∧
      hasJoined code userId earlier = true := by
  have hlater : ∀ {e es}, (∃ later walletAddress earlier,
      es = later ++ Event.start pid (.joinByCode code userId walletAddress) :: earlier ∧
        hasJoined code userId earlier = true) →
      ∃ later walletAddress earlier,
        e :: es = later ++ Event.start pid (.joinByCode code userId walletAddress) :: earlier ∧
          hasJoined code userId earlier = true := by
    rintro e es ⟨later, walletAddress, earlier, rfl, hjoined⟩
    exact ⟨e :: later, walletAddress, earlier, rfl, hjoined⟩
  induction es with
  | nil => cases h
  | cons e es ih =>
    rw [joinsAgain.eq_def] at h
    split at h
    next => cases h
    next p code' userId' walletAddress es' heq =>
      obtain ⟨rfl, rfl⟩ := List.cons.inj heq
      rcases Bool.or_eq_true_iff.mp h with hhere | hold
      · obtain ⟨hsame, hjoined⟩ := Bool.and_eq_true_iff.mp hhere
        obtain ⟨rfl, rfl, rfl⟩ := of_decide_eq_true hsame
        exact ⟨[], walletAddress, es, rfl, hjoined⟩
      · exact hlater (ih hold)
    next e' es' hne heq =>
      obtain ⟨rfl, rfl⟩ := List.cons.inj heq
      exact hlater (ih h)

/-- **What a lock has found**: the invite with the code, which is active until it is used up. -/
structure Locked (invites : List GroupInvite) (code : String) (found : Option GroupInvite)
    (before : World) : Prop where
  found : ∀ invite, found = some invite ↔ invite ∈ before.invites ∧ invite.code = code
  active : ∀ invite ∈ before.invites, invite.status = .active ↔ invite.usedCount < invite.maxUses
  terms : before.invites.map (·.terms) = invites.map (·.terms)

/-- Every lock in the events has found its invite. -/
def Locks (invites : List GroupInvite) (es : Events) : Prop :=
  ∀ pid code found before, Event.did pid (.lockInvite code) (.ok found) before ∈ es →
    Locked invites code found before

/-- While a call holds nothing back, it changes no row. -/
def ChangesHeld (h : History) : Prop :=
  ∀ later pid o r before earlier, h.trace = later ++ Event.did pid o r before :: earlier →
    (log pid earlier).reverse.flatMap heldWrite = [] →
    (log pid earlier).reverse.flatMap heldUpdate = [] → (worldAt h.world later).rows = before.rows

/-- **What joins alone keep**: no invite expires, memberships that a join has seen or added stay,
and a join that starts after another join of its user has returned finds the membership. -/
structure Lasting (h : History) : Prop where
  unexpired : ∀ invite ∈ h.world.invites, invite.status ≠ .expired
  times : ∀ pid t, ⟨.now, t⟩ ∈ log pid h.trace → t ≤ h.world.clock
  looks : ∀ pid userId member, ⟨.members (.tx (.findMember userId)), .ok (some member)⟩ ∈ log pid h.trace →
    member ∈ h.world.members.tables.members ∧ member.userId = userId
  commits : ∀ pid code userId walletAddress,
    Event.start pid (.joinByCode code userId walletAddress) ∈ h.trace →
    ⟨.members .commitTransaction, .ok ()⟩ ∈ log pid h.trace → userId ∈ h.world.members.tables.users
  replays : ∀ later pid code userId walletAddress earlier,
    h.trace = later ++ Event.start pid (.joinByCode code userId walletAddress) :: earlier →
    (∀ e ∈ earlier, e.pid ≠ pid) → hasJoined code userId earlier = true →
    userId ∈ h.world.members.tables.users ∧
      ⟨.members (.tx (.findMember userId)), .ok none⟩ ∉ log pid h.trace

section Lasting

variable {missing : OnMissing} {invites : List GroupInvite} {h : History} {pid : ℕ} {o : Op}
  {choice : Choice} {r : o.Ret} {w : World} {code : String} {userId : Uuid} {walletAddress : String}

/-- An invite that has not expired is active until it is used up. -/
theorem Account.active {invite : GroupInvite} {created : List Creation} (ha : Account invite created)
    (h : invite.status ≠ .expired) : invite.status = .active ↔ invite.usedCount < invite.maxUses := by
  have hlimited := ha.limited
  have hexhausted := ha.exhausted
  cases hstatus : invite.status with
  | active =>
    refine iff_of_true rfl (lt_of_le_of_ne hlimited fun heq => ?_)
    exact absurd (hstatus.symm.trans (hexhausted.mpr heq)) nofun
  | exhausted => exact iff_of_false nofun (hexhausted.mp hstatus).not_lt
  | expired => exact absurd hstatus h

/-- The invite that is found by a code is the only one with it. -/
theorem find?_code_eq_some {invites : List GroupInvite} (hcodes : (invites.map (·.code)).Nodup)
    {code : String} {invite : GroupInvite} :
    invites.find? (·.code = code) = some invite ↔ invite ∈ invites ∧ invite.code = code := by
  constructor
  · intro hfound
    exact ⟨List.mem_of_find?_eq_some hfound, by simpa using List.find?_some hfound⟩
  · rintro ⟨hmem, rfl⟩
    obtain ⟨i, hi⟩ : ∃ i, invites.find? (·.code = invite.code) = some i :=
      Option.isSome_iff_exists.mp (List.find?_isSome.mpr ⟨invite, hmem, decide_eq_true rfl⟩)
    have hcode : i.code = invite.code := by simpa using List.find?_some hi
    rw [hi, List.inj_on_of_nodup_map hcodes (List.mem_of_find?_eq_some hi) hmem hcode]

theorem locks_did (hl : Locks invites h.trace) (hinvites : Unused invites) (hlast : Lasting h)
    (hb : Booked invites h) (ht : Tracks h.world pid (log pid h.trace))
    (hj : Joining code userId walletAddress (log pid h.trace) o)
    (hexec : exec missing o pid choice h.world = some (r, w)) :
    Locks invites (.did pid o r h.world :: h.trace) := by
  intro p code' found before he
  rcases List.mem_cons.mp he with heq | he
  · cases heq
    refine ⟨fun invite => ?_, fun invite hi => ?_, hb.terms⟩
    · rw [find_of_lock ht hj hexec]
      exact find?_code_eq_some (hb.nodup_codes hinvites)
    · exact (hb.account invite hi).active (hlast.unexpired invite hi)
  · exact hl p code' found before he

theorem changesHeld_did (hc : ChangesHeld h) (ht : Tracks h.world pid (log pid h.trace))
    (hj : Joining code userId walletAddress (log pid h.trace) o)
    (hexec : exec missing o pid choice h.world = some (r, w)) :
    ChangesHeld (h.push (.did pid o r h.world) w) := by
  intro later p o' r' before earlier htrace hwrites hupdates
  rcases List.cons_eq_append_iff.mp htrace with ⟨rfl, heq⟩ | ⟨later, rfl, hold⟩
  · cases heq
    exact rows_of_joining ht hj hwrites hupdates hexec
  · exact hc later p o' r' before earlier hold hwrites hupdates

/-- **An operation of a join** keeps what joins keep. -/
theorem Lasting.did (hl : Lasting h) (hd : Disciplined Acting CallEnded h)
    (hstart : Event.start pid (.joinByCode code userId walletAddress) ∈ h.trace)
    (ht : Tracks h.world pid (log pid h.trace))
    (hj : Joining code userId walletAddress (log pid h.trace) o)
    (hexec : exec missing o pid choice h.world = some (r, w)) :
    Lasting (h.push (.did pid o r h.world) w) := by
  have hstarted : ∀ {p c}, Event.start p c ∈ (h.push (.did pid o r h.world) w).trace →
      Event.start p c ∈ h.trace := fun hp => (List.mem_cons.mp hp).resolve_left nofun
  obtain ⟨added, hadded⟩ := members_of_joining ht hj hexec
  have hmember : ∀ m ∈ h.world.members.tables.members, m ∈ w.members.tables.members := fun m hm =>
    hadded ▸ List.mem_append_left added hm
  have huser : ∀ u ∈ h.world.members.tables.users, u ∈ w.members.tables.users := by
    rintro u hu
    obtain ⟨m, hm, rfl⟩ := List.mem_map.mp hu
    exact List.mem_map_of_mem (hmember m hm)
  refine ⟨unexpired_of_joining ht hj hexec hl.unexpired, fun p t he => ?_, fun p u member he => ?_,
    fun p code' u wallet hp he => ?_, fun later p code' u wallet earlier htrace hfirst hjoined => ?_⟩
  · rcases mem_log_did he with he | ⟨rfl, heq⟩
    · exact (hl.times p t he).trans (clock_le_of_exec hexec)
    · cases heq
      obtain ⟨-, rfl⟩ := exec_now hexec
      exact le_rfl
  · rcases mem_log_did he with he | ⟨rfl, heq⟩
    · obtain ⟨hmem, hu⟩ := hl.looks p u member he
      exact ⟨hmember member hmem, hu⟩
    · cases heq
      have hfound := find_of_look ht hj hexec
      refine ⟨hmember member (List.mem_of_find?_eq_some hfound.symm), ?_⟩
      simpa using List.find?_some hfound.symm
  · rcases mem_log_did he with he | ⟨rfl, heq⟩
    · exact huser u (hl.commits p code' u wallet (hstarted hp) he)
    · cases heq
      cases hd.start_unique p _ _ (hstarted hp) hstart
      rcases (members_of_commit ht hj hexec).2 rfl with ⟨invite, now, member, hlog⟩ | hu
      · have hlooked : ⟨.members (.tx (.findMember userId)), .ok (some member)⟩ ∈ log p h.trace :=
          hlog ▸ List.mem_cons_self
        obtain ⟨hmem, rfl⟩ := hl.looks p userId member hlooked
        exact List.mem_map_of_mem (hmember member hmem)
      · exact hu
  · rcases List.cons_eq_append_iff.mp htrace with ⟨-, heq⟩ | ⟨later, rfl, hold⟩
    · cases heq
    obtain ⟨hu, hlook⟩ := hl.replays later p code' u wallet earlier hold hfirst hjoined
    refine ⟨huser u hu, fun he => ?_⟩
    rcases mem_log_did he with he | ⟨rfl, heq⟩
    · exact hlook he
    · cases heq
      obtain ⟨m, hm, rfl⟩ := List.mem_map.mp hu
      have hnone := List.find?_eq_none.mp (find_of_look ht hj hexec).symm m hm
      exact hnone (decide_eq_true rfl)

/-- **An event that performs nothing** keeps it too: a join that has returned has committed. -/
theorem Lasting.idle (hl : Lasting h) {e : Event Op.Ret World Call (Except Exc Reply)}
    (he : ∀ pid es, log pid (e :: es) = log pid es) (hd : Disciplined Acting CallEnded h)
    (hd' : Disciplined Acting CallEnded (h.push e h.world)) : Lasting (h.push e h.world) := by
  have hlog : ∀ p, log p (h.push e h.world).trace = log p h.trace := fun p => he p h.trace
  refine ⟨hl.unexpired, fun p t ht => hl.times p t (hlog p ▸ ht), fun p u m hm => ?_,
    fun p code u wallet hp hcommit => ?_, fun later p code u wallet earlier htrace hfirst hjoined => ?_⟩
  · exact hl.looks p u m (hlog p ▸ hm)
  · rw [hlog] at hcommit
    obtain ⟨before, hdid⟩ := mem_log.mp hcommit
    obtain ⟨c, hc⟩ := hd.start_mem _ hdid
    cases hd'.start_unique p _ _ hp (List.mem_cons_of_mem e hc)
    exact hl.commits p code u wallet hc hcommit
  · rw [hlog]
    rcases List.cons_eq_append_iff.mp htrace with ⟨-, heq⟩ | ⟨later, rfl, hold⟩
    · obtain ⟨rfl, rfl⟩ := List.cons.inj heq
      obtain ⟨q, wallet', joined, hstart, hreturned⟩ := of_hasJoined hjoined
      obtain ⟨L, hL, -⟩ := hd.returned q _ _ hstart hreturned
      refine ⟨hl.commits q code u wallet' hstart (hL ▸ List.mem_cons_self), fun hlook => ?_⟩
      rw [log_eq_nil hfirst] at hlook
      cases hlook
    · exact hl.replays later p code u wallet earlier hold hfirst hjoined

end Lasting

section Runs

variable {missing : OnMissing} {maxWaitlist : ℤ} {d : Tables} {invites : List GroupInvite}
  {s : InvitesState}

/-- Everything that is kept while only joins start. -/
structure JoinsKeep (invites : List GroupInvite) (h : History) : Prop where
  booked : Booked invites h
  lasting : Lasting h
  locks : Locks invites h.trace
  held : ChangesHeld h

/-- **Every step of a run of joins** keeps all of it. -/
theorem JoinsKeep.step {h h' : History} (hinvites : Unused invites) (hk : JoinsKeep invites h)
    (hd : Disciplined Acting CallEnded h) (hd' : Disciplined Acting CallEnded h')
    (honly : OnlyJoins h'.trace) (hs : HistStep (system missing maxWaitlist) Acting h h') :
    JoinsKeep invites h' := by
  have hbooked := hk.booked.step hinvites hd hd' hs
  cases hs with
  | idle e he hlive =>
    have hdid := not_did_of_log he
    refine ⟨hbooked, hk.lasting.idle he hd hd', fun p code found before hmem => ?_,
      fun later p o r before earlier htrace => ?_⟩
    · exact hk.locks p code found before ((List.mem_cons.mp hmem).resolve_left fun heq =>
        hdid p _ _ _ heq.symm)
    · rcases List.cons_eq_append_iff.mp htrace with ⟨-, heq⟩ | ⟨later, rfl, hold⟩
      · exact absurd (List.cons.inj heq).1.symm (hdid p o r before)
      · rw [Hist.push_world, worldAt_cons hdid]
        exact hk.held later p o r before earlier hold
  | did pid c o choice r w hstart hD hexec hlive =>
    have hjoins := honly pid c (List.mem_cons_of_mem _ hstart)
    have htracks := hk.booked.tracks_of_start hd hstart hjoins
    obtain ⟨code, userId, walletAddress, rfl⟩ := hjoins
    cases hD with
    | join hj =>
      exact ⟨hbooked, hk.lasting.did hd hstart htracks hj hexec,
        locks_did hk.locks hinvites hk.lasting hk.booked htracks hj hexec,
        changesHeld_did hk.held htracks hj hexec⟩

theorem joinsKeep_of_reachable (hinvites : Unused invites)
    (hs : (system missing maxWaitlist).Reachable (.init (started d invites)) s)
    (honly : OnlyJoins s.hist.trace) : JoinsKeep invites s.hist := by
  refine hist_invariant (follows_ending missing maxWaitlist)
    (I := fun h => OnlyJoins h.trace → JoinsKeep invites h) (fun _ => ?_)
    (fun h h' hd hd' hk hstep _ honly' => ?_) hs honly
  · have hstarted : (system missing maxWaitlist).Reachable (.init (started d invites))
        (.init (started d invites)) := .refl
    have hbooked : Booked invites ⟨started d invites, []⟩ := booked_of_reachable hinvites hstarted
    have hlog : ∀ {p : ℕ} {e : Entry Op.Ret}, e ∉ log p ([] : Events) := List.not_mem_nil
    refine ⟨hbooked, ⟨fun invite hi => ?_, fun p t ht => absurd ht hlog, fun p u m hm => absurd hm hlog,
      fun p code u wallet hp => absurd hp List.not_mem_nil, ?_⟩,
      fun p code found before hmem => absurd hmem List.not_mem_nil, ?_⟩
    · rw [(hinvites.state invite hi).1]
      exact nofun
    · intro later pid code userId walletAddress earlier htrace
      exact absurd htrace.symm (List.append_ne_nil_of_right_ne_nil later (List.cons_ne_nil _ _))
    · intro later pid o r before earlier htrace
      exact absurd htrace.symm (List.append_ne_nil_of_right_ne_nil later (List.cons_ne_nil _ _))
  · have honly : OnlyJoins h.trace := fun pid c hc => by
      cases hstep with
      | idle e he hlive => exact honly' pid c (List.mem_cons_of_mem _ hc)
      | did p c' o choice r w _ _ _ _ => exact honly' pid c (List.mem_cons_of_mem _ hc)
    exact (hk honly).step hinvites hd hd' honly' hstep

/-! ### The second join -/

/-- A call has changed no row. -/
def ChangesNothing (pid : ℕ) (h : History) : Prop :=
  ∀ later o r before earlier, h.trace = later ++ Event.did pid o r before :: earlier →
    (worldAt h.world later).rows = before.rows

theorem changesNothing_of_log {h : History} (hk : ChangesHeld h) {pid : ℕ}
    (hlog : ∀ e ∈ log pid h.trace, heldWrite e = [] ∧ heldUpdate e = []) : ChangesNothing pid h := by
  intro later o r before earlier htrace
  have hmem : ∀ e ∈ (log pid earlier).reverse, heldWrite e = [] ∧ heldUpdate e = [] := by
    intro e he
    refine hlog e ?_
    rw [htrace, log_append, log_did_self]
    exact List.mem_append_right _ (List.mem_cons_of_mem _ (List.mem_reverse.mp he))
  exact hk later pid o r before earlier htrace
    (List.flatMap_eq_nil_iff.mpr fun e he => (hmem e he).1)
    (List.flatMap_eq_nil_iff.mpr fun e he => (hmem e he).2)

/-- A join locks its invite once. -/
theorem lock_unique {code : String} {userId : Uuid} {walletAddress : String} {L : Log Op.Ret}
    (hL : Lawful (Acting (.joinByCode code userId walletAddress)) L)
    {r r' : Except Exc (Option GroupInvite)} (h : ⟨.lockInvite code, r⟩ ∈ L)
    (h' : ⟨.lockInvite code, r'⟩ ∈ L) : r = r' := by
  have hsuffix : ∀ {r : Except Exc (Option GroupInvite)}, ⟨.lockInvite code, r⟩ ∈ L →
      (⟨.lockInvite code, r⟩ : Entry Op.Ret) :: begunLog <:+ L := by
    intro r h
    obtain ⟨L', hL', hD⟩ := hL.allowed h
    cases hD with
    | join hj =>
      cases hj
      exact hL'
  have heq := (List.suffix_of_suffix_length_le (hsuffix h) (hsuffix h') le_rfl).eq_of_length rfl
  cases heq
  rfl

/-- The invite lets somebody in when the call locks it. -/
def FindsUse (pid : ℕ) (code : String) (es : Events) : Prop :=
  ∃ r before, Event.did pid (.lockInvite code) r before ∈ es ∧
    ∃ invite ∈ before.invites, invite.code = code ∧ invite.usedCount < invite.maxUses

/-- **A join that finds a use and does not fail** is not stopped before the invite expires. -/
theorem not_stopped {h : History} {pid : ℕ} {code : String} {userId : Uuid} {walletAddress : String}
    (hk : JoinsKeep invites h)
    (hlawful : Lawful (Acting (.joinByCode code userId walletAddress)) (log pid h.trace))
    (hbefore : ∀ invite ∈ invites, invite.code = code → h.world.clock ≤ invite.expiresAt)
    (hworks : ∀ e ∈ log pid h.trace, failed e = false) (huse : FindsUse pid code h.trace) :
    ¬ Stopped code (log pid h.trace) := by
  obtain ⟨r, before, hdid, invite, hinvite, hcode, hunused⟩ := huse
  have hlock := mem_log.mpr ⟨before, hdid⟩
  cases r with
  | error e => exact absurd (hworks _ hlock) nofun
  | ok found =>
  have hlocked := hk.locks pid code found before hdid
  obtain rfl := (hlocked.found invite).mpr ⟨hinvite, hcode⟩
  -- the invite that has stopped the join is the one that was found
  have hsame : ∀ {found}, ⟨.lockInvite code, .ok found⟩ ∈ log pid h.trace → found = some invite :=
    fun h => Except.ok.inj (lock_unique hlawful h hlock)
  rintro (hnone | ⟨i, hi, hstatus⟩ | ⟨i, hi, now, hnow, hexpired⟩ | ⟨i, hi, hused⟩ | ⟨e, he, hfailed⟩)
  · cases hsame hnone
  · cases hsame hi
    exact hstatus ((hlocked.active invite hinvite).mpr hunused)
  · cases hsame hi
    obtain ⟨i, hi, hterms⟩ := List.mem_map.mp (hlocked.terms ▸ List.mem_map_of_mem hinvite)
    have hexpires : i.expiresAt = invite.expiresAt := congrArg (fun t => t.2.2.2) hterms
    have hicode : i.code = code := (congrArg (fun t => t.2.1) hterms).trans hcode
    have hclock := (hk.lasting.times pid now hnow).trans (hbefore i hi hicode)
    exact absurd (hexpires ▸ hclock) (not_le.mpr hexpired)
  · cases hsame hi
    exact absurd hunused (not_lt.mpr hused)
  · exact absurd ((hworks e he).symm.trans hfailed) nofun

/-- The call has returned the membership that the user has, and changed nothing. -/
def Replayed (userId : Uuid) (pid : ℕ) (x : Except Exc Reply) (h : History) : Prop :=
  (∃ membership ∈ h.world.members.tables.members, membership.userId = userId ∧
    x = .ok (.joined (.existing membership))) ∧ ChangesNothing pid h

/-- **A second join gives the membership back exactly when the invite has a use left**, in every run
of joins before the invite expires: a join by a user who has joined by the same code before returns
the membership of the user and changes no row, if and only if the invite is not used up when the
join locks it, and no operation of the join fails. -/
theorem replayed_iff (missing : OnMissing) (maxWaitlist : ℤ) (d : Tables) (invites : List GroupInvite)
    (hinvites : Unused invites) (s : InvitesState)
    (hs : (system missing maxWaitlist).Reachable (.init (started d invites)) s)
    (honly : OnlyJoins s.hist.trace) (code : String)
    (hbefore : ∀ invite ∈ invites, invite.code = code → s.hist.world.clock ≤ invite.expiresAt)
    (pid : ℕ) (userId : Uuid) (hagain : joinsAgain code userId pid s.hist.trace = true)
    (x : Except Exc Reply) (hx : Event.returned pid x ∈ s.hist.trace) :
    Replayed userId pid x s.hist ↔
      FindsUse pid code s.hist.trace ∧ ∀ e ∈ log pid s.hist.trace, failed e = false := by
  have hk := joinsKeep_of_reachable hinvites hs honly
  have hd := disciplined_of_reachable (follows_ending missing maxWaitlist) hs
  obtain ⟨later, walletAddress, earlier, htrace, hjoined⟩ := of_joinsAgain hagain
  have hstart : Event.start pid (.joinByCode code userId walletAddress) ∈ s.hist.trace := by
    rw [htrace]
    exact List.mem_append_right _ List.mem_cons_self
  have hended := hd.returned pid _ x hstart hx
  obtain ⟨-, hfinds⟩ := hk.lasting.replays later pid code userId walletAddress earlier htrace
    (starts_first_of_reachable hs htrace) hjoined
  constructor
  · rintro ⟨⟨membership, -, -, rfl⟩, -⟩
    obtain ⟨L, hlog, hreached⟩ := hended
    cases hreached with
    | @existing invite now hadmitting _ =>
    have hlock : ⟨.lockInvite code, .ok (some invite)⟩ ∈ log pid s.hist.trace := by
      rw [hlog]
      simp [lookedLog, timedLog, lockedLog]
    obtain ⟨before, hdid⟩ := mem_log.mp hlock
    obtain ⟨hinvite, hcode⟩ := ((hk.locks pid code _ before hdid).found invite).mp rfl
    refine ⟨⟨_, before, hdid, invite, hinvite, hcode, hadmitting.unused⟩, ?_⟩
    rw [hlog]
    simp [lookedLog, timedLog, lockedLog, begunLog, failed]
  · rintro ⟨huse, hworks⟩
    cases x with
    | error e => exact absurd hended (not_stopped hk (hd.lawful pid _ hstart) hbefore hworks huse)
    | ok reply =>
    cases reply with
    | members reply => exact hended.elim
    | expired n => exact hended.elim
    | joined joined =>
    obtain ⟨L, hlog, hreached⟩ := hended
    cases hreached with
    | @existing invite now hadmitting membership =>
      have hlook : ⟨.members (.tx (.findMember userId)), .ok (some membership)⟩ ∈ log pid s.hist.trace := by
        rw [hlog]
        exact List.mem_cons_of_mem _ List.mem_cons_self
      obtain ⟨hmem, huser⟩ := hk.lasting.looks pid userId membership hlook
      refine ⟨⟨membership, hmem, huser, rfl⟩, changesNothing_of_log hk.held ?_⟩
      rw [hlog]
      simp [lookedLog, timedLog, lockedLog, begunLog, heldWrite, heldUpdate]
    | @created invite now hadmitting =>
      refine absurd ?_ hfinds
      rw [hlog, joinedLog, markedLog]
      split <;> simp [countedLog, lookedLog]

end Runs

/-! ### The only use -/

namespace Trial

/-- A user joins by the invite, which takes `n` operations after the clock is read, and starts to
join again. -/
def rejoining (n : ℕ) : List (Move Choice Call) :=
  .start (.joinByCode "code" 1 "G1") :: dones 0 2 ++ .run 0 (.time 0) :: dones 0 n ++
    [.finish 0, .start (.joinByCode "code" 1 "G1")]

/-- The call `pid` has returned `x`. -/
def returns (pid : ℕ) (x : Except Exc Reply) : Event Op.Ret World Call (Except Exc Reply) → Bool
  | .returned p x' => p = pid ∧ x' = x
  | _ => false

theorem mem_of_returns {pid : ℕ} {x : Except Exc Reply} {es : Events}
    (h : es.any (returns pid x) = true) : Event.returned pid x ∈ es := by
  obtain ⟨e, he, hreturns⟩ := List.any_eq_true.mp h
  unfold returns at hreturns
  split at hreturns
  next p x' =>
    obtain ⟨rfl, rfl⟩ := of_decide_eq_true hreturns
    exact he
  next => cases hreturns

/-- The membership of the user. -/
def membership : Member where
  id := 0
  userId := 1
  walletAddress := "G1"

theorem unused_two : Unused [{ invite with maxUses := 2 }] := ⟨by decide, by decide, by decide⟩

end Trial

/-- With an invite for two, the second join returns the membership. -/
theorem replayed_iff_two : ∃ s : InvitesState,
    Event.returned 1 (.ok (.joined (.existing Trial.membership))) ∈ s.hist.trace ∧
      (Replayed 1 1 (.ok (.joined (.existing Trial.membership))) s.hist ↔
        FindsUse 1 "code" s.hist.trace ∧ ∀ e ∈ log 1 s.hist.trace, failed e = false) := by
  obtain ⟨s, hs, hdone⟩ := System.exists_of_replay (system .inserts 50) (fun _ _ => True)
    (.init (started Trial.empty [{ Trial.invite with maxUses := 2 }]))
    (Trial.rejoining 4 ++ Trial.dones 1 2 ++ .run 1 (.time 0) :: Trial.dones 1 2 ++ [.finish 1])
    (fun s => s.hist.trace.any (Trial.returns 1 (.ok (.joined (.existing Trial.membership)))) &&
      joinsAgain "code" 1 1 s.hist.trace && decide (OnlyJoins s.hist.trace) &&
      decide (s.hist.world.clock ≤ 10)) (by decide +kernel)
  simp only [Bool.and_eq_true, decide_eq_true_eq] at hdone
  obtain ⟨⟨⟨hreturns, hagain⟩, honly⟩, hclock⟩ := hdone
  have hreturned := Trial.mem_of_returns hreturns
  refine ⟨s, hreturned, replayed_iff .inserts 50 _ _ Trial.unused_two s hs honly "code" ?_ 1 1 hagain _
    hreturned⟩
  intro invite hinvite _
  obtain rfl := List.mem_singleton.mp hinvite
  exact hclock

/-- With an invite for one, which the first join has used up, the second join is turned away. -/
theorem not_replayed : ¬ ∀ (missing : OnMissing) (maxWaitlist : ℤ) (d : Tables)
    (invites : List GroupInvite), Unused invites → ∀ s : InvitesState,
    (system missing maxWaitlist).Reachable (.init (started d invites)) s →
    OnlyJoins s.hist.trace → ∀ code : String,
    (∀ invite ∈ invites, invite.code = code → s.hist.world.clock ≤ invite.expiresAt) →
    ∀ (pid : ℕ) (userId : Uuid), joinsAgain code userId pid s.hist.trace = true →
    (∀ e ∈ log pid s.hist.trace, failed e = false) → ∀ x : Except Exc Reply,
    Event.returned pid x ∈ s.hist.trace → Replayed userId pid x s.hist := by
  intro hall
  obtain ⟨s, hs, hdone⟩ := System.exists_of_replay (system .inserts 50) (fun _ _ => True)
    (.init (started Trial.empty [Trial.invite]))
    (Trial.rejoining 5 ++ Trial.dones 1 3 ++ [.finish 1])
    (fun s => s.hist.trace.any (Trial.returns 1 (.error (gone "Invite has expired"))) &&
      joinsAgain "code" 1 1 s.hist.trace && decide (OnlyJoins s.hist.trace) &&
      decide (s.hist.world.clock ≤ 10) && (log 1 s.hist.trace).all (failed · == false))
    (by decide +kernel)
  simp only [Bool.and_eq_true, decide_eq_true_eq] at hdone
  obtain ⟨⟨⟨⟨hreturns, hagain⟩, honly⟩, hclock⟩, hworks⟩ := hdone
  have hbefore : ∀ invite ∈ [Trial.invite], invite.code = "code" → s.hist.world.clock ≤ invite.expiresAt := by
    intro invite hinvite _
    obtain rfl := List.mem_singleton.mp hinvite
    exact hclock
  obtain ⟨⟨membership, -, -, hreply⟩, -⟩ := hall .inserts 50 _ _ Trial.unused s hs honly "code" hbefore
    1 1 hagain (fun e he => beq_iff_eq.mp (List.all_eq_true.mp hworks e he)) _
    (Trial.mem_of_returns hreturns)
  cases hreply

end Ahjoor.Members.Invites
