import Ahjoor.Async.Interleaving
import Ahjoor.Members.WaitlistService

/-!
# The group row behind the scheduled jobs

What the jobs and the requests that move a group share: the row of the group, its memberships and
the clock. A sweep handles the groups one by one and the rows of one group do not depend on those
of another, so the world has one group, and a sweep's work on other groups is time that passes.

The row is kept with its earlier versions. `save(group)` writes the columns that differ from the
row, and sets `updatedAt` when there are any; a copy that was read before an other write brings the
old values back. The transaction of `advanceRound` shows others none of its writes before it
commits, so they are applied by the commit.

What other requests do to the memberships (payments, joining, leaving, suspensions, payouts) is
left to the environment, which may replace them at any time; so is what becomes of the contract.
-/

namespace Ahjoor.Scheduler

open Async

/-! ### The row -/

/-- The columns of the group that the jobs use. -/
structure GroupRow where
  id : Uuid := 0
  name : String
  contractAddress : Option String := none
  adminWallet : String
  contributionAmount : String
  roundDuration : ℤ
  status : GroupStatus := .pending
  currentRound : ℤ := 0
  totalRounds : ℤ
  payoutOrderStrategy : Members.PayoutOrderStrategy := .sequential
  minMembers : ℤ
  staleAt : Option ℤ := none
  updatedAt : ℤ := 0
  deriving DecidableEq, Repr

/-- The memberships of a group, each under its own key. -/
structure Memberships where
  rows : List Membership := []
  nodup : (rows.map (·.id)).Nodup := by decide

/-- What `get_state` of the contract returns, as far as it is a number and a string. -/
structure GroupState where
  current_round : Option ℤ := none
  status : Option String := none
  deriving DecidableEq, Repr

/-- The rows of a group, the latest version first, the state of its contract, and the time. -/
structure World where
  versions : List GroupRow
  members : Memberships := {}
  contract : Option GroupState := none
  clock : ℤ := 0

namespace Memberships

/-- Change every membership under its key. -/
def modify (ms : Memberships) (f : Membership → Membership) (hf : ∀ m, (f m).id = m.id) :
    Memberships where
  rows := ms.rows.map f
  nodup := by
    have hids : (·.id) ∘ f = Membership.id := funext hf
    rw [List.map_map, hids]
    exact ms.nodup

/-- `save(membership)`: the row with its key, or a new one. -/
def save (ms : Memberships) (m : Membership) : Memberships :=
  if h : m.id ∈ ms.rows.map (·.id) then
    ms.modify (fun m' => if m'.id = m.id then m else m') fun m' => by split_ifs with heq <;> simp_all
  else
    { rows := ms.rows ++ [m]
      nodup := by
        rw [List.map_append, List.nodup_append_comm]
        exact List.nodup_cons.mpr ⟨h, ms.nodup⟩ }

/-- `save(memberships)`. -/
def saveAll (ms : Memberships) (members : List Membership) : Memberships := members.foldl save ms

/-- `UPDATE memberships SET "hasPaidCurrentRound" = false` of all members or of the active ones. -/
def resetPaid (ms : Memberships) (onlyActive : Bool) : Memberships :=
  ms.modify
    (fun m =>
      if onlyActive ∧ m.status ≠ .active then m else { m with hasPaidCurrentRound := false })
    fun m => by split_ifs <;> rfl

end Memberships

namespace World

/-- The row of the group. -/
def group (w : World) : Option GroupRow := w.versions.head?

/-- `save(group)`. -/
def save (w : World) (group : GroupRow) : World :=
  if w.group.any fun row => { group with updatedAt := row.updatedAt } = row then w
  else { w with versions := { group with updatedAt := w.clock } :: w.versions }

/-- `UPDATE groups SET "currentRound" = "currentRound" + 1`. -/
def increment (w : World) : World :=
  match w.group with
  | none => w
  | some row =>
      { w with
        versions := { row with currentRound := row.currentRound + 1, updatedAt := w.clock } ::
          w.versions }

end World

/-! ### Operations -/

/-- An awaited operation. -/
inductive Op
  | findGroup
  | findGroupWithMembers
  | findActiveMembers
  | countMembers
  | findMember (sel : MembershipWhere)
  | saveGroup (group : GroupRow)
  | saveMembers (members : List Membership)
  | resetPaid (onlyActive : Bool)
  /-- the commit of a transaction that has saved memberships and the group -/
  | commit (members : List Membership) (group : GroupRow)
  | increment
  | deployRoscaContract (group : GroupRow)
  | disbursePayout (contractAddress recipient amount : String)
  | distributePayout (round : ℤ)
  | getGroupState (contractAddress : String)
  | acquireLock (key : String)
  | releaseLock (key : String)
  | notify (ns : List Notification)
  | dispatchEvent (event : String)
  | createLog (action : String)
  | now
  /-- what other requests do to the memberships -/
  | changeMembers (members : Memberships)
  /-- what others do to the contract -/
  | changeContract (state : Option GroupState)

/-- What an operation returns. -/
def Op.Ret : Op → Type
  | findGroup => Except Exc (Option GroupRow)
  | findGroupWithMembers => Except Exc (Option (GroupRow × List Membership))
  | findActiveMembers => Except Exc (List Membership)
  | countMembers => Except Exc ℕ
  | findMember _ => Except Exc (Option Membership)
  | saveGroup _ | saveMembers _ | resetPaid _ | commit _ _ | increment | distributePayout _
  | notify _ | dispatchEvent _ | createLog _ => Except Exc Unit
  | deployRoscaContract _ | disbursePayout _ _ _ => Except Exc String
  | getGroupState _ => Except Exc (Option GroupState)
  | acquireLock _ => Bool
  | now => ℤ
  | releaseLock _ | changeMembers _ | changeContract _ => Unit

/-- What the environment decides about one operation. -/
inductive Choice
  | done
  | fails (message : String)
  /-- it takes effect, and the reply is lost -/
  | lost (message : String)
  | text (s : String)
  | time (t : ℤ)

/-- What a write leaves. -/
def Op.write : Op → World → World
  | saveGroup group, w => w.save group
  | saveMembers members, w => { w with members := w.members.saveAll members }
  | resetPaid onlyActive, w => { w with members := w.members.resetPaid onlyActive }
  | commit members group, w => World.save { w with members := w.members.saveAll members } group
  | increment, w => w.increment
  | changeMembers members, w => { w with members }
  | changeContract state, w => { w with contract := state }
  | _, w => w

/-- What an operation does. -/
def exec : (o : Op) → ℕ → Choice → World → Option (o.Ret × World)
  | .findGroup, _, .done, w => some (.ok w.group, w)
  | .findGroupWithMembers, _, .done, w => some (.ok (w.group.map fun g => (g, w.members.rows)), w)
  | .findActiveMembers, _, .done, w => some (.ok (w.members.rows.filter (·.status = .active)), w)
  | .countMembers, _, .done, w => some (.ok w.members.rows.length, w)
  | .findMember sel, _, .done, w => some (.ok (w.members.rows.find? sel.selects), w)
  | .findGroup, _, .fails msg, w => some (.error (.error msg), w)
  | .findGroupWithMembers, _, .fails msg, w => some (.error (.error msg), w)
  | .findActiveMembers, _, .fails msg, w => some (.error (.error msg), w)
  | .countMembers, _, .fails msg, w => some (.error (.error msg), w)
  | .findMember _, _, .fails msg, w => some (.error (.error msg), w)
  | .saveGroup group, _, .done, w => some (.ok (), (Op.saveGroup group).write w)
  | .saveMembers members, _, .done, w => some (.ok (), (Op.saveMembers members).write w)
  | .resetPaid onlyActive, _, .done, w => some (.ok (), (Op.resetPaid onlyActive).write w)
  | .commit members group, _, .done, w => some (.ok (), (Op.commit members group).write w)
  | .increment, _, .done, w => some (.ok (), Op.increment.write w)
  | .saveGroup _, _, .fails msg, w | .saveMembers _, _, .fails msg, w
  | .resetPaid _, _, .fails msg, w | .commit _ _, _, .fails msg, w
  | .increment, _, .fails msg, w => some (.error (.error msg), w)
  | .saveGroup group, _, .lost msg, w =>
      some (.error (.error msg), (Op.saveGroup group).write w)
  | .saveMembers members, _, .lost msg, w =>
      some (.error (.error msg), (Op.saveMembers members).write w)
  | .resetPaid onlyActive, _, .lost msg, w =>
      some (.error (.error msg), (Op.resetPaid onlyActive).write w)
  | .commit members group, _, .lost msg, w =>
      some (.error (.error msg), (Op.commit members group).write w)
  | .increment, _, .lost msg, w => some (.error (.error msg), Op.increment.write w)
  | .distributePayout _, _, .done, w | .notify _, _, .done, w | .dispatchEvent _, _, .done, w
  | .createLog _, _, .done, w => some (.ok (), w)
  | .distributePayout _, _, .fails msg, w | .notify _, _, .fails msg, w
  | .dispatchEvent _, _, .fails msg, w | .createLog _, _, .fails msg, w =>
      some (.error (.error msg), w)
  | .deployRoscaContract _, _, .text s, w | .disbursePayout _ _ _, _, .text s, w => some (.ok s, w)
  | .deployRoscaContract _, _, .fails msg, w | .disbursePayout _ _ _, _, .fails msg, w =>
      some (.error (.error msg), w)
  | .getGroupState _, _, .done, w => some (.ok w.contract, w)
  | .getGroupState _, _, .fails msg, w => some (.error (.error msg), w)
  | .acquireLock _, _, .done, w => some (true, w)
  | .acquireLock _, _, .fails _, w => some (false, w)
  | .releaseLock _, _, .done, w => some ((), w)
  | .now, _, .time t, w => if w.clock ≤ t then some (t, { w with clock := t }) else none
  | .changeMembers members, _, .done, w => some ((), (Op.changeMembers members).write w)
  | .changeContract state, _, .done, w => some ((), (Op.changeContract state).write w)
  | _, _, _, _ => none

/-! ### What an operation changes -/

section Changes

variable {o : Op} {pid : ℕ} {choice : Choice} {w w' : World} {r : o.Ret}

/-- **An operation** takes effect, does nothing, or takes time. -/
theorem world_of_exec (h : exec o pid choice w = some (r, w')) :
    w' = o.write w ∨ w' = w ∨ o = .now ∧ ∃ t, w.clock ≤ t ∧ w' = { w with clock := t } := by
  cases o with
  | now =>
    cases choice with
    | time t =>
      rw [exec] at h
      split at h
      · next hle =>
        exact .inr (.inr ⟨rfl, t, hle, (Prod.mk.inj (Option.some.inj h)).2.symm⟩)
      · cases h
    | _ => cases h
  | _ => cases choice <;> cases h <;> first | exact .inl rfl | exact .inr (.inl rfl)

end Changes

end Ahjoor.Scheduler
