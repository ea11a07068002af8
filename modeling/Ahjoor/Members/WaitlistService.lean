import Ahjoor.Members.MembershipsService

/-!
# `WaitlistService`, the activation of a group, and the calls on its members

The notifications of admitted users are scheduled with `setImmediate` and only logged when they
fail, so they are left out.
-/

namespace Ahjoor.Members

open Async

/-! ### The waitlist -/

/-- `joinWaitlist(groupId, userId, walletAddress)`, with the configured `maxWaitlist`. -/
def joinWaitlist (maxWaitlist : ℤ) (userId : Uuid) (walletAddress : String) : Service ℕ := do
  let found ← db .findGroup
  let group ← Routine.valueOr found (notFound "Group not found")
  let isMember ← db (.findMember userId)
  Routine.throwWhen isMember.isSome (conflict "User is already a member of this group")
  let existing ← db (.findWaiting userId)
  Routine.throwWhen existing.isSome (conflict "User is already on the waitlist")
  let memberCount : ℕ ← db .countMembers
  Routine.throwWhen (memberCount < group.maxMembers)
    (badRequest "Group is not full; join directly as a member")
  let waitlistCount : ℕ ← db .countWaiting
  Routine.throwWhen (maxWaitlist ≤ waitlistCount)
    (badRequest s!"Waitlist is full (max {maxWaitlist} users)")
  db (.write (.insertEntry { id := 0, userId, walletAddress, position := waitlistCount + 1 }))
  pure (waitlistCount + 1)

/-- `leaveWaitlist(groupId, userId)`. -/
def leaveWaitlist (userId : Uuid) : Service Unit := do
  let found ← db (.findWaiting userId)
  let entry ← Routine.valueOr found (notFound "Waitlist entry not found")
  db (.write (.saveEntry { entry with status := .cancelled }))
  db (.write (.closeGap entry.position))

/-- How many users `admitFromWaitlist(groupId, maxToAdmit)` may admit. -/
def admissionLimit (freeSlots : ℤ) (maxToAdmit : Option ℤ) : ℤ :=
  match maxToAdmit with
  | none => freeSlots
  | some maxToAdmit => min freeSlots (max 0 maxToAdmit)

/-- The membership of an admitted user. -/
def admittedMember (entry : WaitlistEntry) (payoutOrder : ℤ) : Member where
  id := 0
  userId := entry.userId
  walletAddress := entry.walletAddress
  payoutOrder := some payoutOrder

/-- The loop over the entries; also the users that it admits. -/
def admitEntries : List WaitlistEntry → ℤ → Service (List Uuid)
  | [], _ => pure []
  | entry :: entries, nextPayoutOrder => do
      tx (.write (.insertMember (admittedMember entry nextPayoutOrder)))
      tx (.write (.saveEntry { entry with status := .admitted }))
      let admitted ← admitEntries entries (nextPayoutOrder + 1)
      pure (entry.userId :: admitted)

/-- `admitFromWaitlistInTransaction(manager, groupId, maxToAdmit)`. -/
def admitFromWaitlistInTransaction (maxToAdmit : Option ℤ) : Service (List Uuid) := do
  let found ← lockGroup
  match found with
  | none => pure []
  | some group => do
      let memberCount : ℕ ← tx .countMembers
      let freeSlots := group.maxMembers - memberCount
      if freeSlots ≤ 0 then
        pure []
      else if admissionLimit freeSlots maxToAdmit = 0 then
        pure []
      else do
        let entries ← Routine.call (.lockWaiting (admissionLimit freeSlots maxToAdmit).toNat)
          fun r => r
        if entries.isEmpty then
          pure []
        else do
          let maxOrder ← tx .maxPayoutOrder
          admitEntries entries (nextPayoutOrder maxOrder)

/-- `admitFromWaitlist(groupId, maxToAdmit)`. -/
def admitFromWaitlist (maxToAdmit : Option ℤ) : Service (List Uuid) :=
  transaction (admitFromWaitlistInTransaction maxToAdmit)

/-! ### Activation -/

/-- Exchange two places of a list. -/
def swap (indices : List ℤ) (i j : ℕ) : List ℤ :=
  (indices.set i (indices.getD j 0)).set j (indices.getD i 0)

/-- The shuffled places of `n` members; `random i` is what is drawn for place `i`. -/
def shuffledIndices (random : ℕ → ℕ) (n : ℕ) : List ℤ :=
  ((List.range n).reverse.filter (0 < ·)).foldl (fun indices i => swap indices i (random i % (i + 1)))
    ((List.range n).map (↑))

/-- The places that a strategy assigns or checks when the group is activated. -/
def assignPayoutOrders (strategy : PayoutOrderStrategy) (random : ℕ → ℕ) (members : List Member) :
    Service Unit :=
  match strategy with
  | .sequential => pure ()
  | .random =>
      Routine.forEach (members.zip (shuffledIndices random members.length)) fun x =>
        db (.write (.saveMember { x.1 with payoutOrder := some x.2 }))
  | .adminDefined => do
      let orders := members.map (·.payoutOrder)
      Routine.throwWhen (orders.any (·.isNone))
        (badRequest "All members must have a payout order for ADMIN_DEFINED strategy")
      let sortedOrders := (orders.map (·.getD 0)).insertionSort (· ≤ ·)
      Routine.throwWhen (sortedOrders ≠ (List.range members.length).map (↑))
        (badRequest "Payout orders must be a continuous sequence starting from 0")

/-- Take the activation back. -/
def rollBackActivation (savedGroup : GroupRow) : Service Unit := do
  db (.write (.saveGroup { savedGroup with status := .pending, currentRound := 0 }))
  throw (badRequest "Failed to deploy on-chain contract; activation rolled back")

/-- Store the address of the deployed contract. -/
def storeContractAddress (savedGroup : GroupRow) : Service Unit := do
  db (.write (.saveGroup savedGroup))
  tryCatch (Routine.call (.dispatchEvent "GROUP_ACTIVATED") fun r => r) fun _ => pure ()

/-- `activateGroup(groupId, adminWallet)`. -/
def activateGroup (adminWallet : String) (random : ℕ → ℕ) : Service Unit := do
  let found ← db .findGroupWithMembers
  let (group, members) ← Routine.valueOr found (notFound "Group not found")
  Routine.throwWhen (group.adminWallet ≠ adminWallet)
    (forbidden "Only the group admin can activate this group")
  Routine.throwWhen (group.status ≠ .pending) (badRequest "Group is not in a pending state")
  Routine.throwWhen ((members.length : ℤ) < group.minMembers)
    (badRequest "Group does not have enough members")
  assignPayoutOrders group.payoutOrderStrategy random members
  let savedGroup := { group with status := .active, currentRound := 1 }
  db (.write (.saveGroup savedGroup))
  let deployed ← tryCatch
    (Routine.call (.deployRoscaContract savedGroup) fun r => r.map some) fun _ => pure none
  match deployed with
  | none => rollBackActivation savedGroup
  | some contractAddress =>
      let savedGroup := { savedGroup with contractAddress := some contractAddress }
      tryCatch (storeContractAddress savedGroup) fun _ => rollBackActivation savedGroup

/-! ### The system -/

/-- The calls on the members of a group, and the database itself. -/
inductive Call
  | addMember (userId : Uuid) (walletAddress : String)
  | removeMember (userId : Uuid)
  | leaveGroup (userId : Uuid)
  | suspendMember (targetUserId requestingUserId : Uuid) (reason : String)
  | reinstateMember (targetUserId requestingUserId : Uuid)
  | joinWaitlist (userId : Uuid) (walletAddress : String)
  | leaveWaitlist (userId : Uuid)
  | admitFromWaitlist (maxToAdmit : Option ℤ)
  | activateGroup (adminWallet : String) (random : ℕ → ℕ)
  | dropSession (pid : ℕ)

/-- Nobody leaves in the call, and no membership is suspended or reinstated. -/
def Call.seats : Call → Bool
  | .addMember _ _ | .joinWaitlist _ _ | .leaveWaitlist _ | .admitFromWaitlist _
  | .activateGroup _ _ | .dropSession _ => true
  | .removeMember _ | .leaveGroup _ | .suspendMember _ _ _ | .reinstateMember _ _ => false

/-- What a call returns. -/
inductive Reply
  | done
  | position (n : ℕ)
  | admitted (userIds : List Uuid)
  deriving DecidableEq

/-- The body of a call. -/
def Call.body (maxWaitlist : ℤ) : Call → Service Reply
  | addMember userId walletAddress => do
      Members.addMember userId walletAddress
      pure .done
  | removeMember userId => do
      Members.removeMember userId
      pure .done
  | leaveGroup userId => do
      Members.leaveGroup userId
      pure .done
  | suspendMember targetUserId requestingUserId reason => do
      Members.suspendMember targetUserId requestingUserId reason
      pure .done
  | reinstateMember targetUserId requestingUserId => do
      Members.reinstateMember targetUserId requestingUserId
      pure .done
  | joinWaitlist userId walletAddress => do
      let position ← Members.joinWaitlist maxWaitlist userId walletAddress
      pure (.position position)
  | leaveWaitlist userId => do
      Members.leaveWaitlist userId
      pure .done
  | admitFromWaitlist maxToAdmit => do
      let userIds ← Members.admitFromWaitlist maxToAdmit
      pure (.admitted userIds)
  | activateGroup adminWallet random => do
      Members.activateGroup adminWallet random
      pure .done
  | dropSession pid => Routine.call (.dropSession pid) fun _ => .ok .done

/-- The members of a group. -/
def system (missing : OnMissing) (maxWaitlist : ℤ) :
    System Op.Ret Choice World Call (Except Exc Reply) where
  exec := exec missing
  body c := (c.body maxWaitlist ()).bind fun x => .ret x.1

/-- The history of a run. -/
abbrev MembersHist := Hist Op.Ret World Call (Except Exc Reply)

/-- The state of a run. -/
abbrev MembersState := State Op.Ret World Call (Except Exc Reply)

/-! ### Schedules -/

namespace Sample

/-- `n` operations of call `pid` that are done. -/
def dones (pid n : ℕ) : List (Move Choice Call) := List.replicate n (.run pid .done)

/-- A whole call of `n` operations. -/
def whole (pid n : ℕ) (c : Call) : List (Move Choice Call) :=
  .start c :: dones pid n ++ [.finish pid]

end Sample

end Ahjoor.Members
