import Ahjoor.Async.Discipline
import Ahjoor.Members.Orders
import Ahjoor.Members.Saving

/-!
# How the calls number the members

What a call knows of the payout orders from its own log: how far a departure has come with its
renumbering, and which order the next insertion of a transaction takes. Every call on the members
writes only what follows from what it has read.
-/

namespace Ahjoor.Members

open Async

/-! ### Renumberings -/

/-- How far a departure has come. -/
inductive Progress
  | idle
  /-- the membership has been deleted -/
  | departed (member : Member)
  /-- the others have been loaded, and these saves are left -/
  | saving (writes : List Write)
  /-- an operation has failed on the way -/
  | stuck
  | done
  deriving DecidableEq

/-- What an operation contributes to a departure. -/
def Progress.advance : Entry Op.Ret → Progress → Progress
  | ⟨.db (.write (.removeMember member)), r⟩, p => if Except.isOk r then .departed member else p
  | ⟨.db .findMembers, .ok members⟩, .departed member =>
      .saving (resequenceWrites member.payoutOrder members)
  | ⟨.db .findMembers, .error _⟩, .departed _ => .stuck
  | ⟨.db (.write (.saveMember _)), .ok _⟩, .saving (_ :: writes) => .saving writes
  | ⟨.db (.write (.saveMember _)), _⟩, .saving _ => .stuck
  | ⟨.notify _, _⟩, _ => .done
  | _, p => p

/-- How far the departure of a call has come. -/
def progress (L : Log Op.Ret) : Progress := L.foldr Progress.advance .idle

/-- The membership has been deleted, and the renumbering is not complete. -/
def Progress.isOpen : Progress → Bool
  | departed _ | saving _ | stuck => true
  | idle | done => false

/-! ### Transactions -/

/-- What an operation does to the order that the next insertion takes. -/
def claim : Entry Op.Ret → Option ℤ → Option ℤ
  | ⟨.tx .maxPayoutOrder, .ok maxOrder⟩, _ => some (nextPayoutOrder maxOrder)
  | ⟨.tx (.write (.insertMember _)), .ok _⟩, k => k.map (· + 1)
  | _, k => k

/-- The payout order that the next insertion of a transaction takes, once it has read `MAX`. -/
def claimed (L : Log Op.Ret) : Option ℤ := L.foldr claim none

/-- The entry grants the lock of the group. -/
def grantsLock : Entry Op.Ret → Bool
  | ⟨.lockGroup, .ok (some _)⟩ => true
  | _ => false

/-- The call has been granted the lock of the group. -/
def hasLocked (L : Log Op.Ret) : Bool := L.any grantsLock

/-! ### The discipline -/

/-- The call has read under its lock that the orders are not sequential. -/
def LocksOther (L : Log Op.Ret) : Prop :=
  ∃ group : GroupRow, (⟨.lockGroup, .ok (some group)⟩ : Entry Op.Ret) ∈ L ∧
    group.payoutOrderStrategy ≠ .sequential

/-- The call has loaded this strategy with the group. -/
def LoadsStrategy (strategy : PayoutOrderStrategy) (L : Log Op.Ret) : Prop :=
  ∃ (group : GroupRow) (members : List Member),
    (⟨.db .findGroupWithMembers, .ok (some (group, members))⟩ : Entry Op.Ret) ∈ L ∧
      group.payoutOrderStrategy = strategy

/-- The operations that follow from what the call has done and read; only a departure renumbers. -/
def Numbers (leaves : Bool) (L : Log Op.Ret) : Op → Prop
  | .db (.write (.removeMember _)) => progress L = .idle ∧ claimed L = none
  | .db (.write (.saveMember member)) =>
      (∃ writes, progress L = .saving (.saveMember member :: writes)) ∨
        ∃ strategy, strategy ≠ .sequential ∧ LoadsStrategy strategy L
  | .db (.write (.saveGroup group)) => LoadsStrategy group.payoutOrderStrategy L
  | .db (.write _) => False
  | .db .findMembers => leaves = true ∧ ∃ member, progress L = .departed member
  | .notify _ => progress L = .saving []
  | .startTransaction => L = []
  | .tx (.write (.insertMember member)) =>
      (∃ k, claimed L = some k ∧ member.payoutOrder = some k) ∨ LocksOther L
  | .tx (.write (.saveEntry _)) => True
  | .tx (.write _) => False
  | .tx .maxPayoutOrder => hasLocked L = true ∧ claimed L = none ∧ progress L = .idle
  | _ => True

/-- The calls that number the members, the activation, and the database itself. -/
def Call.numbers : Call → Bool
  | .addMember _ _ | .removeMember _ | .leaveGroup _ | .admitFromWaitlist _ | .activateGroup _ _
  | .dropSession _ => true
  | .suspendMember _ _ _ | .reinstateMember _ _ | .joinWaitlist _ _ | .leaveWaitlist _ => false

/-- The call is a departure. -/
def Call.leaves : Call → Bool
  | .leaveGroup _ => true
  | _ => false

variable {L : Log Op.Ret} {α : Type} {leaves : Bool}

/-- An operation of which nothing need be known. -/
theorem obeys_call {o : Op} {out : o.Ret → Except Exc α} {Q : α → Unit → Log Op.Ret → Prop}
    (ho : Numbers leaves L o) (hok : ∀ r a, out r = .ok a → Q a () (⟨o, r⟩ :: L)) :
    Obeys (Numbers leaves) (Routine.call o out) Q Anyhow () L := by
  refine Obeys.call ho fun r => ?_
  cases hout : out r with
  | ok a => exact hok r a hout
  | error e => trivial

theorem obeys_valueOr {v : Option α} {e : Exc} {Q : α → Unit → Log Op.Ret → Prop}
    (hsome : ∀ a, v = some a → Q a () L) : Obeys (Numbers leaves) (Routine.valueOr v e) Q Anyhow () L := by
  cases v with
  | some a => exact Obeys.pure (hsome a rfl)
  | none => exact Obeys.throw trivial

theorem obeys_throwWhen {c : Bool} {e : Exc} {Q : Unit → Unit → Log Op.Ret → Prop}
    (hpass : Q () () L) : Obeys (Numbers leaves) (Routine.throwWhen c e) Q Anyhow () L := by
  cases c with
  | true => exact Obeys.throw trivial
  | false => exact Obeys.pure hpass

/-! ### Departures -/

theorem obeys_removeMember (userId : Uuid) :
    Obeys (Numbers leaves) (removeMember userId) Anyhow Anyhow () [] := by
  refine Obeys.bind (Obeys.bind (obeys_call trivial fun r found _ => ?_))
  refine Obeys.bind (obeys_valueOr fun group _ => ?_)
  refine obeys_throwWhen ?_
  refine Obeys.bind (obeys_call trivial fun r' found' _ => ?_)
  refine Obeys.bind (obeys_valueOr fun membership _ => ?_)
  exact obeys_call ⟨rfl, rfl⟩ fun _ _ _ => trivial

/-- The renumbering makes the saves that are left. -/
theorem obeys_resequence {departing : Option ℤ} {members : List Member}
    (h : progress L = .saving (resequenceWrites departing members)) :
    Obeys (Numbers leaves) (resequence departing members) (fun _ _ L => progress L = .saving []) Anyhow ()
      L := by
  induction members generalizing L with
  | nil => exact Obeys.pure h
  | cons member members ih =>
    unfold resequence
    unfold resequenceWrites at h
    split
    next hgt =>
      rw [if_pos hgt] at h
      refine Obeys.bind (obeys_call (.inl ⟨_, h⟩) fun r a hr => ih ?_)
      obtain rfl : r = .ok a := hr
      change Progress.advance _ (progress L) = _
      rw [h]
      rfl
    next hle =>
      rw [if_neg hle] at h
      exact ih h

theorem obeys_leaveGroup (userId : Uuid) :
    Obeys (Numbers true) (leaveGroup userId) Anyhow Anyhow () [] := by
  refine Obeys.bind (obeys_call trivial fun r found _ => ?_)
  refine Obeys.bind (obeys_valueOr fun group _ => ?_)
  refine Obeys.bind (obeys_throwWhen ?_)
  refine Obeys.bind (obeys_call trivial fun r' found' _ => ?_)
  refine Obeys.bind (obeys_valueOr fun membership _ => ?_)
  refine Obeys.bind (obeys_call ⟨rfl, rfl⟩ fun r₁ a₁ hr₁ => ?_)
  obtain rfl : r₁ = .ok a₁ := hr₁
  refine Obeys.bind (obeys_call ⟨rfl, membership, rfl⟩ fun r₂ members hr₂ => ?_)
  obtain rfl : r₂ = .ok members := hr₂
  refine Obeys.bind ((obeys_resequence rfl).mono (fun _ _ L h => ?_) fun _ _ _ _ => trivial)
  exact obeys_call h fun _ _ _ => trivial

/-! ### Transactions -/

theorem obeys_transaction {body : Service α}
    (hbody : ∀ r : Except Exc Unit, Obeys (Numbers leaves) body Anyhow Anyhow () [⟨.startTransaction, r⟩]) :
    Obeys (Numbers leaves) (transaction body) Anyhow Anyhow () [] := by
  refine Obeys.bind (obeys_call rfl fun r _ _ => Obeys.tryCatch (Obeys.bind ?_))
  refine (hbody r).mono (fun a _ L _ => ?_) fun e _ L _ => ?_
  · refine Obeys.bind (Obeys.call trivial fun r' => ?_)
    cases r' with
    | ok a => exact Obeys.pure trivial
    | error e =>
      exact Obeys.bind (Obeys.call trivial fun _ => Obeys.throw trivial)
  · exact Obeys.bind (Obeys.call trivial fun _ => Obeys.throw trivial)

theorem obeys_insertMember (userId : Uuid) (walletAddress : String) (r₀ : Except Exc Unit) :
    Obeys (Numbers leaves) (insertMember userId walletAddress) Anyhow Anyhow () [⟨.startTransaction, r₀⟩] := by
  refine Obeys.bind (obeys_call trivial fun r found hr => ?_)
  obtain rfl : r = .ok found := hr
  refine Obeys.bind (obeys_valueOr fun group hgroup => ?_)
  subst hgroup
  refine Obeys.bind (obeys_throwWhen ?_)
  refine Obeys.bind (obeys_call trivial fun r memberCount _ => ?_)
  refine Obeys.bind (obeys_throwWhen ?_)
  refine Obeys.bind (obeys_call trivial fun r' existing _ => ?_)
  refine Obeys.bind (obeys_throwWhen ?_)
  have hother : group.payoutOrderStrategy ≠ .sequential → LocksOther
      [⟨.tx (.findMember userId), r'⟩, ⟨.tx .countMembers, r⟩, ⟨.lockGroup, .ok (some group)⟩,
        ⟨.startTransaction, r₀⟩] := fun h =>
    ⟨group, List.mem_cons_of_mem _ (List.mem_cons_of_mem _ List.mem_cons_self), h⟩
  cases hstrategy : group.payoutOrderStrategy with
  | sequential =>
    refine Obeys.bind (Obeys.bind (obeys_call ⟨rfl, rfl, rfl⟩ fun r'' maxOrder hr => Obeys.pure ?_))
    obtain rfl : r'' = .ok maxOrder := hr
    exact obeys_call (.inl ⟨_, rfl, rfl⟩) fun _ _ _ => trivial
  | random =>
    exact Obeys.bind (Obeys.pure (obeys_call (.inr (hother (by rw [hstrategy]; decide)))
      fun _ _ _ => trivial))
  | adminDefined =>
    exact Obeys.bind (Obeys.pure (obeys_call (.inr (hother (by rw [hstrategy]; decide)))
      fun _ _ _ => trivial))

theorem obeys_admitEntries {entries : List WaitlistEntry} {n : ℤ} (h : claimed L = some n) :
    Obeys (Numbers leaves) (admitEntries entries n) Anyhow Anyhow () L := by
  induction entries generalizing L n with
  | nil => exact Obeys.pure trivial
  | cons entry entries ih =>
    refine Obeys.bind (obeys_call (.inl ⟨n, h, rfl⟩) fun r a hr => ?_)
    obtain rfl : r = .ok a := hr
    refine Obeys.bind (obeys_call trivial fun r' _ _ => ?_)
    refine Obeys.bind ((ih ?_).mono (fun _ _ _ _ => Obeys.pure trivial) fun _ _ _ _ => trivial)
    change (claimed L).map (· + 1) = some (n + 1)
    rw [h]
    rfl

theorem obeys_admitFromWaitlistInTransaction (maxToAdmit : Option ℤ) (r₀ : Except Exc Unit) :
    Obeys (Numbers leaves) (admitFromWaitlistInTransaction maxToAdmit) Anyhow Anyhow ()
      [⟨.startTransaction, r₀⟩] := by
  refine Obeys.bind (obeys_call trivial fun r found hr => ?_)
  obtain rfl : r = .ok found := hr
  cases found with
  | none => exact Obeys.pure trivial
  | some group =>
    refine Obeys.bind (obeys_call trivial fun r memberCount _ => ?_)
    dsimp only
    split
    · exact Obeys.pure trivial
    split
    · exact Obeys.pure trivial
    refine Obeys.bind (obeys_call trivial fun r' entries _ => ?_)
    split
    · exact Obeys.pure trivial
    refine Obeys.bind (obeys_call ⟨rfl, rfl, rfl⟩ fun r'' maxOrder hr => ?_)
    obtain rfl : r'' = .ok maxOrder := hr
    exact obeys_admitEntries rfl

/-! ### Activation -/

/-- What an activation does with the group that it has loaded. -/
def Activates (strategy : PayoutOrderStrategy) : Op → Prop
  | .db (.write (.saveGroup group)) => group.payoutOrderStrategy = strategy
  | .db (.write (.saveMember _)) => strategy ≠ .sequential
  | .deployRoscaContract _ | .dispatchEvent _ => True
  | _ => False

theorem admits_activates (strategy : PayoutOrderStrategy) :
    Async.Admits (Numbers leaves) (Activates strategy) (LoadsStrategy strategy) where
  allowed L o hL ho := by
    cases o with
    | db q =>
      cases q with
      | write x =>
        cases x with
        | saveGroup group =>
          have hsame : group.payoutOrderStrategy = strategy := ho
          change LoadsStrategy group.payoutOrderStrategy L
          rwa [hsame]
        | saveMember member => exact .inr ⟨strategy, ho, hL⟩
        | _ => exact ho.elim
      | _ => exact ho.elim
    | deployRoscaContract group => trivial
    | dispatchEvent event => trivial
    | _ => exact ho.elim
  kept L o r hL _ := by
    obtain ⟨group, members, hmem, hstrategy⟩ := hL
    exact ⟨group, members, List.mem_cons_of_mem _ hmem, hstrategy⟩

theorem activates_assignPayoutOrders (strategy : PayoutOrderStrategy) (random : ℕ → ℕ)
    (members : List Member) :
    Routine.Uses (Activates strategy) (assignPayoutOrders strategy random members) := by
  cases strategy with
  | sequential => exact Routine.uses_pure ()
  | random => exact Routine.uses_forEach fun x _ => uses_db (by decide : PayoutOrderStrategy.random ≠ _)
  | adminDefined =>
    exact Routine.uses_bind (Routine.uses_throwWhen _ _) fun _ => Routine.uses_throwWhen _ _

theorem obeys_activateGroup (adminWallet : String) (random : ℕ → ℕ) :
    Obeys (Numbers leaves) (activateGroup adminWallet random) Anyhow Anyhow () [] := by
  refine Obeys.bind (obeys_call trivial fun r found hr => ?_)
  obtain rfl : r = .ok found := hr
  refine Obeys.bind (obeys_valueOr fun x hx => ?_)
  subst hx
  obtain ⟨group, members⟩ := x
  refine Obeys.bind (obeys_throwWhen ?_)
  refine Obeys.bind (obeys_throwWhen ?_)
  refine Obeys.bind (obeys_throwWhen ?_)
  have hloaded : LoadsStrategy group.payoutOrderStrategy
      [⟨.db .findGroupWithMembers, .ok (some (group, members))⟩] :=
    ⟨group, members, List.mem_cons_self, rfl⟩
  have hrollBack : ∀ savedGroup : GroupRow,
      savedGroup.payoutOrderStrategy = group.payoutOrderStrategy →
        Routine.Uses (Activates group.payoutOrderStrategy) (rollBackActivation savedGroup) :=
    fun _ h => Routine.uses_bind (uses_db h) fun _ => Routine.uses_throw _
  refine (Obeys.of_uses (admits_activates group.payoutOrderStrategy) ?_ hloaded).mono
    (fun _ _ _ _ => trivial) fun _ _ _ _ => trivial
  refine Routine.uses_bind (activates_assignPayoutOrders _ _ _) fun _ => ?_
  refine Routine.uses_bind (uses_db rfl) fun _ => ?_
  refine Routine.uses_bind (Routine.uses_tryCatch (Routine.uses_call trivial) fun _ =>
    Routine.uses_pure none) fun deployed => ?_
  cases deployed with
  | none => exact hrollBack _ rfl
  | some contractAddress =>
    refine Routine.uses_tryCatch ?_ fun _ => hrollBack _ rfl
    refine Routine.uses_bind (uses_db rfl) fun _ => ?_
    exact Routine.uses_tryCatch (Routine.uses_call trivial) fun _ => Routine.uses_pure ()

/-! ### All calls -/

/-- A call that ends with a reply. -/
theorem obeys_reply {m : Service α} {f : α → Reply}
    (hm : Obeys (Numbers leaves) m Anyhow Anyhow () []) :
    Obeys (Numbers leaves) (m >>= fun a => pure (f a)) Anyhow Anyhow () [] :=
  Obeys.bind (hm.mono (fun _ _ _ _ => Obeys.pure trivial) fun _ _ _ _ => trivial)

/-- **The calls that number the members follow the discipline.** -/
theorem obeys_numbers {maxWaitlist : ℤ} {c : Call} (hc : c.numbers = true) :
    Obeys (Numbers c.leaves) (c.body maxWaitlist) Anyhow Anyhow () [] := by
  cases c with
  | addMember userId walletAddress =>
    refine obeys_reply (f := fun _ => .done) (Obeys.tryCatch ?_)
    refine (obeys_transaction fun r => obeys_insertMember userId walletAddress r).mono
      (fun _ _ _ h => h) fun e _ L _ => ?_
    cases e <;> exact Obeys.throw trivial
  | removeMember userId => exact obeys_reply (f := fun _ => .done) (obeys_removeMember userId)
  | leaveGroup userId => exact obeys_reply (f := fun _ => .done) (obeys_leaveGroup userId)
  | admitFromWaitlist maxToAdmit =>
    exact obeys_reply (f := fun userIds => .admitted userIds)
      (obeys_transaction fun r => obeys_admitFromWaitlistInTransaction maxToAdmit r)
  | activateGroup adminWallet random =>
    exact obeys_reply (f := fun _ => .done) (obeys_activateGroup adminWallet random)
  | dropSession p => exact obeys_call trivial fun _ _ _ => trivial
  | suspendMember targetUserId requestingUserId reason => cases hc
  | reinstateMember targetUserId requestingUserId => cases hc
  | joinWaitlist userId walletAddress => cases hc
  | leaveWaitlist userId => cases hc

/-- The discipline of a call. -/
def NumbersIf (c : Call) (L : Log Op.Ret) (o : Op) : Prop :=
  c.numbers = true → Numbers c.leaves L o

theorem follows_numbersIf (missing : OnMissing) (maxWaitlist : ℤ) (c : Call) :
    Follows (NumbersIf c) (fun _ _ => True) ((system missing maxWaitlist).body c) [] := by
  by_cases hc : c.numbers = true
  · have hall : ∀ (p : Prog Op.Ret (Except Exc Reply)) L, Follows (Numbers c.leaves) (fun _ _ => True) p L →
        Follows (NumbersIf c) (fun _ _ => True) p L := by
      intro p
      induction p with
      | ret a => exact fun _ _ => trivial
      | op o k ih => exact fun L h => ⟨fun _ => h.1, fun r => ih r _ (h.2 r)⟩
    exact hall _ _ ((obeys_numbers hc).follows.bind fun x L _ => trivial)
  · exact Follows.of_forall (fun _ _ _ h => absurd h hc) (fun _ _ _ => trivial) _

end Ahjoor.Members
