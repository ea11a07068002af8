import Ahjoor.Contributions.ContributionsService
import Ahjoor.Groups.Footprint

/-!
# What a request does

A request looks for its key, takes the lock of the key, looks at the membership, and inserts one
row; at the end it gives the lock back. This is a discipline on its log, with what can be said of the
log when it ends: where the contribution that it returns comes from, and what lies behind a conflict.
-/

namespace Ahjoor

open Async StellarService

variable {σ : Type}

/-! ### What the log of a request says -/

/-- The lock of a key. -/
def lockKey (key : String) : String := s!"contrib:inflight:{key}"

/-- The row with the key. -/
def byKey (key : String) : ContributionWhere := { idempotencyKey := some key }

/-- The row with the id. -/
def byId (id : Uuid) : ContributionWhere := { id := some id }

/-- The request has taken the lock of the key and has not given it back. -/
def holds (key : String) : Log Op.Ret → Bool
  | [] => false
  | ⟨.setIfNotExists k, acquired⟩ :: L => if k = lockKey key then acquired else holds key L
  | ⟨.del k, _⟩ :: L => if k = lockKey key then false else holds key L
  | _ :: L => holds key L

/-- The operation is about a lock. -/
def Op.isLock : Op → Bool
  | .setIfNotExists _ | .del _ => true
  | _ => false

theorem holds_cons {key : String} {o : Op} {r : o.Ret} {L : Log Op.Ret} (h : o.isLock = false) :
    holds key (⟨o, r⟩ :: L) = holds key L := by
  cases o <;> first | rfl | cases h

/-- If the request has a key, it holds its lock. -/
def Holding (key : Option String) (L : Log Op.Ret) : Prop :=
  ∀ k, key = some k → k ≠ "" → holds k L = true

theorem Holding.cons {key : Option String} {o : Op} {r : o.Ret} {L : Log Op.Ret}
    (hL : Holding key L) (h : o.isLock = false) : Holding key (⟨o, r⟩ :: L) := by
  intro k hk hne
  rw [holds_cons h]
  exact hL k hk hne

/-- The request has not tried to insert a row. -/
def Unfiled (L : Log Op.Ret) : Prop :=
  ∀ row r, (⟨.db (.insertContributionOrIgnore row), r⟩ : Entry Op.Ret) ∉ L

/-- The request has looked at the membership of the user, who is not suspended. -/
def Looked (dto : CreateContributionDto) (L : Log Op.Ret) : Prop :=
  ∃ found : Option Membership, ⟨.db (.findMembership
    { groupId := some dto.groupId, userId := some dto.userId }), .ok found⟩ ∈ L ∧
      (found.any fun m => m.status == .suspended) = false

/-- The request knows that there is a row with the id: it was found by the key, or the request has
inserted it. -/
def Sighted (key : String) (id : Uuid) (L : Log Op.Ret) : Prop :=
  (∃ c : Contribution, c.id = id ∧ ⟨.db (.findContribution (byKey key)), .ok (some c)⟩ ∈ L) ∨
    ∃ row, ⟨.db (.insertContributionOrIgnore row), .ok (some id)⟩ ∈ L

/-- A row that the request knew of was not there when it was looked up. -/
def Vanished (key : String) : Log Op.Ret → Prop
  | [] => False
  | e :: L => (∃ id, e = ⟨.db (.findContribution (byId id)), .ok none⟩ ∧ Sighted key id L) ∨
      Vanished key L

/-- The request has missed the row in its last operation, a lookup by the key. -/
def MissedLast (key : String) (L : Log Op.Ret) : Prop :=
  ∃ L', L = ⟨.db (.findContribution (byKey key)), .ok none⟩ :: L'

/-- The exception that the operation has raised, if it can reach the caller: that of a payout is only
logged. -/
def raises : Entry Op.Ret → Option Exc
  | ⟨.db (.insertPayout _), _⟩ => none
  | ⟨.db _, .error e⟩ | ⟨.ask _, .error e⟩ | ⟨.emit _, .error e⟩ => some e
  | _ => none

/-- An operation of the request has raised the exception. -/
def Raised (e : Exc) (L : Log Op.Ret) : Prop := ∃ entry ∈ L, raises entry = some e

/-- A conflict: a `ConflictException`, or what `createContribution` makes one of. -/
def Exc.clashes : Exc → Bool
  | .http status _ => status == 409
  | .uniqueViolation _ => true
  | .error _ => false

/-- The exception is no conflict, unless an operation has raised it. -/
def Innocent (e : Exc) (L : Log Op.Ret) : Prop := e.clashes = true → Raised e L

/-- **What lies behind a conflict** of a request with a key. -/
inductive Clash (key : String) (L : Log Op.Ret) : Prop
  /-- an operation has raised it -/
  | raised {e : Exc} (hraised : Raised e L) (hclashes : e.clashes = true)
  /-- the insertion was ignored -/
  | refused {row : Contribution}
      (hrefused : ⟨.db (.insertContributionOrIgnore row), .ok none⟩ ∈ L)
  | vanished (hvanished : Vanished key L)

/-- **Where the contribution comes from** that a request with a key returns: it was found by the
key, or by an id that the request knew of; only the status may be another. -/
def Came (key : String) (c : Contribution) (L : Log Op.Ret) : Prop :=
  ∃ sel c₁, ⟨.db (.findContribution sel), .ok (some c₁)⟩ ∈ L ∧
    (sel = byKey key ∨ ∃ id, sel = byId id ∧ Sighted key id L) ∧ c = { c₁ with status := c.status }

section Monotone

variable {key : String} {L : Log Op.Ret} {e : Exc}

theorem Sighted.cons {id : Uuid} (h : Sighted key id L) (entry : Entry Op.Ret) :
    Sighted key id (entry :: L) := by
  rcases h with ⟨c, hid, hmem⟩ | ⟨row, hmem⟩
  · exact .inl ⟨c, hid, List.mem_cons_of_mem _ hmem⟩
  · exact .inr ⟨row, List.mem_cons_of_mem _ hmem⟩

theorem Looked.cons {dto : CreateContributionDto} (h : Looked dto L) (entry : Entry Op.Ret) :
    Looked dto (entry :: L) := by
  obtain ⟨found, hmem, hsuspended⟩ := h
  exact ⟨found, List.mem_cons_of_mem _ hmem, hsuspended⟩

theorem Looked.of_read {dto : CreateContributionDto} {found : Option Membership}
    (h : (found.any fun m => m.status == .suspended) = false) :
    Looked dto (⟨.db (.findMembership { groupId := some dto.groupId, userId := some dto.userId }),
      .ok found⟩ :: L) :=
  ⟨found, List.mem_cons_self, h⟩

theorem Raised.cons (h : Raised e L) (entry : Entry Op.Ret) : Raised e (entry :: L) := by
  obtain ⟨entry', hmem, hraises⟩ := h
  exact ⟨entry', List.mem_cons_of_mem _ hmem, hraises⟩

theorem Raised.newest {entry : Entry Op.Ret} (h : raises entry = some e) : Raised e (entry :: L) :=
  ⟨entry, List.mem_cons_self, h⟩

theorem Clash.cons (h : Clash key L) (entry : Entry Op.Ret) : Clash key (entry :: L) := by
  cases h with
  | raised hraised hclashes => exact .raised (hraised.cons entry) hclashes
  | refused hrefused => exact .refused (List.mem_cons_of_mem _ hrefused)
  | vanished hvanished => exact .vanished (.inr hvanished)

theorem Came.cons {c : Contribution} (h : Came key c L) (entry : Entry Op.Ret) :
    Came key c (entry :: L) := by
  obtain ⟨sel, c₁, hmem, hsel, hc⟩ := h
  refine ⟨sel, c₁, List.mem_cons_of_mem _ hmem, hsel.imp_right ?_, hc⟩
  rintro ⟨id, rfl, hsighted⟩
  exact ⟨id, rfl, hsighted.cons entry⟩

end Monotone

/-! ### What a request may do next -/

/-- The query leaves contributions and the columns that matter of memberships alone. -/
def Query.isSpare : Query → Bool
  | saveGroup _ | updateHasPaid _ _ => true
  | q => q.ofPayout

/-- The operation leaves contributions, memberships and locks alone. -/
def Op.isSpare : Op → Bool
  | .db q => q.isSpare
  | o => o.ofPayout

theorem isSpare_of_ofPayout {o : Op} (h : o.ofPayout = true) : o.isSpare = true := by
  cases o with
  | db q => cases q <;> first | rfl | cases h
  | _ => first | rfl | cases h

theorem isLock_of_isSpare {o : Op} (h : o.isSpare = true) : o.isLock = false := by
  cases o <;> first | rfl | cases h

/-- **What a request may do next**: it inserts at most one row, for a user whose membership it has
looked at, and only while it holds the lock of its key. -/
inductive MayRequest (dto : CreateContributionDto) (key : Option String) (L : Log Op.Ret) : Op → Prop
  | spare {o : Op} (h : o.isSpare = true) : MayRequest dto key L o
  | save {m : Membership} (h : Reread L m) : MayRequest dto key L (.db (.saveMembership m))
  | file (group : Group) (locked : Option (LockedFxRate × String)) (hlooked : Looked dto L)
      (hholding : Holding key L) (hunfiled : Unfiled L) :
      MayRequest dto key L
        (.db (.insertContributionOrIgnore (ContributionsService.newContribution dto key group locked)))
  | submit (id : Uuid) :
      MayRequest dto key L (.db (.updateContribution id { status := some .onChainSubmitted }))
  | acquire {k : String} (hkey : key = some k) (hne : k ≠ "") :
      MayRequest dto key L (.setIfNotExists (lockKey k))
  | release {k : String} (hkey : key = some k) (h : holds k L = true) :
      MayRequest dto key L (.del (lockKey k))

/-! ### The round -/

section Advance

variable {D : Log Op.Ret → Op → Prop} {A : Log Op.Ret → Prop} {s : σ} {L : Log Op.Ret}
  (sdk : Sdk) (cfg : Config)

/-- No failure of a payout reaches the caller. -/
theorem obeys_triggerPayout (hpay : LetsPay D A) (groupId : Uuid) (round : ℤ) (hL : A L) :
    Obeys D (RoundService.triggerPayout sdk cfg groupId round : Service σ Unit) (fun _ _ => A)
      (fun e _ L => A L ∧ Raised e L) s L :=
  Obeys.tryCatch (Obeys.bind ((PayoutService.obeys_distributePayout sdk cfg hpay groupId round hL).mono
    (fun _ _ _ h => Obeys.pure h) fun _ _ _ h => Obeys.pure h))

section

variable (hA : Admits D (·.isSpare = true) A) (hpay : LetsPay D A)

include hA hpay

theorem obeys_completeGroup (groupId : Uuid) (group : Group) (hL : A L) :
    Obeys D (RoundService.completeGroup sdk cfg groupId group : Service σ Bool) (fun _ _ => A)
      (fun e _ L => A L ∧ Raised e L) s L := by
  have hkept : ∀ {L o} {r : Op.Ret o}, A L → o.isSpare = true → A (⟨o, r⟩ :: L) :=
    fun hL ho => hA.kept _ _ _ hL ho
  refine Obeys.bind (obeys_query (hA.allowed _ _ hL rfl) (fun _ => ?_)
    fun e => ⟨hkept hL rfl, .newest rfl⟩)
  have hrest : ∀ {L}, A L → Obeys D (do
      RoundService.triggerPayout sdk cfg groupId group.currentRound
      pure true : Service σ Bool) (fun _ _ => A) (fun e _ L => A L ∧ Raised e L) s L :=
    fun hL => Obeys.bind ((obeys_triggerPayout sdk cfg hpay groupId _ hL).mono
      (fun _ _ _ h => Obeys.pure h) fun _ _ _ h => h)
  refine Obeys.bind (Obeys.tryCatch (Obeys.bind (Obeys.perform (hA.allowed _ _ (hkept hL rfl) rfl)
    fun completedAt : ℕ => ?_)))
  exact obeys_emit (hA.allowed _ _ (hkept (hkept hL rfl) rfl) rfl)
    (hrest (hkept (hkept (hkept hL rfl) rfl) rfl))
    fun _ => Obeys.pure (hrest (hkept (hkept (hkept hL rfl) rfl) rfl))

theorem obeys_openNextRound (groupId : Uuid) (group : Group) (memberships : List Membership)
    (hL : A L) :
    Obeys D (RoundService.openNextRound sdk cfg groupId group memberships : Service σ Bool)
      (fun _ _ => A) (fun e _ L => A L ∧ Raised e L) s L := by
  have hkept : ∀ {L o} {r : Op.Ret o}, A L → o.isSpare = true → A (⟨o, r⟩ :: L) :=
    fun hL ho => hA.kept _ _ _ hL ho
  refine Obeys.bind (obeys_query (hA.allowed _ _ hL rfl) (fun _ => ?_)
    fun e => ⟨hkept hL rfl, .newest rfl⟩)
  refine Obeys.bind (obeys_query (hA.allowed _ _ (hkept hL rfl) rfl) (fun _ => ?_)
    fun e => ⟨hkept (hkept hL rfl) rfl, .newest rfl⟩)
  refine Obeys.bind ((obeys_triggerPayout sdk cfg hpay groupId _ (hkept (hkept hL rfl) rfl)).mono
    (fun _ _ L hL => ?_) fun _ _ _ h => h)
  exact Obeys.bind (Obeys.tryCatch (obeys_emit (hA.allowed _ _ hL rfl) (Obeys.pure (hkept hL rfl))
    fun _ => Obeys.pure (Obeys.pure (hkept hL rfl))))

theorem obeys_tryAdvanceRound (groupId : Uuid) (hL : A L) :
    Obeys D (RoundService.tryAdvanceRound sdk cfg groupId : Service σ Bool) (fun _ _ => A)
      (fun e _ L => A L ∧ Raised e L) s L := by
  have hkept : ∀ {L o} {r : Op.Ret o}, A L → o.isSpare = true → A (⟨o, r⟩ :: L) :=
    fun hL ho => hA.kept _ _ _ hL ho
  refine Obeys.bind (obeys_query (hA.allowed _ _ hL rfl) (fun group? => ?_)
    fun e => ⟨hkept hL rfl, .newest rfl⟩)
  cases group? with
  | none => exact Obeys.pure (hkept hL rfl)
  | some group =>
  change Obeys D (if _ then _ else _) _ _ _ _
  split
  · exact Obeys.pure (hkept hL rfl)
  refine Obeys.bind (obeys_query (hA.allowed _ _ (hkept hL rfl) rfl) (fun memberships => ?_)
    fun e => ⟨hkept (hkept hL rfl) rfl, .newest rfl⟩)
  split
  · exact Obeys.pure (hkept (hkept hL rfl) rfl)
  split
  · exact Obeys.pure (hkept (hkept hL rfl) rfl)
  split
  · exact obeys_completeGroup sdk cfg hA hpay groupId group (hkept (hkept hL rfl) rfl)
  · exact obeys_openNextRound sdk cfg hA hpay groupId group memberships (hkept (hkept hL rfl) rfl)

end

end Advance

/-! ### Bodies -/

section Bodies

variable {dto : CreateContributionDto} {key : Option String} {L : Log Op.Ret} {s : σ}
  {B : Log Op.Ret → Prop}

/-- Facts that stay true as the log grows. -/
def Lasting (B : Log Op.Ret → Prop) : Prop := ∀ L e, B L → B (e :: L)

/-- The request is about to file: it holds the lock of its key, and has not tried to insert. -/
def Ready (key : Option String) (L : Log Op.Ret) : Prop := Holding key L ∧ Unfiled L

theorem Ready.cons (h : Ready key L) {o : Op} {r : o.Ret} (ho : o.isSpare = true) :
    Ready key (⟨o, r⟩ :: L) := by
  refine ⟨h.1.cons (isLock_of_isSpare ho), fun row r' hmem => ?_⟩
  rcases List.mem_cons.mp hmem with heq | hmem
  · cases heq
    cases ho
  · exact h.2 row r' hmem

theorem admits_holding (hB : Lasting B) :
    Admits (MayRequest dto key) (·.isSpare = true) fun L => Holding key L ∧ B L where
  allowed _ _ _ ho := .spare ho
  kept _ _ _ h ho := ⟨h.1.cons (isLock_of_isSpare ho), hB _ _ h.2⟩

theorem letsPay_holding (hB : Lasting B) :
    LetsPay (MayRequest dto key) fun L => Holding key L ∧ B L where
  pays := ⟨fun _ _ _ ho => .spare (isSpare_of_ofPayout ho), fun _ _ _ h ho =>
    ⟨h.1.cons (isLock_of_isSpare (isSpare_of_ofPayout ho)), hB _ _ h.2⟩⟩
  saves _ _ _ h := .save h
  kept _ _ _ h := ⟨h.1.cons rfl, hB _ _ h.2⟩

theorem innocent_of_clashes {e : Exc} (h : e.clashes = false) : Innocent e L :=
  fun h' => absurd (h.symm.trans h') nofun

theorem Raised.innocent {e : Exc} (h : Raised e L) : Innocent e L := fun _ => h

theorem obeys_ask {D : Log Op.Ret → Op → Prop} {q : Question} {Q : q.Ret → σ → Log Op.Ret → Prop}
    {X : Exc → σ → Log Op.Ret → Prop} (hD : D L (.ask q)) (hok : ∀ a, Q a s (⟨.ask q, .ok a⟩ :: L))
    (herr : ∀ e, X e s (⟨.ask q, .error e⟩ :: L)) : Obeys D (ask q) Q X s L :=
  Obeys.call hD fun r => by
    cases r with
    | ok a => exact hok a
    | error e => exact herr e

/-- The checks: none of them throws a conflict, and the membership of the user is looked at. -/
theorem obeys_validateContribution (hL : Ready key L) :
    Obeys (MayRequest dto key) (ContributionsService.validateContribution dto : Service σ Group)
      (fun _ _ L => Ready key L ∧ Looked dto L) (fun e _ L => Ready key L ∧ Innocent e L) s L := by
  have hspare : ∀ {L o}, o.isSpare = true → MayRequest dto key L o := .spare
  refine Obeys.bind (obeys_query (hspare rfl) (fun group? => ?_)
    fun e => ⟨hL.cons rfl, Raised.innocent (.newest rfl)⟩)
  refine Obeys.bind (obeys_orThrow (fun group _ => ?_)
    fun _ => ⟨hL.cons rfl, innocent_of_clashes rfl⟩)
  refine Obeys.bind (obeys_ask (hspare rfl) (fun maintenance => ?_)
    fun e => ⟨(hL.cons rfl).cons rfl, Raised.innocent (.newest rfl)⟩)
  replace hL := (hL.cons (o := .db (.findGroup dto.groupId)) (r := .ok group?) rfl).cons
    (o := .ask (.groupMaintenance dto.groupId)) (r := .ok maintenance) rfl
  cases maintenance with
  | some message => exact Obeys.throw ⟨hL, innocent_of_clashes rfl⟩
  | none =>
  refine Obeys.bind (obeys_query (hspare rfl) (fun membership? => ?_)
    fun e => ⟨hL.cons rfl, Raised.innocent (.newest rfl)⟩)
  refine Obeys.bind (obeys_throwIf (fun _ => ⟨hL.cons rfl, innocent_of_clashes rfl⟩)
    fun hsuspended => ?_)
  refine Obeys.bind (obeys_throwIf (fun _ => ⟨hL.cons rfl, innocent_of_clashes rfl⟩) fun _ => ?_)
  refine Obeys.bind (Obeys.perform (hspare rfl) fun now : ℕ => ?_)
  refine Obeys.bind (obeys_throwIf (fun _ => ⟨(hL.cons rfl).cons rfl, innocent_of_clashes rfl⟩)
    fun _ => ?_)
  refine Obeys.bind (obeys_throwIf (fun _ => ⟨(hL.cons rfl).cons rfl, innocent_of_clashes rfl⟩)
    fun _ => ?_)
  refine Obeys.bind (obeys_throwIf (fun _ => ⟨(hL.cons rfl).cons rfl, innocent_of_clashes rfl⟩)
    fun _ => ?_)
  exact Obeys.pure ⟨(hL.cons rfl).cons rfl, (Looked.of_read hsuspended).cons _⟩

variable (sdk : Sdk) (cfg : Config)

theorem innocent_newDecimal {text : String} {e : Exc} (h : newDecimal text = .error e) :
    Innocent e L := by
  rw [newDecimal] at h
  split at h
  · cases h
  · cases h
    exact innocent_of_clashes rfl

/-- The fetching of a rate. -/
theorem obeys_fetchRate (source destination : AssetRef) (hL : Ready key L ∧ Looked dto L) :
    Obeys (MayRequest dto key) (FxService.fetchRate cfg source destination : Service σ String)
      (fun _ _ L => Ready key L ∧ Looked dto L) (fun e _ L => Ready key L ∧ Innocent e L) s L := by
  change Obeys _ (if _ then _ else if _ then _ else _) _ _ _ _
  split
  · exact obeys_orThrow (fun _ _ => hL) fun _ => ⟨hL.1, innocent_of_clashes rfl⟩
  split
  · exact Obeys.throw ⟨hL.1, innocent_of_clashes rfl⟩
  · exact Obeys.tryCatch (obeys_ask (.spare rfl) (fun _ => ⟨hL.1.cons rfl, hL.2.cons _⟩)
      fun _ => Obeys.throw ⟨hL.1.cons rfl, innocent_of_clashes rfl⟩)

theorem obeys_lockRate (group : Group) (source : AssetRef) (hL : Ready key L ∧ Looked dto L) :
    Obeys (MayRequest dto key) (FxService.lockRate cfg group source : Service σ LockedFxRate)
      (fun _ _ L => Ready key L ∧ Looked dto L) (fun e _ L => Ready key L ∧ Innocent e L) s L := by
  refine Obeys.bind (obeys_throwIf (fun _ => ⟨hL.1, innocent_of_clashes rfl⟩) fun _ => ?_)
  refine Obeys.bind (Obeys.perform (.spare rfl) fun now : ℕ => ?_)
  change Obeys _ (if _ then _ else _) _ _ _ _
  split
  · exact Obeys.pure ⟨hL.1.cons rfl, hL.2.cons _⟩
  · exact Obeys.bind ((obeys_fetchRate cfg _ _ ⟨hL.1.cons rfl, hL.2.cons _⟩).mono
      (fun _ _ _ h => Obeys.pure h) fun _ _ _ h => h)

theorem obeys_normalizeToUnitOfAccount (group : Group) (amount : String) (source : AssetRef)
    (lockedRate : LockedFxRate) (hL : Ready key L ∧ Looked dto L) :
    Obeys (MayRequest dto key)
      (FxService.normalizeToUnitOfAccount group amount source lockedRate : Service σ String)
      (fun _ _ L => Ready key L ∧ Looked dto L) (fun e _ L => Ready key L ∧ Innocent e L) s L := by
  rw [FxService.normalizeToUnitOfAccount]
  split
  · exact Obeys.pure hL
  refine Obeys.bind (Obeys.perform (.spare rfl) fun now : ℕ => ?_)
  have hL' : ∀ {r : Op.now.Ret}, Ready key (⟨.now, r⟩ :: L) ∧ Looked dto (⟨.now, r⟩ :: L) :=
    ⟨hL.1.cons rfl, hL.2.cons _⟩
  refine Obeys.bind (obeys_throwIf (fun _ => ⟨hL'.1, innocent_of_clashes rfl⟩) fun _ => ?_)
  refine Obeys.bind (obeys_evaluate (fun _ _ => ?_) fun _ he => ⟨hL'.1, innocent_newDecimal he⟩)
  refine Obeys.bind (obeys_evaluate (fun _ _ => ?_) fun _ he => ⟨hL'.1, innocent_newDecimal he⟩)
  exact Obeys.pure hL'

theorem obeys_lockAndNormalize (group : Group) (hL : Ready key L ∧ Looked dto L) :
    Obeys (MayRequest dto key) (ContributionsService.lockAndNormalize cfg dto group :
      Service σ (LockedFxRate × String))
      (fun _ _ L => Ready key L ∧ Looked dto L) (fun e _ L => Ready key L ∧ Innocent e L) s L := by
  refine Obeys.bind (obeys_ask (.spare rfl) (fun txDetails => ?_)
    fun _ => ⟨hL.1.cons rfl, Raised.innocent (.newest rfl)⟩)
  refine Obeys.bind ((obeys_lockRate cfg group _ ⟨hL.1.cons rfl, hL.2.cons _⟩).mono
    (fun lockedRate _ L hL => ?_) fun _ _ _ h => h)
  refine Obeys.bind ((obeys_normalizeToUnitOfAccount group _ _ lockedRate hL).mono
    (fun normalizedAmount _ L hL => ?_) fun _ _ _ h => h)
  split
  · exact Obeys.bind (obeys_throwIf (fun _ => ⟨hL.1, innocent_of_clashes rfl⟩)
      fun _ => Obeys.pure hL)
  · exact Obeys.throw ⟨hL.1, innocent_of_clashes rfl⟩

/-- The verification of the transaction throws no conflict. -/
theorem obeys_verifyTransaction (group : Group) (hL : Ready key L ∧ Looked dto L) :
    Obeys (MayRequest dto key) (ContributionsService.verifyTransaction cfg dto group :
      Service σ (Option (LockedFxRate × String)))
      (fun _ _ L => Ready key L ∧ Looked dto L) (fun e _ L => Ready key L ∧ Innocent e L) s L := by
  change Obeys _ (if _ then _ else _) _ _ _ _
  split
  · refine Obeys.bind (obeys_ask (.spare rfl) (fun isValid => ?_)
      fun _ => ⟨hL.1.cons rfl, Raised.innocent (.newest rfl)⟩)
    refine Obeys.bind (obeys_throwIf (fun _ => ⟨hL.1.cons rfl, innocent_of_clashes rfl⟩) fun _ => ?_)
    refine Obeys.bind (Obeys.tryCatch ((obeys_lockAndNormalize cfg group
      ⟨hL.1.cons rfl, hL.2.cons _⟩).mono (fun _ _ _ h => Obeys.pure h) fun e _ L hX => ?_))
    change Obeys _ (if _ then _ else _) _ _ _ _
    split
    · exact Obeys.throw hX
    · exact Obeys.throw ⟨hX.1, innocent_of_clashes rfl⟩
  · exact Obeys.pure hL

/-- An exception after which the request holds the lock of its key, and says why if it is a
conflict. -/
def Failed (key : Option String) (e : Exc) (L : Log Op.Ret) : Prop :=
  Holding key L ∧ (e.clashes = true → ∀ k, Clash k L)

theorem Failed.of_innocent {e : Exc} (hL : Holding key L) (h : Innocent e L) : Failed key e L :=
  ⟨hL, fun he _ => .raised (h he) he⟩

/-- The request has stored the contribution, and still holds the lock of its key. -/
def Saved (key : Option String) (c : Contribution) (L : Log Op.Ret) : Prop :=
  Holding key L ∧ ∀ k, Came k c L

theorem admits_saved (c : Contribution) :
    Admits (MayRequest dto key) (·.isSpare = true) (Saved key c) :=
  admits_holding fun _ e h k => (h k).cons e

/-- The job, the webhook and the round. -/
theorem obeys_afterSave (saved : Contribution) {c : Contribution} (hL : Saved key c L) :
    Obeys (MayRequest dto key) (do
      let now ← dateNow
      tryCatch
        (emit (.addTxConfirmation saved.id saved.transactionHash saved.userId
          (now + cfg.txConfirmationTimeoutMs)))
        fun _ => pure ()
      tryCatch (emit (.contributionVerified saved.id)) fun _ => pure ()
      let _ ← RoundService.tryAdvanceRound sdk cfg dto.groupId
      pure c : Service σ Contribution)
      (fun c _ L => Saved key c L) (fun e _ L => Failed key e L) s L := by
  have hkept : ∀ {L : Log Op.Ret} {o : Op} {r : o.Ret}, Saved key c L → o.isSpare = true →
      Saved key c (⟨o, r⟩ :: L) :=
    fun hL ho => ⟨hL.1.cons (isLock_of_isSpare ho), fun k => (hL.2 k).cons _⟩
  have hround : ∀ {L}, Saved key c L → Obeys (MayRequest dto key) (do
      let _ ← RoundService.tryAdvanceRound sdk cfg dto.groupId
      pure c : Service σ Contribution)
      (fun c _ L => Saved key c L) (fun e _ L => Failed key e L) s L :=
    fun hL => Obeys.bind ((obeys_tryAdvanceRound sdk cfg (admits_saved c)
      (letsPay_holding fun _ e h k => (h k).cons e) _ hL).mono (fun _ _ _ h => Obeys.pure h)
        fun _ _ _ h => .of_innocent h.1.1 (Raised.innocent h.2))
  have hwebhook : ∀ {L}, Saved key c L → Obeys (MayRequest dto key) (do
      tryCatch (emit (.contributionVerified saved.id)) fun _ => pure ()
      let _ ← RoundService.tryAdvanceRound sdk cfg dto.groupId
      pure c : Service σ Contribution)
      (fun c _ L => Saved key c L) (fun e _ L => Failed key e L) s L :=
    fun hL => Obeys.bind (Obeys.tryCatch (obeys_emit (.spare rfl) (hround (hkept hL rfl))
      fun _ => Obeys.pure (hround (hkept hL rfl))))
  refine Obeys.bind (Obeys.perform (.spare rfl) fun now : ℕ => ?_)
  exact Obeys.bind (Obeys.tryCatch (obeys_emit (.spare rfl) (hwebhook (hkept (hkept hL rfl) rfl))
    fun _ => Obeys.pure (hwebhook (hkept (hkept hL rfl) rfl))))

/-- What follows the insertion: the row is read back, marked as submitted, and the round may end. -/
theorem obeys_afterInsert {newId : Uuid} (hholding : Holding key L) (hsighted : ∀ k, Sighted k newId L) :
    Obeys (MayRequest dto key) (do
      let saved? : Option Contribution ← query (.findContribution { id := some newId })
      let savedContribution ← orThrow saved? ContributionsService.alreadyRecorded
      query (.updateContribution savedContribution.id { status := some .onChainSubmitted })
      let now ← dateNow
      tryCatch
        (emit (.addTxConfirmation savedContribution.id savedContribution.transactionHash
          savedContribution.userId (now + cfg.txConfirmationTimeoutMs)))
        fun _ => pure ()
      tryCatch (emit (.contributionVerified savedContribution.id)) fun _ => pure ()
      let _ ← RoundService.tryAdvanceRound sdk cfg dto.groupId
      pure { savedContribution with status := .onChainSubmitted } : Service σ Contribution)
      (fun c _ L => Saved key c L) (fun e _ L => Failed key e L) s L := by
  refine Obeys.bind (obeys_query (.spare rfl) (fun saved? => ?_)
    fun e => .of_innocent (hholding.cons rfl) (Raised.innocent (.newest rfl)))
  refine Obeys.bind (obeys_orThrow (fun saved hsaved => ?_) fun hnone => ?_)
  · refine Obeys.bind (obeys_query (.submit saved.id) (fun _ => ?_)
      fun e => .of_innocent ((hholding.cons rfl).cons rfl) (Raised.innocent (.newest rfl)))
    refine obeys_afterSave sdk cfg saved ⟨(hholding.cons rfl).cons rfl, fun k => Came.cons ?_ _⟩
    refine ⟨byId newId, saved, ?_, .inr ⟨newId, rfl, (hsighted k).cons _⟩, rfl⟩
    rw [hsaved]
    exact List.mem_cons_self
  · refine ⟨hholding.cons rfl, fun _ k => .vanished (.inl ⟨newId, ?_, hsighted k⟩)⟩
    rw [hnone]
    rfl

/-- The `try` block: what it returns is a row that it has inserted. -/
theorem obeys_recordContribution (hL : Ready key L) :
    Obeys (MayRequest dto key) (ContributionsService.recordContribution sdk cfg dto key :
      Service σ Contribution)
      (fun c _ L => Saved key c L) (fun e _ L => Failed key e L) s L := by
  refine Obeys.bind ((obeys_validateContribution hL).mono (fun group _ L hL => ?_)
    fun _ _ _ h => .of_innocent h.1.1 h.2)
  refine Obeys.bind ((obeys_verifyTransaction cfg group hL).mono (fun locked _ L hL => ?_)
    fun _ _ _ h => .of_innocent h.1.1 h.2)
  obtain ⟨⟨hholding, hunfiled⟩, hlooked⟩ := hL
  refine Obeys.bind (obeys_query (.file group locked hlooked hholding hunfiled) (fun inserted => ?_)
    fun e => .of_innocent (hholding.cons rfl) (Raised.innocent (.newest rfl)))
  refine Obeys.bind (obeys_orThrow (fun newId hnewId => ?_) fun hnone => ?_)
  · refine obeys_afterInsert sdk cfg (hholding.cons rfl) fun k =>
      .inr ⟨ContributionsService.newContribution dto key group locked, ?_⟩
    rw [hnewId]
    exact List.mem_cons_self
  · subst hnone
    exact ⟨hholding.cons rfl, fun _ k => .refused List.mem_cons_self⟩

theorem clashes_mapFailure (e : Exc) :
    (ContributionsService.mapFailure e).clashes = e.clashes := by
  cases e with
  | uniqueViolation constraint =>
    rw [ContributionsService.mapFailure]
    split <;> rfl
  | _ => rfl

/-- What can be said of a request when it ends. The last lookup of a request that has not got the lock
may have missed the row. -/
def Ended (key : Option String) : Except Exc Contribution → Log Op.Ret → Prop
  | .ok c, L => ∀ k, key = some k → k ≠ "" → Came k c L
  | .error e, L => e.clashes = true → ∀ k, key = some k → k ≠ "" → Clash k L ∨ MissedLast k L

/-- The waiting: what it returns is the row that the request knew of. -/
theorem obeys_waitForInFlight {k : String} {id : Uuid} (polls : ℕ) (hsighted : Sighted k id L) :
    Obeys (MayRequest dto key) (ContributionsService.waitForInFlight id polls :
      Service σ Contribution)
      (fun c _ L => Came k c L) (fun e _ L => e.clashes = true → Clash k L) s L := by
  -- the row that a lookup by the id returns
  have hcame : ∀ {L : Log Op.Ret} {found : Option Contribution} {c : Contribution}, Sighted k id L →
      found = some c → Came k c (⟨.db (.findContribution { id := some id }), .ok found⟩ :: L) := by
    rintro L found c hsighted rfl
    exact ⟨byId id, c, List.mem_cons_self, .inr ⟨id, rfl, hsighted.cons _⟩, rfl⟩
  have hraised : ∀ {L : Log Op.Ret} {entry : Entry Op.Ret} {e : Exc}, raises entry = some e →
      e.clashes = true → Clash k (entry :: L) := fun h he => .raised (.newest h) he
  induction polls generalizing L with
  | zero =>
    refine Obeys.bind (obeys_query (.spare rfl) (fun found => ?_) fun e => hraised rfl)
    exact obeys_orThrow (fun c hc => hcame hsighted hc) fun _ => nofun
  | succ polls ih =>
    refine Obeys.bind (obeys_emit (.spare rfl) ?_ fun e => hraised rfl)
    refine Obeys.bind (obeys_query (.spare rfl) (fun found => ?_) fun e => hraised rfl)
    refine Obeys.bind (obeys_orThrow (fun c hc => ?_) fun hnone _ => ?_)
    · change Obeys _ (if _ then _ else _) _ _ _ _
      split
      · exact Obeys.pure (hcame (hsighted.cons _) hc)
      · exact ih ((hsighted.cons _).cons _)
    · refine .vanished (.inl ⟨id, ?_, hsighted.cons _⟩)
      rw [hnone]
      rfl

/-- **A request keeps its discipline.** -/
theorem obeys_createContribution (polls : ℕ) :
    Obeys (MayRequest dto key) (ContributionsService.createContribution sdk cfg polls dto key :
      Service σ Contribution)
      (fun c _ L => Ended key (.ok c) L) (fun e _ L => Ended key (.error e) L) s [] := by
  have hunfiled : Unfiled [] := fun _ _ hmem => absurd hmem List.not_mem_nil
  rw [ContributionsService.createContribution]
  cases hkey : key.filter (· != "") with
  | none =>
    have hnokey : ∀ k, key = some k → k = "" := by
      rintro k rfl
      by_contra hne
      simp [Option.filter, hne] at hkey
    refine Obeys.tryCatch ((obeys_recordContribution sdk cfg ⟨fun k hk hne => ?_, hunfiled⟩).mono
      (fun c _ L h k _ _ => h.2 k) fun e _ L h => Obeys.throw fun he k _ _ => ?_)
    · exact absurd (hnokey k hk) hne
    · exact .inl (h.2 (clashes_mapFailure e ▸ he) k)
  | some k =>
  obtain ⟨rfl, hne⟩ : key = some k ∧ k ≠ "" := by
    cases key with
    | none => cases hkey
    | some k' =>
      obtain ⟨hne, rfl⟩ : k' ≠ "" ∧ k' = k := by simpa [Option.filter] using hkey
      exact ⟨rfl, hne⟩
  -- what has been shown of the key is all that matters
  have hok : ∀ {c L}, Came k c L → Ended (some k) (.ok c) L := by
    rintro c L h _ hk -
    exact Option.some.inj hk ▸ h
  have herr : ∀ {e L}, (e.clashes = true → Clash k L) → Ended (some k) (.error e) L := by
    rintro e L h he _ hk -
    exact .inl (Option.some.inj hk ▸ h he)
  have hraised : ∀ {L : Log Op.Ret} {entry : Entry Op.Ret} {e : Exc}, raises entry = some e →
      Ended (some k) (.error e) (entry :: L) := fun h => herr fun he => .raised (.newest h) he
  have hwait : ∀ {id L}, Sighted k id L → Obeys (MayRequest dto (some k))
      (ContributionsService.waitForInFlight id polls : Service σ Contribution)
      (fun c _ L => Ended (some k) (.ok c) L) (fun e _ L => Ended (some k) (.error e) L) s L :=
    fun h => (obeys_waitForInFlight polls h).mono (fun _ _ _ h => hok h) fun _ _ _ h => herr h
  refine Obeys.bind (obeys_query (.spare rfl) (fun existing => ?_) fun e => hraised rfl)
  cases existing with
  | some existing =>
    change Obeys _ (if _ then _ else _) _ _ _ _
    split
    · exact Obeys.pure (hok ⟨byKey k, existing, List.mem_cons_self, .inl rfl, rfl⟩)
    · exact hwait (.inl ⟨existing, rfl, List.mem_cons_self⟩)
  | none =>
  refine Obeys.bind (Obeys.perform (.acquire rfl hne) fun acquired : Bool => ?_)
  cases acquired with
  | true =>
    have hholds : ∀ {L}, Holding (some k) (⟨.setIfNotExists (lockKey k), true⟩ :: L) := by
      rintro L _ hk -
      rw [← Option.some.inj hk]
      exact if_pos rfl
    have hready : Unfiled (⟨.setIfNotExists (lockKey k), true⟩ ::
        ⟨.db (.findContribution { idempotencyKey := some k }), .ok none⟩ :: []) := by
      intro row r hmem
      rcases List.mem_cons.mp hmem with heq | hmem
      · cases heq
      · rcases List.mem_cons.mp hmem with heq | hmem
        · cases heq
        · exact hunfiled row r hmem
    have hrelease : ∀ {t : σ} {L} {x : Except Exc Contribution}, Holding (some k) L →
        (∀ entry, Ended (some k) x (entry :: L)) → Obeys (MayRequest dto (some k)) (do
          Routine.perform (Op.del (lockKey k))
          evaluate x : Service σ Contribution)
          (fun c _ L => Ended (some k) (.ok c) L) (fun e _ L => Ended (some k) (.error e) L) t L :=
      fun hL hx => Obeys.bind (Obeys.perform (.release rfl (hL k rfl hne)) fun _ =>
        obeys_evaluate (fun _ hc => hc ▸ hx _) fun _ he => he ▸ hx _)
    refine Obeys.bind (Obeys.tryCatch (Obeys.bind (Obeys.tryCatch
      ((obeys_recordContribution sdk cfg ⟨hholds, hready⟩).mono (fun c _ L h => Obeys.pure ?_)
        fun e _ L h => Obeys.throw (Obeys.pure ?_)))))
    · exact hrelease h.1 fun entry => hok ((h.2 k).cons entry)
    · exact hrelease h.1 fun entry => herr fun he => (h.2 (clashes_mapFailure e ▸ he) k).cons entry
  | false =>
    refine Obeys.bind (obeys_query (.spare rfl) (fun existingAfterLock => ?_) fun e => hraised rfl)
    cases existingAfterLock with
    | some c => exact hwait (.inl ⟨c, rfl, List.mem_cons_self⟩)
    | none =>
    refine Obeys.bind (obeys_emit (.spare rfl) ?_ fun e => hraised rfl)
    refine Obeys.bind (obeys_query (.spare rfl) (fun retryExisting => ?_) fun e => hraised rfl)
    cases retryExisting with
    | some c => exact hwait (.inl ⟨c, rfl, List.mem_cons_self⟩)
    | none =>
      refine Obeys.throw fun _ _ hk _ => .inr ?_
      rw [← Option.some.inj hk]
      exact ⟨_, rfl⟩

end Bodies

/-! ### Runs -/

/-- A call of `createContribution`, with how often it polls at most. -/
structure ContributionRequest where
  polls : ℕ
  dto : CreateContributionDto
  key : Option String

section

variable (sdk : Sdk) (cfg : Config)

/-- The body of a request. -/
def ContributionRequest.body (request : ContributionRequest) :
    Prog Op.Ret (Except Exc Contribution) :=
  (ContributionsService.createContribution sdk cfg request.polls request.dto request.key ()).bind
    fun x => .ret x.1

/-- Any number of requests on one world. -/
def requestSystem : System Op.Ret Choice World ContributionRequest (Except Exc Contribution) where
  exec := exec
  body := ContributionRequest.body sdk cfg

/-- **Every request keeps its discipline.** -/
theorem follows_request (request : ContributionRequest) :
    Follows (MayRequest request.dto request.key) (Ended request.key)
      (request.body sdk cfg) [] :=
  (obeys_createContribution sdk cfg request.polls).follows.bind fun x L hx => by
    rcases x with ⟨e | c, t⟩ <;> exact hx

end

/-! ### What a step does to the contributions -/

/-- **What a request writes** to the contributions: nothing, a new row that conflicts with no other,
or a status. -/
inductive Wrote (d : Database) : Op → Store.Table Contribution → Prop
  | nothing (o : Op) : Wrote d o d.contributions
  | filed {row : Contribution} (hfree : d.contributionConflict (d.contributions.insert row).1 = none) :
      Wrote d (.db (.insertContributionOrIgnore row)) (d.contributions.insert row).2
  | submitted {id : Uuid} {c : Contribution} (hc : d.contributions.row id = some c) :
      Wrote d (.db (.updateContribution id { status := some .onChainSubmitted }))
        (d.contributions.put { c with status := .onChainSubmitted })

theorem contributions_eval {q : Query} (h : q.isSpare = true ∨ q.writesMemberships = true)
    (d : Database) : (q.eval d).2.contributions = d.contributions := by
  cases q with
  | insertContribution c | insertContributionOrIgnore c | updateContribution i p =>
    rcases h with h | h <;> cases h
  | insertPayout p =>
    simp only [Query.eval]
    split <;> rfl
  | _ => rfl

variable {dto : CreateContributionDto} {key : Option String} {L : Log Op.Ret} {o : Op} {pid : ℕ}
  {choice : Choice} {w w' : World} {r : o.Ret}

theorem wrote_of_exec (hD : MayRequest dto key L o) (h : exec o pid choice w = some (r, w')) :
    Wrote w.db o w'.db.contributions := by
  have hsame : ∀ {o : Op}, w'.db.contributions = w.db.contributions →
      Wrote w.db o w'.db.contributions := fun h => h ▸ .nothing _
  cases hD with
  | spare hspare =>
    cases o with
    | db q =>
      rcases db_of_exec_db h with hdb | hdb
      · exact hsame (congrArg _ hdb)
      · exact hsame ((congrArg _ hdb).trans (contributions_eval (.inl hspare) _))
    | commit => cases hspare
    | _ => exact hsame (congrArg _ ((changes_of_exec h).db rfl))
  | save hreread =>
    rcases db_of_exec_db h with hdb | hdb
    · exact hsame (congrArg _ hdb)
    · exact hsame ((congrArg _ hdb).trans (contributions_eval (.inr rfl) _))
  | acquire hkey hne => exact hsame (congrArg _ ((changes_of_exec h).db rfl))
  | release hkey hholds => exact hsame (congrArg _ ((changes_of_exec h).db rfl))
  | file group locked hlooked hholding hunfiled =>
    rcases db_of_exec_db h with hdb | hdb
    · exact hsame (congrArg _ hdb)
    rw [hdb, Query.eval]
    split
    · exact .nothing _
    · next hfree => exact .filed hfree
  | submit id =>
    rcases db_of_exec_db h with hdb | hdb
    · exact hsame (congrArg _ hdb)
    rw [hdb, Query.eval]
    split
    · exact .nothing _
    · next c hc =>
      split
      · exact .nothing _
      · exact .submitted hc

section Wrote

variable {d : Database} {t : Store.Table Contribution} {i : ℕ} {c : Contribution}

/-- No row goes, and only its status changes. -/
theorem Wrote.kept (h : Wrote d o t) (hc : d.contributions.row i = some c) :
    ∃ s, t.row i = some { c with status := s } := by
  cases h with
  | nothing => exact ⟨c.status, hc⟩
  | filed hfree => exact ⟨c.status, d.contributions.row_insert_of_row _ hc⟩
  | @submitted id c₀ hc₀ =>
    have hid := d.contributions.id_of_row hc₀
    by_cases hi : i = id
    · subst hi
      obtain rfl := Option.some.inj (hc₀.symm.trans hc)
      refine ⟨.onChainSubmitted, ?_⟩
      rw [← hid]
      exact d.contributions.row_put_self { c₀ with status := .onChainSubmitted }
    · refine ⟨c.status, (d.contributions.row_put_of_ne ?_).trans hc⟩
      exact fun h => hi (h.trans hid)

/-- A row was there before, or it is the one that has been inserted. -/
theorem Wrote.origin (h : Wrote d o t) (hc : t.row i = some c) :
    (∃ s, d.contributions.row i = some { c with status := s }) ∨
      ∃ row, o = .db (.insertContributionOrIgnore row) ∧ c = { row with id := i } ∧
        i = d.contributions.next ∧ d.contributionConflict c = none := by
  cases h with
  | nothing => exact .inl ⟨c.status, hc⟩
  | @filed row hfree =>
    replace hc : (d.contributions.put { row with id := d.contributions.next }).row i = some c := hc
    rw [Store.Table.row_put] at hc
    split at hc
    next hi =>
      obtain rfl : i = d.contributions.next := hi
      obtain rfl := Option.some.inj hc
      exact .inr ⟨row, rfl, rfl, rfl, hfree⟩
    next => exact .inl ⟨c.status, hc⟩
  | @submitted id c₀ hc₀ =>
    rw [Store.Table.row_put] at hc
    split at hc
    next hi =>
      obtain rfl := Option.some.inj hc
      refine .inl ⟨c₀.status, ?_⟩
      rw [hi]
      exact (congrArg d.contributions.row (d.contributions.id_of_row hc₀)).trans hc₀
    next => exact .inl ⟨c.status, hc⟩

end Wrote

end Ahjoor
