import Ahjoor.Members.Seats
import Ahjoor.Rounds.GroupsService

/-!
# As many rounds as members

A group is created with as many rounds as it has seats. The seats are kept by whoever fills them;
the rounds are a column that `update` writes as well, and it alone does not look at the seats.
**While no request that is saved changes the number of rounds**, every member of an active group has
a round, however the calls interleave; a request that changes it breaks the relation at once.

Every copy of the other columns that a call has loaded has the same number of rounds, so a call that
saves an old copy does not bring back another number.
-/

namespace Ahjoor.Rounds

open Async

/-! ### What is claimed -/

/-- The number of rounds that will be played. -/
def World.totalRounds (w : World) : Option ℤ := w.columns.map (·.totalRounds)

/-- The group has as many rounds as seats and may be activated within them, and every member of an
active group has a round. -/
structure AsManyRounds (w : World) : Prop where
  rounds : ∀ g, w.members.tables.group = some g →
    w.totalRounds = some g.maxMembers ∧ g.minMembers ≤ g.maxMembers
  active : ∀ g, w.members.tables.group = some g → g.status = .active →
    ∃ n, w.totalRounds = some n ∧ (w.members.tables.members.length : ℤ) ≤ n ∧
      ∀ m ∈ w.members.tables.members, ∀ o, m.payoutOrder = some o → 0 ≤ o ∧ o < n

/-- A request that is saved gives the number of rounds that the group has, or none. -/
def KeepsRounds (h h' : RoundsHist) : Prop :=
  match h'.trace with
  | .did _ (.saveUpdated _ dto) _ _ :: _ => ∀ n ∈ dto.totalRounds, h.world.totalRounds = some n
  | _ => True

instance : DecidableRel KeepsRounds := fun h h' => by
  unfold KeepsRounds
  split <;> infer_instance

/-! ### The invariant -/

/-- The columns have as many rounds as the group has seats, also in the copies that calls have
loaded. -/
structure Rounded (w : World) : Prop where
  rounds : w.totalRounds = w.members.tables.terms.map (·.maxMembers)
  fits : ∀ T, w.members.tables.terms = some T → T.minMembers ≤ T.maxMembers
  loaded : ∀ p c, w.loaded p = some c → w.totalRounds = some c.totalRounds

variable {missing : Members.OnMissing} {pid : ℕ} {w w' : World} {L : Log Op.Ret}

theorem Rounded.of_terms (h : Rounded w)
    (hterms : w'.members.tables.terms = w.members.tables.terms)
    (hrounds : w'.totalRounds = w.totalRounds)
    (hloaded : ∀ p c, w'.loaded p = some c → w.totalRounds = some c.totalRounds) : Rounded w' := by
  refine ⟨?_, ?_, fun p c hc => hrounds.trans (hloaded p c hc)⟩
  · rw [hrounds, hterms]
    exact h.rounds
  · rw [hterms]
    exact h.fits

/-- Loading the group. -/
theorem Rounded.load (h : Rounded w) {p : ℕ} {c : Columns} (hc : (w.load pid).loaded p = some c) :
    w.totalRounds = some c.totalRounds := by
  replace hc : Function.update w.loaded pid w.columns p = some c := hc
  by_cases hp : p = pid
  · rw [hp, Function.update_self] at hc
    exact congrArg (Option.map Columns.totalRounds) hc
  · rw [Function.update_of_ne hp] at hc
    exact h.loaded p c hc

/-- Saving a copy with as many rounds. -/
theorem Rounded.store (h : Rounded w) {change : Columns → Columns}
    (hchange : ∀ c, w.totalRounds = some c.totalRounds →
      (change c).totalRounds = c.totalRounds) (choice : Members.Choice) :
    (w.store pid change choice).totalRounds = w.totalRounds := by
  have hsaved : (((w.loaded pid).or w.columns).map change).map Columns.totalRounds =
      w.totalRounds := by
    cases hloaded : w.loaded pid with
    | some c =>
      have hc := h.loaded pid c hloaded
      exact (congrArg some (hchange c hc)).trans hc.symm
    | none =>
      cases hcolumns : w.columns with
      | none => exact (congrArg (Option.map Columns.totalRounds) hcolumns).symm
      | some c =>
        have hc : w.totalRounds = some c.totalRounds :=
          congrArg (Option.map Columns.totalRounds) hcolumns
        exact (congrArg some (hchange c hc)).trans hc.symm
  cases choice with
  | done => exact hsaved
  | lost msg => exact hsaved
  | fails msg => rfl
  | deployed contractAddress => rfl

theorem loaded_store (change : Columns → Columns) (choice : Members.Choice) :
    (w.store pid change choice).loaded = w.loaded := by
  cases choice <;> rfl

/-- What the members do keeps the number of rounds, and the copies. -/
theorem Rounded.settle (h : Rounded w) (pid : ℕ) (o : Members.Op) (choice : Members.Choice) :
    (w.settle pid o choice).totalRounds = w.totalRounds ∧
      ∀ p c, (w.settle pid o choice).loaded p = some c → w.totalRounds = some c.totalRounds := by
  unfold World.settle
  split
  · exact ⟨rfl, fun p c hc => h.load hc⟩
  · exact ⟨rfl, fun p c hc => h.load hc⟩
  · exact ⟨rfl, fun p c hc => h.load hc⟩
  · refine ⟨h.store (fun _ _ => rfl) _, fun p c hc => ?_⟩
    rw [loaded_store] at hc
    exact h.loaded p c hc
  · exact ⟨rfl, h.loaded⟩

/-! ### Contracts -/

/-- The contract of a call: what concerns the members is theirs, and the rounds are kept. -/
def roundContract (pid : ℕ) : Contract Op.Ret World where
  rely w w' := (Members.seatManners.contract pid).rely w.members w'.members
  guarantee w w' := Members.Staying w.members.tables w'.members.tables ∧
    (∀ p, p ≠ pid → Members.seatManners.Undisturbed p w.members w'.members) ∧
      (Rounded w → Rounded w')
  expects _ o w := ∀ g dto, o = .saveUpdated g dto → ∀ n ∈ dto.totalRounds, w.totalRounds = some n
  asserts _ _ _ := True
  rely_refl w := (Members.seatManners.contract pid).rely_refl w.members
  rely_trans h h' := (Members.seatManners.contract pid).rely_trans h h'

theorem guarantee_refl (w : World) : (roundContract pid).guarantee w w :=
  ⟨.refl _, fun _ _ => .inr ⟨rfl, fun h => ⟨h, rfl⟩⟩, id⟩

/-- What a log says about the group and its members. -/
def membersEntry : Entry Op.Ret → Option (Entry Members.Op.Ret)
  | ⟨.members o, r⟩ => some ⟨o, r⟩
  | _ => none

theorem exec_members {o : Members.Op} {choice : Choice} {r : o.Ret}
    (h : exec missing (.members o) pid choice w = some (r, w')) :
    ∃ choice', Members.exec missing o pid choice' w.members = some (r, w'.members) ∧
      w' = { w.settle pid o choice' with members := w'.members } := by
  cases choice with
  | members choice =>
    obtain ⟨x, hx, heq⟩ := Option.map_eq_some_iff.mp h
    obtain ⟨rfl, rfl⟩ := Prod.mk.inj heq
    exact ⟨choice, hx, rfl⟩
  | maintenance config => cases h
  | template found => cases h
  | inserted id => cases h
  | insertedLost id msg => cases h

/-- **What concerns the members keeps their contract, and the rounds.** -/
theorem covers_members (missing : Members.OnMissing) (pid : ℕ) :
    Covers Op.members (fun _ r => r) membersEntry World.members (Members.exec missing) (exec missing)
      pid (Members.seatManners.contract pid) (roundContract pid) where
  reads _ _ := rfl
  reflects h := by
    obtain ⟨choice, hexec, -⟩ := exec_members h
    exact ⟨choice, hexec⟩
  rely h := h
  expects _ := trivial
  asserts _ := trivial
  guarantee {o choice w r w'} hexec hguarantee := by
    obtain ⟨choice', -, hw'⟩ := exec_members hexec
    refine ⟨hguarantee.1.1, hguarantee.2, fun hw => ?_⟩
    obtain ⟨hrounds, hloaded⟩ := hw.settle pid o choice'
    rw [hw'] at hguarantee ⊢
    exact hw.of_terms hguarantee.1.2 hrounds hloaded

/-! ### Updates -/

theorem exec_saveUpdated {g : Members.GroupRow} {dto : UpdateGroupDto} {choice : Choice}
    {r : Except Exc Unit} (h : exec missing (.saveUpdated g dto) pid choice w = some (r, w')) :
    ∃ choice', Members.exec missing (.db (.write (.saveGroup g))) pid choice' w.members =
        some (r, w'.members) ∧
      w' = { w.store pid dto.assignColumns choice' with members := w'.members } := by
  cases choice with
  | members choice =>
    obtain ⟨x, hx, heq⟩ := Option.map_eq_some_iff.mp h
    obtain ⟨rfl, rfl⟩ := Prod.mk.inj heq
    exact ⟨choice, hx, rfl⟩
  | maintenance config => cases h
  | template found => cases h
  | inserted id => cases h
  | insertedLost id msg => cases h

/-- The members are seated, and the group has these terms. -/
abbrev Knows (T : Members.Terms) (w : World) : Prop := Members.Loaded T [] w.members.tables

/-- A request that is saved keeps the terms, and the rounds if it gives no other number. -/
theorem guarantee_saveUpdated {g : Members.GroupRow} {dto : UpdateGroupDto} {choice : Choice}
    {r : Except Exc Unit} (hw : Knows g.terms w)
    (hdto : ∀ n ∈ dto.totalRounds, w.totalRounds = some n)
    (hexec : exec missing (.saveUpdated g dto) pid choice w = some (r, w')) :
    (roundContract pid).guarantee w w' ∧ Knows g.terms w' := by
  obtain ⟨choice', hsave, hw'⟩ := exec_saveUpdated hexec
  have hpermits : Members.seatManners.Permits missing (Members.Loaded g.terms [])
      (.db (.write (.saveGroup g))) := Members.permits_saveGroup rfl
  obtain ⟨hguarantee, hknown⟩ := hpermits.step Members.Loaded.bears hw hsave
  refine ⟨⟨hguarantee.1.1, hguarantee.2, fun hrounded => ?_⟩, hknown⟩
  have hchange : ∀ c : Columns, w.totalRounds = some c.totalRounds →
      (dto.assignColumns c).totalRounds = c.totalRounds := by
    intro c hc
    change dto.totalRounds.getD c.totalRounds = c.totalRounds
    cases hn : dto.totalRounds with
    | none => rfl
    | some n => exact Option.some.inj ((hdto n hn).symm.trans hc)
  rw [hw'] at hguarantee ⊢
  refine hrounded.of_terms hguarantee.1.2 (hrounded.store hchange choice') fun p c hc => ?_
  rw [show ({ w.store pid dto.assignColumns choice' with members := w'.members } : World).loaded =
    w.loaded from loaded_store _ _] at hc
  exact hrounded.loaded p c hc

/-- What is required of an end of a call. -/
abbrev EndsSeated {α : Type} : α → Unit → Log Op.Ret → World → Prop :=
  fun _ _ _ w => Members.Seated w.members.tables

theorem meets_update {id : Uuid} {dto : UpdateGroupDto} {requestingAdminWallet : String}
    (hw : Members.Seated w.members.tables) :
    Meets (exec missing) pid (roundContract pid) (update id dto requestingAdminWallet) EndsSeated
      EndsSeated () L w := by
  have hfind : ∀ L w, Members.Seated w.tables → Meets (Members.exec missing) pid
      (Members.seatManners.contract pid) (Members.db .findGroup)
      (fun (found : Option Members.GroupRow) _ _ w => Members.Seated w.tables ∧
        ∀ g, found = some g → Members.Loaded g.terms [] w.tables)
      (fun _ _ _ w => Members.Seated w.tables) () L w := by
    intro L w hw
    refine Meets.call fun w₁ hrely => ⟨trivial, fun _ choice r w' hexec => ?_⟩
    have hw₁ := hrely.1.seated hw
    rcases Members.exec_db hexec with ⟨rfl, e, rfl⟩ | ⟨-, rfl, hr⟩
    · exact ⟨Members.Manners.guarantee_refl w', fun w₂ hrely₂ => hrely₂.1.seated hw₁⟩
    refine ⟨Members.Manners.guarantee_refl w₁, fun w₂ hrely₂ => ?_⟩
    have hw₂ := hrely₂.1.seated hw₁
    rcases hr with rfl | ⟨e, rfl⟩
    · refine ⟨hw₂, fun g hg => Members.Loaded.bears hrely₂.1 ⟨hw₁, ?_, List.nil_prefix⟩⟩
      exact congrArg (Option.map Members.GroupRow.terms) hg
    · exact hw₂
  refine Meets.bind (((covers_members missing pid).meets (hfind _ _ hw)).mono
    (fun found _ L w hfound => ?_) fun _ _ _ _ h => h)
  obtain ⟨hw, hknown⟩ := hfound
  refine Meets.bind (Meets.valueOr (fun g hg w₁ h₁ => ?_) fun _ w₁ h₁ => h₁.1.seated hw)
  have hloaded := Members.Loaded.bears h₁.1 (hknown g hg)
  refine Meets.bind (Meets.throwWhen (fun _ w₂ h₂ => h₂.1.seated hloaded.seated) fun _ w₂ h₂ => ?_)
  replace hloaded := Members.Loaded.bears h₂.1 hloaded
  refine Meets.bind (Meets.throwWhen (fun _ w₃ h₃ => h₃.1.seated hloaded.seated) fun _ w₃ h₃ => ?_)
  replace hloaded := Members.Loaded.bears h₃.1 hloaded
  refine Meets.call fun w₄ hrely => ⟨trivial, fun hexpects choice r w' hexec => ?_⟩
  have hterms : (dto.assignRow g).terms = g.terms := rfl
  have hloaded₄ : Knows (dto.assignRow g).terms w₄ := hterms ▸ Members.Loaded.bears hrely.1 hloaded
  obtain ⟨hguarantee, hsaved⟩ := guarantee_saveUpdated hloaded₄ (hexpects _ _ rfl) hexec
  refine ⟨hguarantee, fun w₅ hrely₅ => ?_⟩
  cases r with
  | ok _ => exact hrely₅.1.seated hsaved.seated
  | error e => exact hrely₅.1.seated hsaved.seated

/-! ### Creation -/

/-- The operation only reads what is outside the group. -/
def Op.isOutside : Op → Bool
  | .getGlobalMaintenanceMode | .findTemplate _ | .incrementUsageCount _ => true
  | .members _ | .insertGroup _ | .saveUpdated _ _ => false

theorem exec_outside {o : Op} (ho : o.isOutside = true) {choice : Choice} {r : o.Ret}
    (h : exec missing o pid choice w = some (r, w')) : w' = w := by
  cases o with
  | getGlobalMaintenanceMode =>
    cases choice with
    | members choice =>
      cases choice <;> cases h
      rfl
    | maintenance config =>
      cases h
      rfl
    | _ => cases h
  | findTemplate templateId =>
    cases choice with
    | members choice =>
      cases choice <;> cases h
      rfl
    | template found =>
      cases h
      rfl
    | _ => cases h
  | incrementUsageCount templateId =>
    cases choice with
    | members choice => cases choice <;> cases h <;> rfl
    | _ => cases h
  | _ => cases ho

/-- A part of a body that only reads what is outside the group. -/
theorem meets_outside {α : Type} {m : Service α} (hm : Routine.Uses (fun o => o.isOutside = true) m)
    (hw : Members.Seated w.members.tables) :
    Meets (exec missing) pid (roundContract pid) m EndsSeated EndsSeated () L w := by
  refine (Meets.of_uses (C := roundContract pid) (J := fun w => Members.Seated w.members.tables) hm
    (fun _ _ hw h => h.1.seated hw) (fun _ _ _ ho hw => ⟨trivial, fun _ _ _ _ hexec => ?_⟩) hw).mono
    (fun _ _ _ _ h => h.2) fun _ _ _ _ h => h.2
  obtain rfl := exec_outside ho hexec
  exact ⟨guarantee_refl _, hw⟩

/-- The columns of the row that is stored. -/
theorem columns_of_stored {group : NewGroup} {id : Uuid} {g : Group}
    (h : group.stored id = some g) :
    group.maxMembers = some g.row.maxMembers ∧ group.minMembers = some g.row.minMembers ∧
      group.totalRounds = some g.columns.totalRounds := by
  simp only [NewGroup.stored, Option.bind_eq_bind, Option.bind_eq_some_iff] at h
  obtain ⟨_, -, _, -, _, -, _, -, _, hrounds, _, -, _, hmin, _, hmax, hg⟩ := h
  cases hg
  exact ⟨hmax, hmin, hrounds⟩

/-- The row has as many rounds as seats, and may be activated within them. -/
structure Balanced (g : Group) : Prop where
  rounds : g.columns.totalRounds = g.row.maxMembers
  fits : g.row.minMembers ≤ g.row.maxMembers
  pos : 0 < g.row.maxMembers

/-- What `save` is given has as many rounds as seats. -/
def Creates (group : NewGroup) : Prop := ∀ id g, group.stored id = some g → Balanced g

theorem create_of_insert {group : NewGroup} {id : Uuid} {g : Group}
    (h : w.insert group id = some (g, w')) :
    group.stored id = some g ∧
      (w' = w ∨ (w.members.tables.group = none ∧ w' = w.create g)) := by
  obtain ⟨g', hstored, h⟩ := Option.bind_eq_some_iff.mp h
  split at h
  · split at h
    next hnone =>
      cases h
      exact ⟨hstored, .inr ⟨Option.isNone_iff_eq_none.mp hnone, rfl⟩⟩
    next => cases h
  · cases h
    exact ⟨hstored, .inl rfl⟩

/-- **A group is created** without members, and with as many rounds as seats. -/
theorem guarantee_create {g : Group} (hg : Balanced g) (hnone : w.members.tables.group = none) :
    (roundContract pid).guarantee w (w.create g) := by
  have hterms : w.members.tables.terms = none := congrArg (Option.map _) hnone
  refine ⟨⟨fun hseated => ?_, List.prefix_rfl, fun T hT => ?_⟩, fun p _ => .inr ⟨rfl, fun h => ⟨h, rfl⟩⟩,
    fun hrounded => ⟨congrArg some hg.rounds, fun T hT => ?_, fun p c hc => ?_⟩⟩
  · have hmembers : (w.create g).members.tables.members = [] := hseated.empty hterms
    refine ⟨fun _ => hmembers, fun T hT => ?_, fun m hm => ?_⟩
    · obtain rfl : g.row.terms = T := Option.some.inj hT
      rw [hmembers]
      exact hg.pos.le
    · rw [hmembers] at hm
      cases hm
  · rw [hterms] at hT
    cases hT
  · obtain rfl : g.row.terms = T := Option.some.inj hT
    exact hg.fits
  · have hrounds := hrounded.loaded p c hc
    rw [hrounded.rounds, hterms] at hrounds
    cases hrounds

/-- The insertion of a row with as many rounds as seats. -/
theorem meets_insertGroup {group : NewGroup} (hgroup : Creates group)
    (hw : Members.Seated w.members.tables) :
    Meets (exec missing) pid (roundContract pid)
      (Routine.call (.insertGroup group) fun r => r : Service Group) EndsSeated EndsSeated () L w := by
  refine Meets.call fun w₁ hrely => ⟨trivial, fun _ choice r w' hexec => ?_⟩
  have hw₁ := hrely.1.seated hw
  have hguarantee : (roundContract pid).guarantee w₁ w' := by
    have hinsert : ∀ {id g}, w₁.insert group id = some (g, w') →
        (roundContract pid).guarantee w₁ w' := by
      intro id g h
      obtain ⟨hstored, rfl | ⟨hnone, rfl⟩⟩ := create_of_insert h
      · exact guarantee_refl w'
      · exact guarantee_create (hgroup id g hstored) hnone
    cases choice with
    | members choice =>
      cases choice with
      | fails msg =>
        cases hexec
        exact guarantee_refl w₁
      | _ => cases hexec
    | inserted id =>
      obtain ⟨x, hx, heq⟩ := Option.map_eq_some_iff.mp hexec
      obtain ⟨-, rfl⟩ := Prod.mk.inj heq
      exact hinsert hx
    | insertedLost id msg =>
      obtain ⟨x, hx, heq⟩ := Option.map_eq_some_iff.mp hexec
      obtain ⟨-, rfl⟩ := Prod.mk.inj heq
      exact hinsert hx
    | maintenance config => cases hexec
    | template found => cases hexec
  refine ⟨hguarantee, fun w₂ hrely₂ => ?_⟩
  have hw₂ := hrely₂.1.seated (hguarantee.1.seated hw₁)
  cases r with
  | ok g => exact hw₂
  | error e => exact hw₂

/-- The numbers that a request gives stay as they are. -/
theorem orElse_of_pos {v fallback : Option ℤ} (h : v.any (1 ≤ ·) = true) :
    orElse 0 v fallback = v := by
  cases v with
  | none => cases h
  | some n =>
    have hn : n ≠ 0 := by
      have hpos := of_decide_eq_true h
      omega
    exact if_neg (by simpa [falsy] using hn)

/-- **A template** does not change the number of rounds of a request that gives it. -/
theorem totalRounds_withTemplate {dto : CreateGroupDto} (hdto : dto.isValid = true)
    (userId : Option Uuid) (hw : Members.Seated w.members.tables) :
    Meets (exec missing) pid (roundContract pid) (withTemplate dto userId)
      (fun (finalDto : CreateGroupDto) _ _ w => Members.Seated w.members.tables ∧
        finalDto.totalRounds = dto.totalRounds) EndsSeated () L w := by
  have hsame : ∀ {L w}, Members.Seated w.members.tables → Meets (exec missing) pid (roundContract pid)
      (pure dto : Service CreateGroupDto) (fun (finalDto : CreateGroupDto) _ _ w =>
        Members.Seated w.members.tables ∧ finalDto.totalRounds = dto.totalRounds) EndsSeated () L w :=
    fun hw => Meets.pure fun w' h => ⟨h.1.seated hw, rfl⟩
  have hgiven : dto.totalRounds.any (1 ≤ ·) = true :=
    (Bool.and_eq_true_iff.mp (Bool.and_eq_true_iff.mp hdto).1).1
  unfold withTemplate
  split
  · split
    · exact hsame hw
    · refine Meets.bind ((meets_outside ?_ hw).mono (fun template _ L w hw => ?_) fun _ _ _ _ h => h)
      · refine Routine.uses_bind (Routine.uses_call rfl) fun found => ?_
        refine Routine.uses_bind (Routine.uses_valueOr found _) fun template => ?_
        exact Routine.uses_bind (Routine.uses_throwWhen _ _) fun _ => Routine.uses_pure template
      · exact Meets.pure fun w' h => ⟨h.1.seated hw, orElse_of_pos hgiven⟩
  · exact hsame hw

/-- What passes the checks of `createGroup` has as many rounds as seats. -/
theorem creates_of_checks {dto : CreateGroupDto} {maxMembers : Option ℤ} {assetCode adminWallet : String}
    (hpos : dto.totalRounds.any (1 ≤ ·) = true) (hrounds : maxMembers = dto.totalRounds)
    (hfits : exceeds dto.minMembers maxMembers = false) :
    Creates (dto.group maxMembers assetCode adminWallet) := by
  intro id g hstored
  obtain ⟨hmax, hmin, htotal⟩ := columns_of_stored hstored
  replace hmax : maxMembers = some g.row.maxMembers := hmax
  replace hmin : dto.minMembers = some g.row.minMembers := hmin
  replace htotal : dto.totalRounds = some g.columns.totalRounds := htotal
  rw [hmin, hmax] at hfits
  have hsame : g.columns.totalRounds = g.row.maxMembers :=
    Option.some.inj (htotal.symm.trans (hrounds.symm.trans hmax))
  refine ⟨hsame, not_lt.mp (of_decide_eq_false hfits), ?_⟩
  rw [htotal] at hpos
  have hone : 1 ≤ g.columns.totalRounds := of_decide_eq_true hpos
  omega

/-- **`createGroup`** inserts a group with as many rounds as seats, with a template or without. -/
theorem meets_createGroup {allowedAssetCodes : Option String} {dto : CreateGroupDto}
    {adminWallet : String} {userId : Option Uuid} (hdto : dto.isValid = true)
    (hw : Members.Seated w.members.tables) :
    Meets (exec missing) pid (roundContract pid) (createGroup allowedAssetCodes dto adminWallet userId)
      EndsSeated EndsSeated () L w := by
  have hgiven : dto.totalRounds.any (1 ≤ ·) = true :=
    (Bool.and_eq_true_iff.mp (Bool.and_eq_true_iff.mp hdto).1).1
  refine Meets.bind ((meets_outside (Routine.uses_call rfl) hw).mono (fun maintenance _ L w hw => ?_)
    fun _ _ _ _ h => h)
  refine Meets.bind (Meets.throwWhen (fun _ w' h => h.1.seated hw) fun _ w₁ h₁ => ?_)
  refine Meets.bind ((totalRounds_withTemplate hdto userId (h₁.1.seated hw)).mono
    (fun finalDto _ L w hfinal => ?_) fun _ _ _ _ h => h)
  obtain ⟨hw, hfinal⟩ := hfinal
  refine Meets.bind (Meets.throwWhen (fun _ w' h => h.1.seated hw) fun hrounds w₂ h₂ => ?_)
  replace hw := h₂.1.seated hw
  refine Meets.bind (Meets.throwWhen (fun _ w' h => h.1.seated hw) fun hfits w₃ h₃ => ?_)
  replace hw := h₃.1.seated hw
  refine Meets.bind (Meets.throwWhen (fun _ w' h => h.1.seated hw) fun _ w₄ h₄ => ?_)
  replace hw := h₄.1.seated hw
  have hcreates : Creates (finalDto.group (finalDto.maxMembers.or finalDto.totalRounds)
      (finalDto.assetCode.getD "XLM") adminWallet) :=
    creates_of_checks (hfinal ▸ hgiven) (not_not.mp (of_decide_eq_false hrounds)) hfits
  refine Meets.bind ((meets_insertGroup hcreates hw).mono (fun savedGroup _ L w hw => ?_)
    fun _ _ _ _ h => h)
  refine Meets.bind ((meets_outside ?_ hw).mono (fun _ _ L w hw => ?_) fun _ _ _ _ h => h)
  · split
    · split
      · exact Routine.uses_pure ()
      · exact Routine.uses_call rfl
    · exact Routine.uses_pure ()
  · exact Meets.pure fun w' h => h.1.seated hw

/-! ### Runs -/

/-- The members are seated, and there are as many rounds as seats. -/
structure Kept (w : World) : Prop where
  seated : Members.Seated w.members.tables
  rounded : Rounded w

theorem Kept.asManyRounds (h : Kept w) : AsManyRounds w := by
  have hrounds : ∀ g, w.members.tables.group = some g → w.totalRounds = some g.maxMembers := by
    intro g hg
    rw [h.rounded.rounds, Members.Tables.terms, hg]
    rfl
  have hterms : ∀ g, w.members.tables.group = some g → w.members.tables.terms = some g.terms :=
    fun g hg => congrArg (Option.map Members.GroupRow.terms) hg
  refine ⟨fun g hg => ⟨hrounds g hg, h.rounded.fits _ (hterms g hg)⟩, fun g hg _ => ?_⟩
  have hwithin : (w.members.tables.members.length : ℤ) ≤ g.maxMembers :=
    h.seated.within _ (hterms g hg)
  refine ⟨g.maxMembers, hrounds g hg, hwithin, fun m hm o ho => ?_⟩
  obtain ⟨hpos, hlt⟩ := h.seated.orders m hm o ho
  exact ⟨hpos, lt_of_lt_of_le hlt hwithin⟩

variable (missing) in
/-- **Every call** keeps the contract. -/
theorem meets_roundContract (allowedAssetCodes : Option String) (maxWaitlist : ℤ) (groupId : Uuid)
    (c : Call) (hw : Members.Seated w.members.tables) :
    Meets (exec missing) pid (roundContract pid) (c.body allowedAssetCodes maxWaitlist groupId)
      EndsSeated EndsSeated () L w := by
  have hreply : ∀ {α : Type} {m : Service α} {f : α → Reply},
      Meets (exec missing) pid (roundContract pid) m EndsSeated EndsSeated () L w →
      Meets (exec missing) pid (roundContract pid) (m >>= fun a => pure (f a)) EndsSeated EndsSeated
        () L w := fun hm =>
    Meets.bind (hm.mono (fun _ _ _ _ hw => Meets.pure fun _ h => h.1.seated hw) fun _ _ _ _ h => h)
  cases c with
  | members c =>
    exact hreply (f := fun r => .members r)
      ((covers_members missing pid).meets (Members.meets_seats c.2 hw))
  | createGroup dto adminWallet userId =>
    exact hreply (f := fun group => .created group) (meets_createGroup dto.2 hw)
  | update dto requestingAdminWallet => exact hreply (f := fun _ => .updated) (meets_update hw)

variable (missing) in
/-- **The calls on a group are verified**, however they overlap, if no request that is saved changes
the number of rounds. -/
theorem verified_keepsRounds (allowedAssetCodes : Option String) (maxWaitlist : ℤ) (groupId : Uuid) :
    Verified (system missing allowedAssetCodes maxWaitlist groupId) KeepsRounds
      (fun pid _ => roundContract pid) (fun _ _ _ _ _ => True) Kept fun _ _ => True where
  body h pid c hinv _ := by
    refine (meets_roundContract missing allowedAssetCodes maxWaitlist groupId c hinv.seated).safe.bind
      fun x L w _ => ?_
    exact fun _ _ => trivial
  keeps pid c w w' hw hguarantee := ⟨hguarantee.1.seated hw.seated, hguarantee.2.2 hw.rounded⟩
  respects pid c pid' c' w w' hne _ hguarantee := ⟨hguarantee.1, hguarantee.2.1 pid hne⟩
  expected h pid c o r w' _ hok := by
    rintro g dto rfl
    exact hok
  admitted _ _ _ _ _ _ _ _ := ⟨trivial, trivial⟩

theorem kept_blank (groupId : Uuid) : Kept (blank groupId) where
  seated := ⟨fun _ => rfl, nofun, nofun⟩
  rounded := ⟨rfl, nofun, nofun⟩

/-- **As many rounds as members**, in every state of a run in which no request that is saved changes
the number of rounds. -/
theorem asManyRounds_of_keepsRounds (missing : Members.OnMissing) (allowedAssetCodes : Option String)
    (maxWaitlist : ℤ) (groupId : Uuid) {s : RoundsState}
    (hs : (system missing allowedAssetCodes maxWaitlist groupId).ReachableWhen KeepsRounds
      (.init (blank groupId)) s) : AsManyRounds s.hist.world :=
  (kept_of_reachable (verified_keepsRounds missing allowedAssetCodes maxWaitlist groupId)
    (kept_blank groupId) hs).2.inv.asManyRounds

namespace Sample

/-- A request for three rounds. -/
def request : CreateGroupDto where
  name := some "group"
  contributionAmount := some "100"
  token := some "USDC"
  roundDuration := some 86400
  totalRounds := some 3
  minMembers := some 2

/-- A public template for three members. -/
def template : GroupTemplate where
  ownerId := 9
  isPublic := true
  config := { totalRounds := some 5, maxMembers := some 3, minMembers := some 4, timezone := some "UTC" }

/-- The group is created without a template. -/
def creation : List (Move Choice Call) :=
  [.start (.createGroup ⟨request, by decide⟩ "G0" none), .run 0 (.maintenance none),
    .run 0 (.inserted 0), .finish 0]

/-- The group is created with the template. -/
def creationWithTemplate : List (Move Choice Call) :=
  [.start (.createGroup ⟨{ request with templateId := some "t" }, by decide⟩ "G0" (some 7)),
    .run 0 (.maintenance none), .run 0 (.template (some template)), .run 0 (.inserted 0),
    .run 0 (.members .done), .finish 0]

/-- A whole call of `n` operations on the group and its members. -/
def whole (pid n : ℕ) (c : Call) : List (Move Choice Call) :=
  (.start c :: List.replicate n (.run pid (.members .done)) : List (Move Choice Call)) ++
    ([.finish pid] : List (Move Choice Call))

end Sample

/-- A group is created with a template, renamed, filled while it is being activated, and
active. -/
theorem asManyRounds_of_keepsRounds_sample : ∃ s : RoundsState,
    s.hist.world.members.tables.group.any (·.status = .active) = true ∧
      AsManyRounds s.hist.world := by
  obtain ⟨s, hs, hactive⟩ := System.exists_of_replay (system .ignores none 50 0) KeepsRounds
    (.init (blank 0))
    (Sample.creationWithTemplate ++
      Sample.whole 1 2 (.update { name := some "renamed", totalRounds := some 3 } "G0") ++
      Sample.whole 2 7 (.members ⟨.addMember 1 "G1", rfl⟩) ++
      Sample.whole 3 7 (.members ⟨.addMember 2 "G2", rfl⟩) ++
      .start (.members ⟨.activateGroup "G0" id, rfl⟩) :: .run 4 (.members .done) ::
      Sample.whole 5 7 (.members ⟨.addMember 3 "G3", rfl⟩) ++ [.run 4 (.members .done)])
    (fun s => s.hist.world.members.tables.group.any (·.status = .active)) (by decide +kernel)
  exact ⟨s, hactive, asManyRounds_of_keepsRounds .ignores none 50 0 hs⟩

/-- **It can fail**: the admin of a group of three changes the number of rounds
to two. -/
theorem not_asManyRounds : ¬ ∀ (missing : Members.OnMissing) (allowedAssetCodes : Option String)
    (maxWaitlist : ℤ) (groupId : Uuid) (s : RoundsState),
    (system missing allowedAssetCodes maxWaitlist groupId).Reachable (.init (blank groupId)) s →
      AsManyRounds s.hist.world := by
  intro h
  obtain ⟨s, hs, hchanged⟩ := System.exists_of_replay (system .ignores none 50 0) (fun _ _ => True)
    (.init (blank 0))
    (Sample.creation ++ Sample.whole 1 2 (.update { totalRounds := some 2 } "G0"))
    (fun s => s.hist.world.members.tables.group.any (·.maxMembers = 3) &&
      s.hist.world.totalRounds == some 2) (by decide +kernel)
  obtain ⟨hgroup, hrounds⟩ := Bool.and_eq_true_iff.mp hchanged
  obtain ⟨g, hg, hmax⟩ := System.exists_of_any hgroup
  have hsame := ((h .ignores none 50 0 s hs).rounds g hg).1
  rw [eq_of_beq hrounds, of_decide_eq_true hmax] at hsame
  cases hsame

end Ahjoor.Rounds
