import Ahjoor.Rounds.AsManyRounds

/-!
# What a template decides

The fields that a request gives override those of its template, and the fields that it omits are
taken from the template. `mergeTemplateConfig` tells the one from the other by whether the value is
truthy, so a zero or an empty text counts as omitted, on both sides; and `createGroup` fills in its
own defaults after the merge.

* Five fields take the template's value whenever that of the request is falsy (`orElse`).
* Six fields take it if it is truthy itself (`orSet`).

A group is stored with its asset code in upper case, and without an issuer if the asset is native.
-/

namespace Ahjoor.Rounds

open Async

/-! ### One field -/

section Fields

variable {α : Type} [DecidableEq α] {zero : α} {given template : Option α}

/-- **The value in effect** of a field, which is the one that the request gives, or else that of the
template, has come through. -/
def Takes (given template result : Option α) : Prop := ∀ v, given.or template = some v → result = some v

/-- The request does not give the falsy value, or the template has the same. -/
def ElseClear (zero : α) (given template : Option α) : Prop := given = some zero → template = some zero

/-- The request does not give the falsy value against a truthy one of the template, and the template
does not have the falsy value for a field that the request omits. -/
structure SetClear (zero : α) (given template : Option α) : Prop where
  kept : given = some zero → falsy zero template = true
  omitted : given = none → template ≠ some zero

@[simp] theorem falsy_none : falsy zero none = true := rfl

@[simp] theorem falsy_some {v : α} : falsy zero (some v) = decide (v = zero) := rfl

/-- **A field whose default is set by `orElse`.** -/
theorem takes_orElse : Takes given template (orElse zero given template) ↔ ElseClear zero given template := by
  cases given with
  | none => simp [Takes, ElseClear, orElse]
  | some v =>
    by_cases hv : v = zero
    · subst hv
      simp [Takes, ElseClear, orElse]
    · simp [Takes, ElseClear, orElse, hv]

/-- **A field whose default is set by `orSet`.** -/
theorem takes_orSet : Takes given template (orSet zero given template) ↔ SetClear zero given template := by
  cases given with
  | none =>
    cases template with
    | none => exact iff_of_true nofun ⟨nofun, fun _ => nofun⟩
    | some t =>
      by_cases ht : t = zero
      · subst ht
        exact iff_of_false (by simp [Takes, orSet]) fun h => h.omitted rfl rfl
      · exact iff_of_true (by simp [Takes, orSet, ht]) ⟨nofun, fun _ heq => ht (Option.some.inj heq)⟩
  | some v =>
    by_cases hv : v = zero
    · subst hv
      constructor
      · intro h
        refine ⟨fun _ => ?_, nofun⟩
        by_contra htruthy
        have htaken : orSet v (some v) template = template := if_pos (by simp [htruthy])
        obtain rfl : template = some v := htaken.symm.trans (h v rfl)
        exact htruthy (by simp)
      · rintro h u hu
        have hkept : orSet v (some v) template = some v := if_neg (by simp [h.kept rfl])
        exact hkept.trans hu
    · refine iff_of_true (fun u hu => ?_) ⟨fun heq => absurd (Option.some.inj heq) hv, nofun⟩
      have hkept : orSet zero (some v) template = some v := if_neg (by simp [hv])
      exact hkept.trans hu

omit [DecidableEq α] in
/-- A default that is filled in after the merge. -/
theorem Takes.getD {result : Option α} (h : Takes given template result) (fallback : α) :
    Takes given template (some (result.getD fallback)) := fun v hv => by rw [h v hv, Option.getD_some]

end Fields

/-! ### All fields -/

/-- The fields of a request that no template has. -/
def CreateGroupDto.others (dto : CreateGroupDto) : List (Option String) :=
  [dto.name, dto.token, dto.contractAddress, dto.startDate, dto.endDate, dto.templateId]

/-- **The merged request** has the values in effect. -/
structure Merges (template : GroupTemplateConfig) (dto merged : CreateGroupDto) : Prop where
  contributionAmount : Takes dto.contributionAmount template.contributionAmount merged.contributionAmount
  roundDuration : Takes dto.roundDuration template.roundDuration merged.roundDuration
  totalRounds : Takes dto.totalRounds template.totalRounds merged.totalRounds
  maxMembers : Takes dto.maxMembers template.maxMembers merged.maxMembers
  minMembers : Takes dto.minMembers template.minMembers merged.minMembers
  assetCode : Takes dto.assetCode template.assetCode merged.assetCode
  assetIssuer : Takes dto.assetIssuer template.assetIssuer merged.assetIssuer
  payoutOrderStrategy :
    Takes dto.payoutOrderStrategy template.payoutOrderStrategy merged.payoutOrderStrategy
  penaltyRate : Takes dto.penaltyRate template.penaltyRate merged.penaltyRate
  gracePeriodHours : Takes dto.gracePeriodHours template.gracePeriodHours merged.gracePeriodHours
  timezone : Takes dto.timezone template.timezone merged.timezone
  others : merged.others = dto.others

/-- **The stored group** has the values in effect: the asset code in upper case, and the issuer if
the asset is not native. -/
structure Stores (template : GroupTemplateConfig) (dto : CreateGroupDto) (group : NewGroup) : Prop where
  contributionAmount : Takes dto.contributionAmount template.contributionAmount group.contributionAmount
  roundDuration : Takes dto.roundDuration template.roundDuration group.roundDuration
  totalRounds : Takes dto.totalRounds template.totalRounds group.totalRounds
  maxMembers : Takes dto.maxMembers template.maxMembers group.maxMembers
  minMembers : Takes dto.minMembers template.minMembers group.minMembers
  assetCode :
    Takes (dto.assetCode.map upperCase) (template.assetCode.map upperCase) (some group.assetCode)
  assetIssuer : group.assetCode ≠ "XLM" →
    Takes dto.assetIssuer template.assetIssuer group.assetIssuer
  payoutOrderStrategy :
    Takes dto.payoutOrderStrategy template.payoutOrderStrategy (some group.payoutOrderStrategy)
  penaltyRate : Takes dto.penaltyRate template.penaltyRate (some group.penaltyRate)
  gracePeriodHours : Takes dto.gracePeriodHours template.gracePeriodHours (some group.gracePeriodHours)
  timezone : Takes dto.timezone template.timezone group.timezone
  others : [group.name, group.token, group.contractAddress, group.startDate, group.endDate] =
    [dto.name, dto.token, dto.contractAddress, dto.startDate, dto.endDate]

/-- **No falsy value decides** a field of the merge. -/
structure Clear (template : GroupTemplateConfig) (dto : CreateGroupDto) : Prop where
  contributionAmount : ElseClear "" dto.contributionAmount template.contributionAmount
  roundDuration : ElseClear 0 dto.roundDuration template.roundDuration
  totalRounds : ElseClear 0 dto.totalRounds template.totalRounds
  maxMembers : ElseClear 0 dto.maxMembers template.maxMembers
  minMembers : ElseClear 0 dto.minMembers template.minMembers
  assetCode : SetClear "" dto.assetCode template.assetCode
  assetIssuer : SetClear "" dto.assetIssuer template.assetIssuer
  payoutOrderStrategy : SetClear "" dto.payoutOrderStrategy template.payoutOrderStrategy
  penaltyRate : SetClear 0 dto.penaltyRate template.penaltyRate
  gracePeriodHours : SetClear 0 dto.gracePeriodHours template.gracePeriodHours
  timezone : SetClear "" dto.timezone template.timezone

section Merging

variable {template : GroupTemplate} {dto : CreateGroupDto}

theorem merges_iff : Merges template.config dto (mergeTemplateConfig template dto) ↔
    Clear template.config dto := by
  constructor
  · intro h
    exact ⟨takes_orElse.mp h.contributionAmount, takes_orElse.mp h.roundDuration,
      takes_orElse.mp h.totalRounds, takes_orElse.mp h.maxMembers, takes_orElse.mp h.minMembers,
      takes_orSet.mp h.assetCode, takes_orSet.mp h.assetIssuer, takes_orSet.mp h.payoutOrderStrategy,
      takes_orSet.mp h.penaltyRate, takes_orSet.mp h.gracePeriodHours, takes_orSet.mp h.timezone⟩
  · intro h
    exact ⟨takes_orElse.mpr h.contributionAmount, takes_orElse.mpr h.roundDuration,
      takes_orElse.mpr h.totalRounds, takes_orElse.mpr h.maxMembers, takes_orElse.mpr h.minMembers,
      takes_orSet.mpr h.assetCode, takes_orSet.mpr h.assetIssuer, takes_orSet.mpr h.payoutOrderStrategy,
      takes_orSet.mpr h.penaltyRate, takes_orSet.mpr h.gracePeriodHours, takes_orSet.mpr h.timezone, rfl⟩

/-- What `createGroup` hands to `save` when it has found the template. -/
def GroupTemplate.handed (template : GroupTemplate) (dto : CreateGroupDto) (adminWallet : String) :
    NewGroup :=
  let finalDto := mergeTemplateConfig template dto
  finalDto.group (finalDto.maxMembers.or finalDto.totalRounds) (finalDto.assetCode.getD "XLM") adminWallet

theorem handed_maxMembers (adminWallet : String) : (template.handed dto adminWallet).maxMembers =
    (mergeTemplateConfig template dto).maxMembers.or (mergeTemplateConfig template dto).totalRounds := rfl

theorem handed_assetCode (adminWallet : String) : (template.handed dto adminWallet).assetCode =
    upperCase ((mergeTemplateConfig template dto).assetCode.getD "XLM") := rfl

/-- **After a merge that has gone right**, the group is stored as it should be, unless the payout
order is the empty text, which `createGroup` takes for an omitted one. -/
theorem stores_handed_iff {adminWallet : String}
    (h : Merges template.config dto (mergeTemplateConfig template dto)) :
    Stores template.config dto (template.handed dto adminWallet) ↔
      dto.payoutOrderStrategy.or template.config.payoutOrderStrategy ≠ some "" := by
  constructor
  · intro hstores hempty
    have hmerged := h.payoutOrderStrategy "" hempty
    have hstored := hstores.payoutOrderStrategy "" hempty
    simp [GroupTemplate.handed, CreateGroupDto.group, hmerged] at hstored
  · intro hstrategy
    refine ⟨h.contributionAmount, h.roundDuration, h.totalRounds, fun v hv => ?_, h.minMembers,
      fun v hv => ?_, fun hnative v hv => ?_, fun v hv => ?_, h.penaltyRate.getD _,
      h.gracePeriodHours.getD _, h.timezone, rfl⟩
    · rw [handed_maxMembers, h.maxMembers v hv, Option.some_or]
    · rw [← Option.map_or] at hv
      obtain ⟨code, hcode, rfl⟩ := Option.map_eq_some_iff.mp hv
      rw [handed_assetCode, h.assetCode code hcode, Option.getD_some]
    · exact (if_neg hnative).trans (h.assetIssuer v hv)
    · have hv' : v ≠ "" := fun heq => hstrategy (heq ▸ hv)
      simp [GroupTemplate.handed, CreateGroupDto.group, h.payoutOrderStrategy v hv, hv']

end Merging

/-! ### What is saved -/

/-- The group is what a call that has found a template has to save. -/
def SavesMerged (dto : CreateGroupDto) (adminWallet : String) (L : Log Op.Ret) : Prop :=
  ∀ templateId template group r, ⟨.findTemplate templateId, .ok (some template)⟩ ∈ L →
    ⟨.insertGroup group, r⟩ ∈ L → group = template.handed dto adminWallet

/-- The operation saves a new group. -/
def Op.saves : Op → Bool
  | .insertGroup _ => true
  | _ => false

/-- The request has been merged with the template that was found, and nothing has been saved. -/
structure MergedWith (dto finalDto : CreateGroupDto) (L : Log Op.Ret) : Prop where
  merged : ∀ templateId template, ⟨.findTemplate templateId, .ok (some template)⟩ ∈ L →
    finalDto = mergeTemplateConfig template dto
  unsaved : ∀ e ∈ L, e.1.saves = false

/-- Nothing has been saved. -/
theorem savesMerged_of_unsaved {dto : CreateGroupDto} {adminWallet : String} {L : Log Op.Ret}
    (h : ∀ e ∈ L, e.1.saves = false) : SavesMerged dto adminWallet L :=
  fun _ _ _ _ _ hsaved => absurd (h _ hsaved) nofun

/-- **The template** that `createGroup` finds is merged into the request. -/
theorem obeys_withTemplate (dto : CreateGroupDto) (userId : Option Uuid)
    (maintenance : Except Exc (Option MaintenanceModeConfig)) :
    Obeys (fun _ _ => True) (withTemplate dto userId) (fun finalDto _ L => MergedWith dto finalDto L)
      (fun _ _ L => ∀ e ∈ L, e.1.saves = false) () [⟨Op.getGlobalMaintenanceMode, maintenance⟩] := by
  have hplain : MergedWith dto dto [⟨Op.getGlobalMaintenanceMode, maintenance⟩] :=
    ⟨fun _ _ h => absurd (List.mem_singleton.mp h) nofun, by simp [Op.saves]⟩
  unfold withTemplate
  split
  next =>
    refine Obeys.ite (fun _ => Obeys.pure hplain) fun _ => ?_
    refine Obeys.bind (Obeys.bind (Obeys.call trivial fun r => ?_))
    cases r with
    | error e => simp [Op.saves]
    | ok found =>
    refine Obeys.bind (Obeys.valueOr (fun template hfound => ?_) fun _ => by simp [Op.saves])
    subst hfound
    refine Obeys.bind (Obeys.throwWhen (fun _ => by simp [Op.saves]) fun _ =>
      Obeys.pure (Obeys.pure ⟨fun _ _ h => ?_, by simp [Op.saves]⟩))
    rcases List.mem_cons.mp h with heq | hold
    · cases heq
      rfl
    · cases List.mem_singleton.mp hold
  next => exact Obeys.pure hplain

/-- **`createGroup` saves** what comes out of the merge. -/
theorem obeys_createGroup (allowedAssetCodes : Option String) (dto : CreateGroupDto)
    (adminWallet : String) (userId : Option Uuid) :
    Obeys (fun _ _ => True) (createGroup allowedAssetCodes dto adminWallet userId)
      (fun _ _ L => SavesMerged dto adminWallet L) (fun _ _ L => SavesMerged dto adminWallet L) () [] := by
  refine Obeys.bind (Obeys.call trivial fun maintenance => ?_)
  cases maintenance with
  | error e => exact savesMerged_of_unsaved (by simp [Op.saves])
  | ok globalMaintenance =>
  refine Obeys.bind (Obeys.throwWhen (fun _ => savesMerged_of_unsaved (by simp [Op.saves]))
    fun _ => ?_)
  refine Obeys.bind ((obeys_withTemplate dto userId _).mono (fun finalDto _ L hmerged => ?_)
    fun _ _ L hunsaved => savesMerged_of_unsaved hunsaved)
  have hunsaved : SavesMerged dto adminWallet L := savesMerged_of_unsaved hmerged.unsaved
  refine Obeys.bind (Obeys.throwWhen (fun _ => hunsaved) fun _ => ?_)
  refine Obeys.bind (Obeys.throwWhen (fun _ => hunsaved) fun _ => ?_)
  refine Obeys.bind (Obeys.throwWhen (fun _ => hunsaved) fun _ => ?_)
  have hsaved : ∀ r : Except Exc Group, SavesMerged dto adminWallet
      (⟨.insertGroup (finalDto.group (finalDto.maxMembers.or finalDto.totalRounds)
        (finalDto.assetCode.getD "XLM") adminWallet), r⟩ :: L) := by
    intro r templateId template group r' hfound hgroup
    have hfound' := (List.mem_cons.mp hfound).resolve_left nofun
    rcases List.mem_cons.mp hgroup with heq | hold
    · cases heq
      rw [hmerged.merged templateId template hfound', GroupTemplate.handed]
    · exact absurd (hmerged.unsaved _ hold) nofun
  refine Obeys.bind (Obeys.call trivial fun r => ?_)
  cases r with
  | error e => exact hsaved _
  | ok savedGroup =>
  have hcounted : ∀ templateId (r : Except Exc Unit), SavesMerged dto adminWallet
      (⟨.incrementUsageCount templateId, r⟩ :: ⟨.insertGroup (finalDto.group
        (finalDto.maxMembers.or finalDto.totalRounds) (finalDto.assetCode.getD "XLM") adminWallet),
        .ok savedGroup⟩ :: L) := fun templateId r t template group r' hfound hgroup =>
    hsaved _ t template group r' ((List.mem_cons.mp hfound).resolve_left nofun)
      ((List.mem_cons.mp hgroup).resolve_left nofun)
  refine Obeys.bind ?_
  split
  next =>
    refine Obeys.ite (fun _ => Obeys.pure (Obeys.pure (hsaved _))) fun _ => ?_
    refine Obeys.call trivial fun r => ?_
    cases r with
    | error e => exact hcounted _ _
    | ok b => exact Obeys.pure (hcounted _ _)
  next => exact Obeys.pure (Obeys.pure (hsaved _))

/-- A call of `createGroup` that has found the template saves the group. -/
def Saves (template : GroupTemplate) (dto : CreateGroupDto) (adminWallet : String) (group : NewGroup) :
    Prop :=
  ∃ allowedAssetCodes userId x L templateId r,
    Ends (fun _ => True) (createGroup allowedAssetCodes dto adminWallet userId ()) [] x L ∧
      ⟨.findTemplate templateId, .ok (some template)⟩ ∈ L ∧ ⟨.insertGroup group, r⟩ ∈ L

namespace Sample

/-- A request without a grace period, with a template. -/
def graceless : CreateGroupDto := { request with gracePeriodHours := some 0, templateId := some "t" }

/-- A public template with a grace period of two days. -/
def lenient : GroupTemplate where
  ownerId := 9
  isPublic := true
  config := { gracePeriodHours := some 48 }

end Sample

end Ahjoor.Rounds
