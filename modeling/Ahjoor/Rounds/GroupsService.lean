import Ahjoor.Async.Embedding
import Ahjoor.Members.WaitlistService
import Ahjoor.Stellar.Sdk
import Ahjoor.StellarAuth.Challenge

/-!
# Creating and updating groups

`createGroup` and `update` of `GroupsService`, beside the services on the members of a group. A
world is about the group with one key; a row that is inserted under another key is not in it. The
columns that the services on members do not use are loaded and saved with the others, so every call
has the copy of them that it has loaded last.

Templates come from the environment, and so does the maintenance mode: `createGroup` asks for it
through `this.maintenanceModeService`, which the constructor of the class does not set. What the
source only logs is left out.
-/

namespace Ahjoor.Rounds

open Async

/-! ### Rows -/

/-- The columns of a group that its creation fills and the services on members do not use. -/
structure Columns where
  contributionAmount : String
  token : String
  assetCode : String
  assetIssuer : Option String
  roundDuration : ℤ
  totalRounds : ℤ
  startDate : Option String
  endDate : Option String
  timezone : Option String
  penaltyRate : ℚ
  gracePeriodHours : ℤ
  deriving DecidableEq, Repr

/-- A row of the table of groups. -/
structure Group where
  row : Members.GroupRow
  columns : Columns
  deriving DecidableEq, Repr

/-- `GroupTemplateConfig`, which is stored as JSON. -/
structure GroupTemplateConfig where
  contributionAmount : Option String := none
  roundDuration : Option ℤ := none
  totalRounds : Option ℤ := none
  maxMembers : Option ℤ := none
  minMembers : Option ℤ := none
  assetCode : Option String := none
  assetIssuer : Option String := none
  payoutOrderStrategy : Option String := none
  penaltyRate : Option ℚ := none
  gracePeriodHours : Option ℤ := none
  timezone : Option String := none

/-- A template. -/
structure GroupTemplate where
  ownerId : Uuid
  isPublic : Bool := false
  config : GroupTemplateConfig

/-- The settings of the global maintenance mode. -/
structure MaintenanceModeConfig where
  enabled : Bool
  message : String

/-! ### Requests -/

/-- `CreateGroupDto`. -/
structure CreateGroupDto where
  name : Option String := none
  contributionAmount : Option String := none
  token : Option String := none
  assetCode : Option String := none
  assetIssuer : Option String := none
  roundDuration : Option ℤ := none
  totalRounds : Option ℤ := none
  minMembers : Option ℤ := none
  maxMembers : Option ℤ := none
  contractAddress : Option String := none
  timezone : Option String := none
  startDate : Option String := none
  endDate : Option String := none
  payoutOrderStrategy : Option String := none
  penaltyRate : Option ℚ := none
  gracePeriodHours : Option ℤ := none
  templateId : Option String := none

/-- What the validation pipe requires of the numbers of rounds and members: `totalRounds` and
`minMembers` are given, and none is below one. -/
def CreateGroupDto.isValid (dto : CreateGroupDto) : Bool :=
  dto.totalRounds.any (1 ≤ ·) && dto.minMembers.any (1 ≤ ·) && dto.maxMembers.all (1 ≤ ·)

/-- `UpdateGroupDto`. -/
structure UpdateGroupDto where
  name : Option String := none
  adminWallet : Option String := none
  contributionAmount : Option String := none
  token : Option String := none
  roundDuration : Option ℤ := none
  totalRounds : Option ℤ := none
  contractAddress : Option String := none

/-- `Object.assign(group, updateGroupDto)` on the columns that the services on members use. -/
def UpdateGroupDto.assignRow (dto : UpdateGroupDto) (group : Members.GroupRow) : Members.GroupRow :=
  { group with
    name := dto.name.getD group.name
    adminWallet := dto.adminWallet.getD group.adminWallet
    contractAddress := dto.contractAddress.or group.contractAddress }

/-- `Object.assign(group, updateGroupDto)` on the other columns. -/
def UpdateGroupDto.assignColumns (dto : UpdateGroupDto) (columns : Columns) : Columns :=
  { columns with
    contributionAmount := dto.contributionAmount.getD columns.contributionAmount
    token := dto.token.getD columns.token
    roundDuration := dto.roundDuration.getD columns.roundDuration
    totalRounds := dto.totalRounds.getD columns.totalRounds }

/-- What `createGroup` hands to `save`. -/
structure NewGroup where
  name : Option String
  contractAddress : Option String
  adminWallet : String
  contributionAmount : Option String
  token : Option String
  assetCode : String
  assetIssuer : Option String
  roundDuration : Option ℤ
  status : GroupStatus
  currentRound : ℤ
  totalRounds : Option ℤ
  payoutOrderStrategy : String
  minMembers : Option ℤ
  maxMembers : Option ℤ
  startDate : Option String
  endDate : Option String
  timezone : Option String
  penaltyRate : ℚ
  gracePeriodHours : ℤ

/-- The member of the enumeration with a text. -/
def payoutOrderStrategyOf : String → Option Members.PayoutOrderStrategy
  | "SEQUENTIAL" => some .sequential
  | "RANDOM" => some .random
  | "ADMIN_DEFINED" => some .adminDefined
  | _ => none

/-- The row that the database stores, if no required column is missing. -/
def NewGroup.stored (group : NewGroup) (id : Uuid) : Option Group := do
  let name ← group.name
  let contributionAmount ← group.contributionAmount
  let token ← group.token
  let roundDuration ← group.roundDuration
  let totalRounds ← group.totalRounds
  let payoutOrderStrategy ← payoutOrderStrategyOf group.payoutOrderStrategy
  let minMembers ← group.minMembers
  let maxMembers ← group.maxMembers
  some {
    row := {
      id, name
      contractAddress := group.contractAddress
      adminWallet := group.adminWallet
      status := group.status
      currentRound := group.currentRound
      payoutOrderStrategy, minMembers, maxMembers }
    columns := {
      contributionAmount, token
      assetCode := group.assetCode
      assetIssuer := group.assetIssuer
      roundDuration, totalRounds
      startDate := group.startDate
      endDate := group.endDate
      timezone := some (group.timezone.getD "UTC")
      penaltyRate := group.penaltyRate
      gracePeriodHours := group.gracePeriodHours } }

/-! ### The world -/

/-- The members of the group with the key `groupId`, the columns that the services on members do
not use, and the copy of them that each call has loaded last. -/
structure World where
  groupId : Uuid
  members : Members.World
  columns : Option Columns := none
  loaded : ℕ → Option Columns := fun _ => none

/-- A world in which the group has not been created. -/
def blank (groupId : Uuid) : World where
  groupId
  members := Members.started { group := none }

/-- An awaited operation. -/
inductive Op
  /-- an operation on the group and its members -/
  | members (o : Members.Op)
  | getGlobalMaintenanceMode
  | findTemplate (templateId : String)
  /-- `save` of a group that has just been created -/
  | insertGroup (group : NewGroup)
  | incrementUsageCount (templateId : String)
  /-- `save` of a loaded group to which a request has been assigned -/
  | saveUpdated (group : Members.GroupRow) (dto : UpdateGroupDto)

/-- What an operation returns. -/
def Op.Ret : Op → Type
  | members o => o.Ret
  | getGlobalMaintenanceMode => Except Exc (Option MaintenanceModeConfig)
  | findTemplate _ => Except Exc (Option GroupTemplate)
  | insertGroup _ => Except Exc Group
  | incrementUsageCount _ | saveUpdated _ _ => Except Exc Unit

/-- What the environment decides about one operation. -/
inductive Choice
  | members (choice : Members.Choice)
  | maintenance (config : Option MaintenanceModeConfig)
  | template (found : Option GroupTemplate)
  /-- the row is inserted under a key; its reply may be lost -/
  | inserted (id : Uuid)
  | insertedLost (id : Uuid) (message : String)

namespace World

/-- A call loads the group. -/
def load (w : World) (pid : ℕ) : World :=
  { w with loaded := Function.update w.loaded pid w.columns }

/-- A call saves the columns that it has loaded, after a change. -/
def store (w : World) (pid : ℕ) (change : Columns → Columns) : Members.Choice → World
  | .done | .lost _ => { w with columns := ((w.loaded pid).or w.columns).map change }
  | _ => w

/-- What an operation on the group and its members does to the other columns. -/
def settle (w : World) (pid : ℕ) : Members.Op → Members.Choice → World
  | .db .findGroup, .done | .db .findGroupWithMembers, .done | .lockGroup, .done => w.load pid
  | .db (.write (.saveGroup _)), choice => w.store pid id choice
  | _, _ => w

/-- The group is created. -/
def create (w : World) (group : Group) : World :=
  { w with
    members := { w.members with tables := { w.members.tables with group := some group.row } }
    columns := some group.columns }

/-- A row is inserted under a key, which is a new one. -/
def insert (w : World) (group : NewGroup) (id : Uuid) : Option (Group × World) :=
  (group.stored id).bind fun g =>
    if id = w.groupId then
      if w.members.tables.group.isNone then some (g, w.create g) else none
    else some (g, w)

end World

/-- What an operation of call `pid` does. -/
def exec (missing : Members.OnMissing) : (o : Op) → ℕ → Choice → World → Option (o.Ret × World)
  | .members o, pid, .members choice, w =>
      (Members.exec missing o pid choice w.members).map fun x =>
        (x.1, { w.settle pid o choice with members := x.2 })
  | .getGlobalMaintenanceMode, _, .maintenance config, w => some (.ok config, w)
  | .getGlobalMaintenanceMode, _, .members (.fails msg), w => some (.error (.error msg), w)
  | .findTemplate _, _, .template found, w => some (.ok found, w)
  | .findTemplate _, _, .members (.fails msg), w => some (.error (.error msg), w)
  | .insertGroup group, _, .inserted id, w => (w.insert group id).map fun x => (.ok x.1, x.2)
  | .insertGroup group, _, .insertedLost id msg, w =>
      (w.insert group id).map fun x => (.error (.error msg), x.2)
  | .insertGroup _, _, .members (.fails msg), w => some (.error (.error msg), w)
  | .incrementUsageCount _, _, .members .done, w => some (.ok (), w)
  | .incrementUsageCount _, _, .members (.fails msg), w => some (.error (.error msg), w)
  | .saveUpdated group dto, pid, .members choice, w =>
      (Members.exec missing (.db (.write (.saveGroup group))) pid choice w.members).map fun x =>
        (x.1, { w.store pid dto.assignColumns choice with members := x.2 })
  | _, _, _, _ => none

/-! ### Templates -/

/-- The body of an asynchronous method. -/
abbrev Service (α : Type) := Routine Op.Ret Unit Exc α

/-- A part of a body that is concerned with the group and its members only. -/
def onMembers {α : Type} (m : Members.Service α) : Service α :=
  Routine.via Op.members (fun _ r => r) m

/-- `!value`, where `zero` is the falsy value of the type. -/
def falsy {α : Type} [DecidableEq α] (zero : α) (value : Option α) : Bool := value.all (· = zero)

/-- `if (!value) merged = fallback`. -/
def orElse {α : Type} [DecidableEq α] (zero : α) (value fallback : Option α) : Option α :=
  if falsy zero value then fallback else value

/-- `if (!value && fallback) merged = fallback`. -/
def orSet {α : Type} [DecidableEq α] (zero : α) (value fallback : Option α) : Option α :=
  if falsy zero value && !falsy zero fallback then fallback else value

/-- `mergeTemplateConfig(template, createGroupDto)`. -/
def mergeTemplateConfig (template : GroupTemplate) (dto : CreateGroupDto) : CreateGroupDto :=
  { dto with
    contributionAmount := orElse "" dto.contributionAmount template.config.contributionAmount
    roundDuration := orElse 0 dto.roundDuration template.config.roundDuration
    totalRounds := orElse 0 dto.totalRounds template.config.totalRounds
    maxMembers := orElse 0 dto.maxMembers template.config.maxMembers
    minMembers := orElse 0 dto.minMembers template.config.minMembers
    assetCode := orSet "" dto.assetCode template.config.assetCode
    assetIssuer := orSet "" dto.assetIssuer template.config.assetIssuer
    payoutOrderStrategy := orSet "" dto.payoutOrderStrategy template.config.payoutOrderStrategy
    penaltyRate := orSet 0 dto.penaltyRate template.config.penaltyRate
    gracePeriodHours := orSet 0 dto.gracePeriodHours template.config.gracePeriodHours
    timezone := orSet "" dto.timezone template.config.timezone }

/-- `findTemplateById(templateId, userId)`. -/
def findTemplateById (templateId : String) (userId : Uuid) : Service GroupTemplate := do
  let found ← Routine.call (.findTemplate templateId) fun r => r
  let template ← Routine.valueOr found (notFound s!"Template {templateId} not found")
  Routine.throwWhen (template.ownerId ≠ userId ∧ !template.isPublic)
    (forbidden "You do not have permission to view this template")
  pure template

/-- The request with the defaults of its template, if it names one. -/
def withTemplate (dto : CreateGroupDto) (userId : Option Uuid) : Service CreateGroupDto :=
  match dto.templateId, userId with
  | some templateId, some userId =>
      if templateId = "" then pure dto
      else do
        let template ← findTemplateById templateId userId
        pure (mergeTemplateConfig template dto)
  | _, _ => pure dto

/-! ### Creation -/

/-- `ALLOWED_ASSET_CODES`, in upper case. -/
def allowedCodes (allowedRaw : String) : List String :=
  (allowedRaw.toList.splitOn ',').map fun c => upperCase (String.ofList (StellarAuth.trim c))

/-- `a > b`; a comparison with an absent number is false. -/
def exceeds : Option ℤ → Option ℤ → Bool
  | some a, some b => b < a
  | _, _ => false

/-- What `createGroup` hands to `save`. -/
def CreateGroupDto.group (dto : CreateGroupDto) (maxMembers : Option ℤ)
    (assetCode adminWallet : String) : NewGroup where
  name := dto.name
  contractAddress := dto.contractAddress
  adminWallet
  contributionAmount := dto.contributionAmount
  token := dto.token
  assetCode := upperCase assetCode
  assetIssuer := if upperCase assetCode = "XLM" then none else dto.assetIssuer
  roundDuration := dto.roundDuration
  status := .pending
  currentRound := 0
  totalRounds := dto.totalRounds
  payoutOrderStrategy :=
    if falsy "" dto.payoutOrderStrategy then "SEQUENTIAL"
    else dto.payoutOrderStrategy.getD "SEQUENTIAL"
  minMembers := dto.minMembers
  maxMembers
  startDate := dto.startDate
  endDate := dto.endDate
  timezone := dto.timezone
  penaltyRate := dto.penaltyRate.getD (5 / 100)
  gracePeriodHours := dto.gracePeriodHours.getD 24

/-- `createGroup(createGroupDto, adminWallet, userId)`. -/
def createGroup (allowedAssetCodes : Option String) (createGroupDto : CreateGroupDto)
    (adminWallet : String) (userId : Option Uuid) : Service Group := do
  let globalMaintenance ← Routine.call .getGlobalMaintenanceMode fun r => r
  Routine.throwWhen (globalMaintenance.any (·.enabled))
    (.http 503 (globalMaintenance.elim "" (·.message)))
  let finalDto ← withTemplate createGroupDto userId
  let maxMembers := finalDto.maxMembers.or finalDto.totalRounds
  Routine.throwWhen (maxMembers ≠ finalDto.totalRounds)
    (badRequest "maxMembers must equal totalRounds")
  Routine.throwWhen (exceeds finalDto.minMembers maxMembers)
    (badRequest "minMembers must be less than or equal to maxMembers")
  let assetCode := finalDto.assetCode.getD "XLM"
  let codes := allowedCodes (allowedAssetCodes.getD "XLM,USDC")
  let allowed := ", ".intercalate codes
  Routine.throwWhen (!codes.contains (upperCase assetCode))
    (badRequest s!"Asset code \"{assetCode}\" is not supported. Allowed: {allowed}")
  let savedGroup ← Routine.call (.insertGroup (finalDto.group maxMembers assetCode adminWallet))
    fun r => r
  (match createGroupDto.templateId with
  | some templateId =>
      if templateId = "" then pure ()
      else Routine.call (.incrementUsageCount templateId) fun r => r
  | none => pure ())
  pure savedGroup

/-! ### Updates -/

/-- The status as the source prints it. -/
def statusText : GroupStatus → String
  | .pending => "PENDING"
  | .active => "ACTIVE"
  | .completed => "COMPLETED"

/-- `update(id, updateGroupDto, requestingAdminWallet)`. -/
def update (id : Uuid) (dto : UpdateGroupDto) (requestingAdminWallet : String) : Service Unit := do
  let found ← onMembers (Members.db .findGroup)
  let group ← Routine.valueOr found (notFound s!"Group with id {id} not found")
  Routine.throwWhen (group.adminWallet ≠ requestingAdminWallet)
    (forbidden "Only the group admin can update this group")
  Routine.throwWhen (group.status ≠ .pending)
    (badRequest s!"Cannot update group metadata after it becomes {statusText group.status}. Only PENDING groups can be updated.")
  Routine.call (.saveUpdated (dto.assignRow group) dto) fun r => r

/-! ### The system -/

/-- The calls that create, update, fill and activate a group. -/
inductive Call
  | members (c : { c : Members.Call // c.seats = true })
  | createGroup (dto : { dto : CreateGroupDto // dto.isValid = true }) (adminWallet : String)
      (userId : Option Uuid)
  | update (dto : UpdateGroupDto) (requestingAdminWallet : String)

/-- What a call returns. -/
inductive Reply
  | members (r : Members.Reply)
  | created (group : Group)
  | updated
  deriving DecidableEq

/-- The body of a call. -/
def Call.body (allowedAssetCodes : Option String) (maxWaitlist : ℤ) (groupId : Uuid) :
    Call → Service Reply
  | members c => do
      let r ← onMembers (c.1.body maxWaitlist)
      pure (.members r)
  | createGroup dto adminWallet userId => do
      let group ← Rounds.createGroup allowedAssetCodes dto.1 adminWallet userId
      pure (.created group)
  | update dto requestingAdminWallet => do
      Rounds.update groupId dto requestingAdminWallet
      pure .updated

/-- The calls on the group with the key `groupId`. -/
def system (missing : Members.OnMissing) (allowedAssetCodes : Option String) (maxWaitlist : ℤ)
    (groupId : Uuid) : System Op.Ret Choice World Call (Except Exc Reply) where
  exec := exec missing
  body c := (c.body allowedAssetCodes maxWaitlist groupId ()).bind fun x => .ret x.1

/-- The state of a run. -/
abbrev RoundsState := State Op.Ret World Call (Except Exc Reply)

/-- A history of a run. -/
abbrev RoundsHist := Hist Op.Ret World Call (Except Exc Reply)

end Ahjoor.Rounds
