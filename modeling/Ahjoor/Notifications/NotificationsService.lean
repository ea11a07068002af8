import Ahjoor.Groups.Entities

/-!
# `NotificationsService.notifyBatch`

A batch of notifications is inserted in one transaction: duplicates within the batch are dropped,
then those whose key was stored in the last 24 hours, then those that the user has disabled. A key
that is the empty text is no key to the three filters, and is stored as it is.

Preferences are what `getChannelPreference` reads, from the cache or from the table.
-/

namespace Ahjoor.Notifications

inductive NotificationType
  | roundOpened | contributionReminder | paymentReminder | payoutReceived | memberJoined
  | memberLeft | memberRemoved | systemAlert | kycSubmitted | kycApproved | kycDeclined
  | adminTransferred | penaltyDisputed | penaltyResolved | memberSuspended | memberReinstated
  | groupAnnouncement | impersonationRequest | waitlistAdmitted
  deriving DecidableEq, Repr

/-- `CreateNotificationDto`. -/
structure CreateNotificationDto where
  userId : Uuid
  type : NotificationType
  title : String
  body : String
  metadata : Option (List (String × String)) := none
  idempotencyKey : Option String := none
  deriving DecidableEq, Repr

/-- `Notification`. -/
structure Notification where
  userId : Uuid
  type : NotificationType
  title : String
  body : String
  isRead : Bool := false
  metadata : List (String × String)
  idempotencyKey : Option String
  createdAt : ℤ
  deriving DecidableEq, Repr

/-! ### Preferences -/

/-- `ChannelPreference`. -/
structure ChannelPreference where
  inApp : Bool := true
  email : Bool := true
  push : Bool := true
  deriving DecidableEq, Repr

/-- `PreferencesMap`. -/
abbrev PreferencesMap := NotificationType → Option ChannelPreference

/-- `buildDefaultPreferences()`. -/
def buildDefaultPreferences : PreferencesMap := fun _ => some {}

/-- `getOrCreate(userId)`. -/
def getOrCreate (prefs : Uuid → Option PreferencesMap) (userId : Uuid) : PreferencesMap :=
  (prefs userId).getD buildDefaultPreferences

/-- `getChannelPreference(userId, type)`. -/
def getChannelPreference (prefs : Uuid → Option PreferencesMap) (userId : Uuid)
    (type : NotificationType) : ChannelPreference :=
  (getOrCreate prefs userId type).getD {}

/-! ### The filters -/

/-- `n.idempotencyKey`, where it counts as a key. -/
def CreateNotificationDto.key? (n : CreateNotificationDto) : Option String :=
  n.idempotencyKey.filter (· ≠ "")

/-- The loop of `deduplicateByKey`, after the keys in `seen`. -/
def deduplicate (seen : List String) : List CreateNotificationDto → List CreateNotificationDto
  | [] => []
  | n :: ns =>
      match n.key? with
      | none => n :: deduplicate seen ns
      | some key => if key ∈ seen then deduplicate seen ns else n :: deduplicate (key :: seen) ns

/-- `deduplicateByKey(notifications)`. -/
def deduplicateByKey (notifications : List CreateNotificationDto) : List CreateNotificationDto :=
  deduplicate [] notifications

/-- `getExistingKeys(keys)`: those that were stored after `cutoff`. -/
def getExistingKeys (stored : List Notification) (cutoff : ℤ) (keys : List String) : List String :=
  if keys.isEmpty then []
  else
    (stored.filter fun n => n.idempotencyKey.any (· ∈ keys) && decide (cutoff < n.createdAt)).filterMap
      (·.idempotencyKey)

/-! ### The table -/

/-- The row of a notification that is created at a time. -/
def CreateNotificationDto.row (createdAt : ℤ) (dto : CreateNotificationDto) : Notification where
  userId := dto.userId
  type := dto.type
  title := dto.title
  body := dto.body
  metadata := dto.metadata.getD []
  idempotencyKey := dto.idempotencyKey
  createdAt := createdAt

/-- The keys that rows have. -/
def keys (rows : List Notification) : List String := rows.filterMap (·.idempotencyKey)

/-- `save(entities)`: all rows or none, under the unique index on the keys that are not null. -/
def save (stored entities : List Notification) : Except Exc (List Notification) :=
  if (keys entities).Nodup ∧ ∀ key ∈ keys entities, key ∉ keys stored then .ok entities
  else .error (.uniqueViolation "IDX_notifications_idempotencyKey")

/-- What a call meets: the rows, the preferences, the time, and 24 hours earlier on the clock of the
server. -/
structure World where
  stored : List Notification
  prefs : Uuid → Option PreferencesMap
  now : ℤ
  cutoff : ℤ

/-- The user allows the notification in the app. -/
def World.inApp (w : World) (dto : CreateNotificationDto) : Bool :=
  (getChannelPreference w.prefs dto.userId dto.type).inApp

/-- `notifyBatch(notifications)`: the rows that are inserted. -/
def notifyBatch (w : World) (notifications : List CreateNotificationDto) :
    Except Exc (List Notification) :=
  if notifications.isEmpty then .ok []
  else
    let uniqueNotifications := deduplicateByKey notifications
    let existingKeys := getExistingKeys w.stored w.cutoff (uniqueNotifications.filterMap (·.key?))
    let toInsert := uniqueNotifications.filter fun n => n.key?.all (· ∉ existingKeys)
    if toInsert.isEmpty then .ok []
    else
      let allowed := toInsert.filter w.inApp
      if allowed.isEmpty then .ok [] else save w.stored (allowed.map (·.row w.now))

end Ahjoor.Notifications
