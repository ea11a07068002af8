import Ahjoor.Common.Date
import Ahjoor.Json.Tree
import Ahjoor.Store.OrderedMap

/-!
# `WebhookService`

The data of an event is any value that a service passes: beside what JSON has, `undefined` and dates.
`JSON.stringify` leaves undefined members out, writes `null` for undefined elements and the text of
`toISOString` for a date; `stableSerialize`, from which the id of an event is computed, writes what
it finds. The queue passes a payload on as JSON.

The rows of `webhook_deliveries` have a unique index on the webhook and the event, and are kept under
both. SHA-256 and the HMAC, as hexadecimal digits, are parameters, and so is what the endpoint
answers.
-/

namespace Ahjoor.Webhooks

open Json Store

/-! ### Data -/

/-- What is neither an array nor a plain object. -/
inductive Scalar
  | undefined
  | null
  | bool (b : Bool)
  | num (n : Number)
  | str (s : String)
  | date (ms : ℤ)

/-- The data of an event. -/
abbrev Data : Type := Json.Tree Scalar

/-- What JSON has for a scalar. -/
def Scalar.toJson : Scalar → Option Value
  | undefined => none
  | null => some .null
  | bool b => some (.bool b)
  | num n => some (.num n)
  | str s => some (.str s)
  | date ms => some (.str (toISOString ms))

mutual

/-- What is delivered of the data: the value that `JSON.stringify` writes. -/
def toJson : Data → Option Value
  | .leaf s => s.toJson
  | .arr xs => some (.arr (toJsonAll xs))
  | .obj members => some (.obj (toJsonMembers members))
termination_by structural data => data

def toJsonAll : List Data → List Value
  | [] => []
  | data :: rest => (toJson data).getD .null :: toJsonAll rest
termination_by structural datas => datas

def toJsonMember : String × Data → Option (String × Value)
  | (key, data) => (toJson data).map fun value => (key, value)
termination_by structural member => member

def toJsonMembers : List (String × Data) → List (String × Value)
  | [] => []
  | member :: members => (toJsonMember member).toList ++ toJsonMembers members
termination_by structural members => members

end

mutual

/-- `stableSerialize(value)`: nothing for `undefined`, as from `JSON.stringify`. A date is an object
without keys of its own. -/
def stableSerialize : Data → Option (List Char)
  | .leaf (.date _) => some ['{', '}']
  | .leaf s => s.toJson.map print
  | .arr xs => some ('[' :: join (stableSerializeAll xs) ++ [']'])
  | .obj members =>
      some ('{' :: join ((sortByKey (stableSerializeMembers members)).map fun (key, text) =>
        quote key.toList ++ ':' :: text) ++ ['}'])
termination_by structural data => data

/-- The elements, of which `join` leaves the undefined ones blank. -/
def stableSerializeAll : List Data → List (List Char)
  | [] => []
  | data :: rest => (stableSerialize data).getD [] :: stableSerializeAll rest
termination_by structural datas => datas

/-- A member, with what a template has for `undefined`. -/
def stableSerializeMember : String × Data → String × List Char
  | (key, data) => (key, (stableSerialize data).getD ['u', 'n', 'd', 'e', 'f', 'i', 'n', 'e', 'd'])
termination_by structural member => member

def stableSerializeMembers : List (String × Data) → List (String × List Char)
  | [] => []
  | member :: members => stableSerializeMember member :: stableSerializeMembers members
termination_by structural members => members

end

/-! ### Events -/

/-- `WebhookEventType`. -/
inductive WebhookEventType
  | roundCompleted
  | payoutSent
  | contributionConfirmed
  | kycApproved
  | memberJoined
  | balanceAlertLow
  | balanceAlertRecovered
  | dailyFeeExceeded
  | groupCompleted
  | groupActivated
  | groupArchived
  deriving DecidableEq, Repr

/-- The text of an event type. -/
def WebhookEventType.text : WebhookEventType → String
  | roundCompleted => "ROUND_COMPLETED"
  | payoutSent => "PAYOUT_SENT"
  | contributionConfirmed => "CONTRIBUTION_CONFIRMED"
  | kycApproved => "KYC_APPROVED"
  | memberJoined => "MEMBER_JOINED"
  | balanceAlertLow => "BALANCE_ALERT_LOW"
  | balanceAlertRecovered => "BALANCE_ALERT_RECOVERED"
  | dailyFeeExceeded => "DAILY_FEE_EXCEEDED"
  | groupCompleted => "GROUP_COMPLETED"
  | groupActivated => "GROUP_ACTIVATED"
  | groupArchived => "GROUP_ARCHIVED"

/-- `createEventId(event, data)`. -/
def createEventId (sha256 : String → String) (event : WebhookEventType) (data : Data) : String :=
  sha256 (event.text ++ ":" ++ String.ofList
    ((stableSerialize data).getD ['u', 'n', 'd', 'e', 'f', 'i', 'n', 'e', 'd']))

/-! ### Dispatch -/

/-- `Webhook`, as far as it is used. -/
structure Webhook where
  id : String
  url : String
  secret : String
  eventTypes : List String
  isActive : Bool

/-- `WebhookPayload`, as it comes out of the queue. -/
structure WebhookPayload where
  event : String
  eventId : String
  timestamp : String
  data : Option Value

/-- `WebhookDeliveryJobData`, without the number of the attempt. -/
structure WebhookDeliveryJobData where
  webhookId : String
  url : String
  secret : String
  payload : WebhookPayload

/-- The jobs that `dispatchEvent(event, data, eventId)` adds to the queue. -/
def dispatchEvent (sha256 : String → String) (now : ℤ) (webhooks : List Webhook)
    (event : WebhookEventType) (data : Data) (eventId : Option String) :
    List WebhookDeliveryJobData :=
  let relevant := webhooks.filter fun w => w.isActive && w.eventTypes.contains event.text
  relevant.map fun w =>
    { webhookId := w.id
      url := w.url
      secret := w.secret
      payload :=
        { event := event.text
          eventId := eventId.getD (createEventId sha256 event data)
          timestamp := toISOString now
          data := toJson data } }

/-- `ContributionVerifiedPayload`. -/
structure ContributionVerifiedPayload where
  contributionId : String
  groupId : String
  userId : String
  walletAddress : String
  amount : String
  roundNumber : ℤ
  transactionHash : String
  timestamp : ℤ

/-- The data of a confirmed contribution. -/
def ContributionVerifiedPayload.data (payload : ContributionVerifiedPayload) : Data :=
  .obj [("contributionId", .leaf (.str payload.contributionId)),
    ("groupId", .leaf (.str payload.groupId)),
    ("userId", .leaf (.str payload.userId)),
    ("walletAddress", .leaf (.str payload.walletAddress)),
    ("amount", .leaf (.str payload.amount)),
    ("roundNumber", .leaf (.num (.ofInt payload.roundNumber))),
    ("transactionHash", .leaf (.str payload.transactionHash)),
    ("timestamp", .leaf (.date payload.timestamp))]

/-- `notifyContributionVerified(contribution)`. -/
def notifyContributionVerified (sha256 : String → String) (now : ℤ) (webhooks : List Webhook)
    (contribution : ContributionVerifiedPayload) : List WebhookDeliveryJobData :=
  dispatchEvent sha256 now webhooks .contributionConfirmed contribution.data none

/-! ### Delivery -/

/-- `WebhookDeliveryStatus`. -/
inductive WebhookDeliveryStatus
  | success
  | failed
  | pending
  deriving DecidableEq, Repr

/-- `WebhookDelivery`, beside the webhook and the event it is kept under. -/
structure WebhookDelivery where
  status : WebhookDeliveryStatus
  responseCode : Option ℕ
  responseBody : Option String
  payload : String
  attemptNumber : ℕ

/-- The deliveries, by webhook and event. -/
abbrev Deliveries : Type := OrderedMap (String × String) WebhookDelivery

/-- What comes of a request: an answer with its body as JSON, or an error. -/
inductive Response
  | answered (status : ℕ) (data : String)
  | failed (message : String)

/-- A request that is sent. -/
structure Post where
  url : String
  body : String
  signature : String
  eventId : String

/-- What `deliverWebhook` returns. -/
structure DeliveryResult where
  statusCode : ℕ
  responseBody : String

/-- What `deliverWebhook` does: the request it sends, what it returns or throws, and the deliveries it
leaves. -/
structure Delivered where
  post : Option Post
  result : Except String DeliveryResult
  deliveries : Deliveries

/-- `JSON.stringify(deliveryPayload)`. -/
def WebhookPayload.stringify (payload : WebhookPayload) : String :=
  Json.stringify (.obj ([("event", .str payload.event), ("event_id", .str payload.eventId),
    ("timestamp", .str payload.timestamp)] ++ (payload.data.map fun data => ("data", data)).toList))

/-- `text.slice(0, 1024)`. -/
def sliced (text : String) : String := String.ofList (text.toList.take 1024)

/-- What `deliverWebhook` does once the row of the delivery has been saved as pending. -/
def send (key : String × String) (row : WebhookDelivery) (post : Post) (response : Response)
    (deliveries : Deliveries) : Delivered :=
  let failed (row : WebhookDelivery) (message : String) : Delivered :=
    { post
      result := .error message
      deliveries := deliveries.set key
        { row with status := .failed, responseBody := some (sliced message) } }
  match response with
  | .failed message => failed row message
  | .answered status data =>
      let answered := { row with
        status := if status < 300 then .success else .failed
        responseCode := some status
        responseBody := some (sliced data) }
      if 500 ≤ status then failed answered ("Endpoint returned " ++ toString status)
      else
        { post
          result := .ok ⟨status, sliced data⟩
          deliveries := deliveries.set key answered }

/-- `deliverWebhook(url, secret, payload, webhookId, attemptNumber)`. -/
def deliverWebhook (hmac : String → String → String) (job : WebhookDeliveryJobData)
    (attemptNumber : ℕ) (response : Response) (deliveries : Deliveries) : Delivered :=
  let payloadString := job.payload.stringify
  let key := (job.webhookId, job.payload.eventId)
  let found := deliveries.get key
  match found.filter fun row => row.status = .success with
  | some row =>
      { post := none
        result := .ok ⟨row.responseCode.getD 200, row.responseBody.getD ""⟩
        deliveries }
  | none =>
      send key
        { status := .pending
          responseCode := found.bind (·.responseCode)
          responseBody := found.bind (·.responseBody)
          payload := payloadString
          attemptNumber }
        { url := job.url
          body := payloadString
          signature := "sha256=" ++ hmac job.secret payloadString
          eventId := job.payload.eventId }
        response deliveries

section Delivery

variable {hmac : String → String → String} {job : WebhookDeliveryJobData} {attemptNumber : ℕ}
  {response : Response} {deliveries : Deliveries} {key : String × String}

theorem post_send {row : WebhookDelivery} {post : Post} :
    (send key row post response deliveries).post = some post := by
  unfold send
  cases response with
  | failed message => rfl
  | answered status data =>
    dsimp only
    split <;> rfl

theorem get_send_of_ne {row : WebhookDelivery} {post : Post} {key' : String × String}
    (hne : key' ≠ key) :
    (send key row post response deliveries).deliveries.get key' = deliveries.get key' := by
  unfold send
  cases response with
  | failed message => exact OrderedMap.get_set_of_ne hne
  | answered status data =>
    dsimp only
    split <;> exact OrderedMap.get_set_of_ne hne

/-- **When a request is sent**: unless the event has been delivered to the webhook with success. -/
theorem isSome_post_iff :
    (deliverWebhook hmac job attemptNumber response deliveries).post.isSome ↔
      ∀ row, deliveries.get (job.webhookId, job.payload.eventId) = some row → row.status ≠ .success := by
  rw [deliverWebhook]
  split
  next row hfound =>
    obtain ⟨hget, hsuccess⟩ := Option.filter_eq_some_iff.mp hfound
    exact iff_of_false (by simp) fun h => h row hget (of_decide_eq_true hsuccess)
  next hnone =>
    rw [post_send]
    refine iff_of_true rfl fun row hget hsuccess => ?_
    rw [hget, Option.filter_some, if_pos (decide_eq_true hsuccess)] at hnone
    cases hnone

/-- An event that has been delivered to the webhook with success is not sent again. -/
theorem isNone_post_of_get {row : WebhookDelivery}
    (hget : deliveries.get (job.webhookId, job.payload.eventId) = some row)
    (hsuccess : row.status = .success) :
    (deliverWebhook hmac job attemptNumber response deliveries).post.isNone := by
  rw [← Option.not_isSome, Bool.not_eq_true', ← Bool.not_eq_true, isSome_post_iff]
  exact fun h => h row hget hsuccess

/-- **A delivery concerns its own webhook and event alone.** -/
theorem get_deliverWebhook_of_ne (hne : key ≠ (job.webhookId, job.payload.eventId)) :
    (deliverWebhook hmac job attemptNumber response deliveries).deliveries.get key =
      deliveries.get key := by
  rw [deliverWebhook]
  split
  · rfl
  · exact get_send_of_ne hne

/-- The jobs of an event without an explicit id. -/
theorem eventId_of_mem_dispatchEvent {sha256 : String → String} {now : ℤ} {webhooks : List Webhook}
    {event : WebhookEventType} {data : Data}
    (h : job ∈ dispatchEvent sha256 now webhooks event data none) :
    job.payload.eventId = createEventId sha256 event data := by
  obtain ⟨w, -, rfl⟩ := List.mem_map.mp h
  rfl

end Delivery

end Ahjoor.Webhooks
