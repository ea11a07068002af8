import Ahjoor.Async.Sequential
import Ahjoor.Async.Discipline
import Ahjoor.Kyc.Documents

/-!
# `KycService`, `KycProviderOrchestrator` and `KycWebhookService`

A user uploads documents. A document goes into the case that is in flight for the user, if there is
one, and else to the primary provider, or the secondary one when that fails. Callbacks of the
providers set the status of a document and of the user.

A callback comes in as what the parser of its provider makes of the body. The hash is a parameter.
-/

namespace Ahjoor.Kyc

open Async Store

/-- The configuration, with its defaults. -/
structure Config where
  /-- `KYC_PROVIDER` -/
  provider : KycProvider := .persona
  /-- `KYC_SECONDARY_PROVIDER` -/
  secondary : Option KycProvider := none
  /-- `KYC_PROVIDER_SUBMIT_TIMEOUT_MS` -/
  timeoutMs : ℕ := 8000
  /-- `KYC_CASE_REUSE_WINDOW_HOURS` -/
  reuseWindowHours : ℤ := 24
  /-- SHA-256 in hexadecimal -/
  sha256 : Buffer → String

/-- The body of an asynchronous method. -/
abbrev Service (α : Type) := Routine Op.Ret Unit Exc α

/-- Await an operation that may fail. -/
def await (o : Op) : Service o.Val := Routine.call o fun r => r

variable (cfg : Config)

/-! ### `KycProviderOrchestrator` -/

/-- `reuseCase(user, newDoc, existing)`. -/
def reuseCase (user : User) (newDoc existing : KycDocument) : Service KycDocument := do
  let newDoc := { newDoc with
    provider := existing.provider
    providerCaseId := existing.providerCaseId
    providerStatus := existing.providerStatus
    status := .pending
    submittedAt := existing.submittedAt
    caseExpiresAt := existing.caseExpiresAt
    lastProviderEventAt := existing.lastProviderEventAt }
  await (.saveSubmission newDoc)
  await (.createLog user.id "KYC_PROVIDER_CASE_REUSED" newDoc.id)
  pure newDoc

/-- `trySubmit(provider, params, timeoutMs, userId)`. -/
def trySubmit (provider : KycProvider) (params : SubmitVerificationParams) (userId : Uuid) :
    Service (Option ProviderSubmissionResult) :=
  tryCatch (do
    let result ← await (.submitVerification provider params cfg.timeoutMs)
    pure (some result))
  fun _ => do
    await (.createLog userId "KYC_PROVIDER_SUBMIT_FAILED" none)
    pure none

/-- `persistSubmission(doc, provider, …)`. -/
def persistSubmission (doc : KycDocument) (provider : KycProvider)
    (result : ProviderSubmissionResult) (auditAction : String) : Service KycDocument := do
  let now ← await .dateNow
  let doc := { doc with
    provider := some provider
    providerCaseId := some result.providerCaseId
    providerStatus := some result.providerStatus
    status := .pending
    submittedAt := some now
    lastProviderEventAt := some now
    caseExpiresAt := some (now + cfg.reuseWindowHours * 60 * 60 * 1000) }
  await (.saveSubmission doc)
  await (.createLog doc.userId auditAction doc.id)
  pure doc

/-- `submitFresh`, after both providers have failed. -/
def flagForReview (user : User) (newDoc : KycDocument) : Service KycDocument := do
  let now ← await .dateNow
  let newDoc := { newDoc with status := .needsReview, lastProviderEventAt := some now }
  await (.saveUnsubmitted newDoc)
  await (.createLog user.id "KYC_ALL_PROVIDERS_FAILED" newDoc.id)
  pure newDoc

/-- `submitFresh(user, newDoc)`. -/
def submitFresh (user : User) (newDoc : KycDocument) : Service KycDocument := do
  let params : SubmitVerificationParams :=
    ⟨user.id, newDoc.id, newDoc.url, newDoc.documentSetHash.getD ""⟩
  let primaryResult ← trySubmit cfg cfg.provider params user.id
  match primaryResult with
  | some result => persistSubmission cfg newDoc cfg.provider result "KYC_PROVIDER_SUBMITTED"
  | none =>
    match cfg.secondary.filter (· ≠ cfg.provider) with
    | none => flagForReview user newDoc
    | some secondary => do
      let secondaryResult ← trySubmit cfg secondary params user.id
      match secondaryResult with
      | some result => persistSubmission cfg newDoc secondary result "KYC_PROVIDER_FAILOVER"
      | none => flagForReview user newDoc

/-- `submitOrReuse(user, newDoc, fileBuffer)`. -/
def submitOrReuse (user : User) (newDoc : KycDocument) (fileBuffer : Buffer) :
    Service KycDocument := do
  let newDoc := { newDoc with documentSetHash := some (cfg.sha256 fileBuffer) }
  let now ← await .dateNow
  let reusable ← await (.findReusableDoc user.id newDoc.id now)
  match reusable with
  | some existing => reuseCase user newDoc existing
  | none => submitFresh cfg user newDoc

/-! ### `KycService` -/

/-- `uploadDocument(userId, file)`. -/
def uploadDocument (userId : Uuid) (file : Buffer) : Service KycDocument := do
  await (.validateFile file)
  let found ← await (.findUser userId)
  let user ← Routine.valueOr found (notFound "User not found")
  let url ← await (.storeFile userId file)
  let uploadedAt ← await .dateNow
  let doc : KycDocument := { userId, url, uploadedAt }
  let id ← await (.insertDoc doc)
  let orchestrated ← submitOrReuse cfg user { doc with id } file
  await (.updateKycStatus userId orchestrated.status)
  await (.notify userId .kycSubmitted none)
  pure orchestrated

/-! ### `KycWebhookService` -/

/-- `ParsedWebhookPayload`; of `raw` only the text of `raw['status']`, if there is one. -/
structure ParsedWebhookPayload where
  userId : Uuid
  providerCaseId : String
  status : KycStatus
  rawStatus : Option String := none
  deriving DecidableEq

/-- The document as the callback leaves it. -/
def ParsedWebhookPayload.applyTo (parsed : ParsedWebhookPayload) (resolvedProvider : KycProvider)
    (now : ℤ) (doc : KycDocument) : KycDocument :=
  { doc with
    status := parsed.status
    provider := doc.provider.getD resolvedProvider
    providerCaseId := doc.providerCaseId.getD parsed.providerCaseId
    providerStatus := (parsed.rawStatus.or doc.providerStatus).getD ""
    lastProviderEventAt := now
    stuckFlaggedAt := none }

/-- `sendKycEmail(user, status)`. -/
def sendKycEmail (user : User) (status : KycStatus) : Service Unit :=
  match user.email.filter (· ≠ "") with
  | none => pure ()
  | some email =>
    await (.notify user.id (if status = .approved then .kycApproved else .kycDeclined) (some email))

/-- The document that a callback is about: the newest of its case, or else **the newest of the
user**. -/
def findDocument (parsed : ParsedWebhookPayload) : Service (Option KycDocument) := do
  let doc ← await (.findDocOfCase parsed.userId parsed.providerCaseId)
  match doc with
  | some doc => pure (some doc)
  | none => await (.findLatestDoc parsed.userId)

/-- `processWebhook(rawBody, provider)`, with the body parsed. -/
def processWebhook (provider : Option KycProvider) (parsed : ParsedWebhookPayload) :
    Service Unit := do
  let found ← await (.findUser parsed.userId)
  let user ← Routine.valueOr found (notFound s!"User {parsed.userId} not found")
  let resolvedProvider := provider.getD cfg.provider
  let found ← findDocument parsed
  let doc ← Routine.valueOr found (notFound s!"No KYC document found for user {parsed.userId}")
  let now ← await .dateNow
  await (.saveDoc (parsed.applyTo resolvedProvider now doc))
  let user := { user with kycStatus := some parsed.status }
  await (.saveUser user)
  await (.createLog parsed.userId "KYC_STATUS_UPDATED" doc.id)
  if parsed.status.isFinal then
    sendKycEmail user parsed.status

/-! ### The system -/

/-- A request. -/
inductive Call
  | upload (userId : Uuid) (file : Buffer)
  | callback (provider : Option KycProvider) (parsed : ParsedWebhookPayload)
  deriving DecidableEq

/-- The user whom a request is about. -/
def Call.userId : Call → Uuid
  | upload userId _ => userId
  | callback _ parsed => parsed.userId

/-- Uploads and callbacks; an upload answers with the document. -/
def system : System Op.Ret Choice World Call (Except Exc (Option KycDocument)) where
  exec := exec
  body
    | .upload userId file => (uploadDocument cfg userId file ()).bind fun x => .ret (x.1.map some)
    | .callback provider parsed =>
      (processWebhook cfg provider parsed ()).bind fun x => .ret (x.1.map fun _ => none)

/-- The history of a run. -/
abbrev History := Hist Op.Ret World Call (Except Exc (Option KycDocument))

/-- The events of a run, newest first. -/
abbrev Events := List (Event Op.Ret World Call (Except Exc (Option KycDocument)))

end Ahjoor.Kyc
