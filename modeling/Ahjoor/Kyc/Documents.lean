import Ahjoor.Async.Routine
import Ahjoor.Groups.Entities
import Ahjoor.Store.Newest

/-!
# KYC documents and the operations on them

The rows of users and of their KYC documents, and what an awaited operation of the KYC services does
to them. A *case* is what a provider opens for a submission; a document carries the id of its case
once it has been submitted, and several documents may carry the same one.

The columns of a document that say where its file is kept, and the payload of its last callback, are
left out, since nothing reads them. A saved document is stored **with all its columns**: once it has
been inserted, those without a value are null, and a second save writes that over what is stored.
-/

namespace Ahjoor.Kyc

open Async Store

/-! ### Rows -/

inductive KycStatus
  | pending
  | approved
  | rejected
  | needsReview
  deriving DecidableEq

/-- `APPROVED` or `REJECTED`. -/
def KycStatus.isFinal : KycStatus → Bool
  | approved | rejected => true
  | pending | needsReview => false

inductive KycProvider
  | persona
  | jumio
  | onfido
  deriving DecidableEq

/-- The columns of a user that these services use. -/
structure User where
  id : Uuid
  email : Option String := none
  kycStatus : Option KycStatus := none
  deriving DecidableEq

instance : Entity User := ⟨User.id, fun i u => { u with id := i }, fun _ _ => rfl⟩

/-- `KycDocument`. -/
structure KycDocument where
  id : Uuid := 0
  userId : Uuid
  url : String
  uploadedAt : ℤ
  provider : Option KycProvider := none
  providerCaseId : Option String := none
  providerStatus : Option String := none
  status : KycStatus := .pending
  submittedAt : Option ℤ := none
  lastProviderEventAt : Option ℤ := none
  caseExpiresAt : Option ℤ := none
  stuckFlaggedAt : Option ℤ := none
  documentSetHash : Option String := none
  deriving DecidableEq

instance : Entity KycDocument := ⟨KycDocument.id, fun i d => { d with id := i }, fun _ _ => rfl⟩

namespace KycDocument

/-- The document belongs to this case of the user. -/
def ofCase (doc : KycDocument) (userId : Uuid) (providerCaseId : String) : Bool :=
  doc.userId = userId && doc.providerCaseId = some providerCaseId

/-- `status IN (PENDING, NEEDS_REVIEW)`, and the window of the case is still open. -/
def reusable (doc : KycDocument) (now : ℤ) : Bool :=
  doc.providerCaseId.isSome && !doc.status.isFinal && doc.caseExpiresAt.all (now < ·)

end KycDocument

theorem ofCase_iff {doc : KycDocument} {userId : Uuid} {c : String} :
    doc.ofCase userId c = true ↔ doc.userId = userId ∧ doc.providerCaseId = some c := by
  simp [KycDocument.ofCase]

/-- What the requests share. -/
structure World where
  users : Table User
  docs : Table KycDocument
  clock : ℤ

namespace World

/-- `findOne({ where: { userId, providerCaseId }, order: { uploadedAt: 'DESC' } })` -/
def docOfCase (w : World) (userId : Uuid) (providerCaseId : String) : Option KycDocument :=
  w.docs.newest KycDocument.uploadedAt fun doc => doc.ofCase userId providerCaseId

/-- `findOne({ where: { userId }, order: { uploadedAt: 'DESC' } })` -/
def latestDoc (w : World) (userId : Uuid) : Option KycDocument :=
  w.docs.newest KycDocument.uploadedAt fun doc => doc.userId = userId

/-- The query of `findReusableCase`. -/
def reusableDoc (w : World) (userId excludeDocId : Uuid) (now : ℤ) : Option KycDocument :=
  w.docs.newest KycDocument.uploadedAt fun doc =>
    doc.userId = userId && doc.id ≠ excludeDocId && doc.reusable now

end World

/-! ### Operations -/

/-- `SubmitVerificationParams`. -/
structure SubmitVerificationParams where
  userId : Uuid
  documentId : Uuid
  documentUrl : String
  documentSetHash : String
  deriving DecidableEq

/-- `ProviderSubmissionResult`. -/
structure ProviderSubmissionResult where
  providerCaseId : String
  providerStatus : String
  deriving DecidableEq

inductive NotificationType
  | kycSubmitted
  | kycApproved
  | kycDeclined
  deriving DecidableEq

/-- The file as it was received. -/
abbrev Buffer := List UInt8

inductive Op
  /-- `new Date()` -/
  | dateNow
  | validateFile (file : Buffer)
  /-- `uploadToS3` or `uploadToLocal` -/
  | storeFile (userId : Uuid) (file : Buffer)
  | submitVerification (provider : KycProvider) (params : SubmitVerificationParams) (timeoutMs : ℕ)
  | findUser (userId : Uuid)
  | findDocOfCase (userId : Uuid) (providerCaseId : String)
  | findLatestDoc (userId : Uuid)
  | findReusableDoc (userId excludeDocId : Uuid) (now : ℤ)
  | insertDoc (doc : KycDocument)
  /-- `save` of a document that was loaded -/
  | saveDoc (doc : KycDocument)
  /-- `save` of a new document with its case -/
  | saveSubmission (newDoc : KycDocument)
  /-- `save` of a new document that no provider has taken -/
  | saveUnsubmitted (newDoc : KycDocument)
  | saveUser (user : User)
  /-- `update(userId, { kycStatus })` -/
  | updateKycStatus (userId : Uuid) (kycStatus : KycStatus)
  | createLog (userId : Uuid) (action : String) (documentId : Option Uuid)
  | notify (userId : Uuid) (type : NotificationType) (emailTo : Option String)
  deriving DecidableEq

/-- What an operation yields when it is done. -/
abbrev Op.Val : Op → Type
  | dateNow => ℤ
  | storeFile _ _ => String
  | submitVerification _ _ _ => ProviderSubmissionResult
  | findUser _ => Option User
  | findDocOfCase _ _ | findLatestDoc _ | findReusableDoc _ _ _ => Option KycDocument
  | insertDoc _ => Uuid
  | validateFile _ | saveDoc _ | saveSubmission _ | saveUnsubmitted _ | saveUser _
  | updateKycStatus _ _ | createLog _ _ _ | notify _ _ _ => Unit

/-- Replies. -/
abbrev Op.Ret (o : Op) : Type := Except Exc o.Val

/-- The freedom of the environment: an operation is done or fails, the clock goes on, a file gets a
url, and a provider opens a case. -/
inductive Choice
  | done
  | fails (message : String)
  | time (now : ℤ)
  | kept (url : String)
  | opened (result : ProviderSubmissionResult)
  deriving DecidableEq

/-- What an operation does when it does not fail. -/
def Op.run : (o : Op) → Choice → World → Option (o.Val × World)
  | dateNow, .time now, w => if w.clock ≤ now then some (now, { w with clock := now }) else none
  | validateFile _, .done, w => some ((), w)
  | storeFile _ _, .kept url, w => some (url, w)
  | submitVerification _ _ _, .opened result, w => some (result, w)
  | findUser userId, .done, w => some (w.users.row userId, w)
  | findDocOfCase userId providerCaseId, .done, w => some (w.docOfCase userId providerCaseId, w)
  | findLatestDoc userId, .done, w => some (w.latestDoc userId, w)
  | findReusableDoc userId excludeDocId now, .done, w =>
      some (w.reusableDoc userId excludeDocId now, w)
  | insertDoc doc, .done, w =>
      some ((w.docs.insert doc).1.id, { w with docs := (w.docs.insert doc).2 })
  | saveDoc doc, .done, w => some ((), { w with docs := w.docs.put doc })
  | saveSubmission newDoc, .done, w => some ((), { w with docs := w.docs.put newDoc })
  | saveUnsubmitted newDoc, .done, w => some ((), { w with docs := w.docs.put newDoc })
  | saveUser user, .done, w => some ((), { w with users := w.users.put user })
  | updateKycStatus userId kycStatus, .done, w =>
      some ((), { w with
        users := w.users.modify (·.id = userId) fun u => { u with kycStatus := some kycStatus } })
  | createLog _ _ _, .done, w => some ((), w)
  | notify _ _ _, .done, w => some ((), w)
  | _, _, _ => none

/-- What an operation does. -/
def exec (o : Op) (_ : ℕ) (choice : Choice) (w : World) : Option (o.Ret × World) :=
  match choice with
  | .fails message => if o = .dateNow then none else some (.error (.error message), w)
  | choice => (o.run choice w).map fun x => (.ok x.1, x.2)

/-- An operation is done, or fails and **changes nothing**. -/
theorem exec_cases {o : Op} {pid : ℕ} {choice : Choice} {w w' : World} {r : o.Ret}
    (h : exec o pid choice w = some (r, w')) :
    (∃ v, r = .ok v ∧ o.run choice w = some (v, w')) ∨ (∃ e, r = .error e) ∧ w' = w := by
  cases choice with
  | fails message =>
    simp only [exec] at h
    split_ifs at h
    obtain ⟨rfl, rfl⟩ := Prod.mk.inj (Option.some.inj h)
    exact .inr ⟨⟨_, rfl⟩, rfl⟩
  | done | time now | kept url | opened result =>
    obtain ⟨⟨v, w₁⟩, hrun, heq⟩ := Option.map_eq_some_iff.mp h
    obtain ⟨rfl, rfl⟩ := Prod.mk.inj heq
    exact .inl ⟨v, rfl, hrun⟩

end Ahjoor.Kyc
