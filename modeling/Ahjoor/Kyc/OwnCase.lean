import Ahjoor.Async.Solo
import Ahjoor.Kyc.KycService

/-!
# A callback and the case that it is about

A callback whose case is not found goes to the newest document of the user, whatever case that has;
and it sets the status of the user, whatever other cases there are. So the documents of other cases
are left alone as long as no callback falls back to one of them, and the status of the user is that
of the case that has been submitted last when the last callback is for this case.
-/

namespace Ahjoor.Kyc

open Async Store

variable (cfg : Config)

/-! ### What is claimed -/

/-- When the case of a document was submitted. -/
def KycDocument.submissionTime (doc : KycDocument) : ℤ := doc.submittedAt.getD doc.uploadedAt

/-- The user has submitted **no other case as late** as this one. -/
def MostRecent (w : World) (userId : Uuid) (providerCaseId : String) : Prop :=
  ∃ doc, w.docs.row doc.id = some doc ∧ doc.ofCase userId providerCaseId ∧
    ∀ other, w.docs.row other.id = some other → other.userId = userId →
      (∃ c, other.providerCaseId = some c ∧ c ≠ providerCaseId) →
        other.submissionTime < doc.submissionTime

theorem mostRecent_iff {w : World} {userId : Uuid} {c : String} : MostRecent w userId c ↔
    ∃ doc ∈ w.docs.rows, doc.ofCase userId c = true ∧ ∀ other ∈ w.docs.rows,
      other.userId = userId → other.providerCaseId.any (· ≠ c) →
        other.submissionTime < doc.submissionTime := by
  have hany : ∀ other : KycDocument, (∃ c', other.providerCaseId = some c' ∧ c' ≠ c) ↔
      other.providerCaseId.any (· ≠ c) = true := by
    intro other
    cases other.providerCaseId <;> simp
  simp only [MostRecent, Table.mem_rows, hany]
  exact Iff.rfl

instance (w : World) (userId : Uuid) (c : String) : Decidable (MostRecent w userId c) :=
  decidable_of_iff _ mostRecent_iff.symm

/-- At most one case is submitted last. -/
theorem mostRecent_unique {w : World} {userId : Uuid} {c c' : String} (h : MostRecent w userId c)
    (h' : MostRecent w userId c') : c = c' := by
  by_contra hne
  obtain ⟨doc, hrow, hcase, hlast⟩ := h
  obtain ⟨doc', hrow', hcase', hlast'⟩ := h'
  rw [ofCase_iff] at hcase hcase'
  have hlt := hlast doc' hrow' hcase'.1 ⟨c', hcase'.2, Ne.symm hne⟩
  have hlt' := hlast' doc hrow hcase.1 ⟨c, hcase.2, hne⟩
  exact absurd hlt (not_lt.mpr hlt'.le)

/-- The status of the user is that of the case submitted last. -/
def FollowsRecent (w : World) (userId : Uuid) : Prop :=
  ∀ providerCaseId user, MostRecent w userId providerCaseId → w.users.row userId = some user →
    user.kycStatus = (w.docOfCase userId providerCaseId).map KycDocument.status

/-- A callback changes documents **of its case** only, or such that have no case. -/
def OwnCase (w : World) (c : Call) (_ : Except Exc (Option KycDocument)) (w' : World) : Prop :=
  match c with
  | .upload _ _ => True
  | .callback _ parsed => ∀ id, w'.docs.row id ≠ w.docs.row id →
      ∃ doc, w.docs.row id = some doc ∧ doc.userId = parsed.userId ∧
        ∀ c, doc.providerCaseId = some c → c = parsed.providerCaseId

/-- Requests with their answers, the last one first. -/
abbrev Served := List (Call × Except Exc (Option KycDocument))

/-- The callback that was processed when the user was last served, if it was one. -/
def processedLast (calls : Served) (userId : Uuid) : Option ParsedWebhookPayload :=
  match calls.find? fun x => x.1.userId = userId with
  | some (.callback _ parsed, .ok _) => some parsed
  | _ => none

theorem mem_of_processedLast {calls : Served} {userId : Uuid} {parsed : ParsedWebhookPayload}
    (h : processedLast calls userId = some parsed) : ∃ x ∈ calls, x.1.userId = userId := by
  cases hfound : calls.find? fun x => x.1.userId = userId with
  | none =>
    rw [processedLast, hfound] at h
    cases h
  | some x =>
    exact ⟨x, List.mem_of_find?_eq_some hfound, by simpa using List.find?_some hfound⟩

/-- **Callbacks keep to their cases**: each one changes its own case only, and after them the status
of the user is that of the case submitted last. -/
structure KeepsToCases (w : World) (calls : Served) (w' : World) : Prop where
  own : RunsWhen (system cfg) OwnCase w calls w'
  recent : ∀ userId parsed, processedLast calls userId = some parsed → FollowsRecent w' userId

/-! ### When it holds -/

/-- A callback finds a document **of its case**, or the newest document of the user has no case. -/
def placed (w : World) (c : Call) (_ : Except Exc (Option KycDocument)) (_ : World) : Bool :=
  match c with
  | .upload _ _ => true
  | .callback _ parsed => (w.docOfCase parsed.userId parsed.providerCaseId).isSome ||
      (w.latestDoc parsed.userId).all (·.providerCaseId.isNone)

/-- The callback processed last is **for the case submitted last**. -/
def LastIsRecent (calls : Served) (w' : World) : Prop :=
  ∀ userId parsed c, processedLast calls userId = some parsed → MostRecent w' userId c →
    parsed.providerCaseId = c

/-! ### What a callback does -/

/-- The document that a callback is about. -/
def World.target (w : World) (parsed : ParsedWebhookPayload) : Option KycDocument :=
  (w.docOfCase parsed.userId parsed.providerCaseId).or (w.latestDoc parsed.userId)

/-- The target has been saved as the callback leaves it. -/
def Written (w : World) (parsed : ParsedWebhookPayload) (docs : Table KycDocument) : Prop :=
  ∃ doc resolvedProvider now, w.target parsed = some doc ∧
    docs = w.docs.put (parsed.applyTo resolvedProvider now doc)

/-- The status of the user has been saved. -/
def Informed (w : World) (parsed : ParsedWebhookPayload) (users : Table User) : Prop :=
  ∃ user, w.users.row parsed.userId = some user ∧
    users = w.users.put { user with kycStatus := some parsed.status }

/-- What a callback may leave behind. -/
structure Touched (w : World) (parsed : ParsedWebhookPayload) (w' : World) : Prop where
  docs : w'.docs = w.docs ∨ Written w parsed w'.docs
  users : w'.users = w.users ∨ Informed w parsed w'.users

/-- What a callback that is processed leaves behind. -/
structure Processed (w : World) (parsed : ParsedWebhookPayload) (w' : World) : Prop where
  docs : Written w parsed w'.docs
  users : Informed w parsed w'.users

theorem Processed.touched {w w' : World} {parsed : ParsedWebhookPayload}
    (h : Processed w parsed w') : Touched w parsed w' :=
  ⟨.inr h.docs, .inr h.users⟩

section Solo

variable {cfg} {pid : ℕ} {w : World}

theorem solo_await {o : Op} {Q : o.Val → Unit → World → Prop} {X : Exc → Unit → World → Prop}
    (hdone : ∀ choice v w', o.run choice w = some (v, w') → Q v () w') (hfails : ∀ e, X e () w) :
    Solo exec pid (await o) Q X () w := by
  refine .call fun choice r w' hexec => ?_
  rcases exec_cases hexec with ⟨v, rfl, hrun⟩ | ⟨⟨e, rfl⟩, rfl⟩
  · exact hdone choice v w' hrun
  · exact hfails e

theorem solo_findDocument (parsed : ParsedWebhookPayload) {X : Exc → Unit → World → Prop}
    (hX : ∀ e, X e () w) : Solo exec pid (findDocument parsed)
      (fun found _ w' => found = w.target parsed ∧ w' = w) X () w := by
  refine .bind (solo_await (fun choice found w' hrun => ?_) hX)
  cases choice <;> cases hrun
  rw [World.target]
  cases hfound : w.docOfCase parsed.userId parsed.providerCaseId with
  | some doc => exact .pure ⟨rfl, rfl⟩
  | none =>
    refine solo_await (fun choice found w' hrun => ?_) hX
    cases choice <;> cases hrun
    exact ⟨rfl, rfl⟩

theorem solo_sendKycEmail (user : User) (status : KycStatus) {J : World → Prop} (h : J w) :
    Solo exec pid (sendKycEmail user status) (fun _ _ => J) (fun _ _ => J) () w := by
  rw [sendKycEmail]
  split
  · exact .pure h
  · refine solo_await (fun choice v w' hrun => ?_) fun _ => h
    cases choice <;> cases hrun
    exact h

/-- **What `processWebhook` does** when nobody disturbs it. -/
theorem solo_processWebhook (provider : Option KycProvider) (parsed : ParsedWebhookPayload) :
    Solo exec pid (processWebhook cfg provider parsed) (fun _ _ => Processed w parsed)
      (fun _ _ => Touched w parsed) () w := by
  have hsame : Touched w parsed w := ⟨.inl rfl, .inl rfl⟩
  refine .bind (solo_await (fun choice found w' hrun => ?_) fun _ => hsame)
  cases choice <;> cases hrun
  refine .bind (.valueOr (fun user huser => ?_) fun _ => hsame)
  refine .bind ((solo_findDocument parsed fun _ => hsame).mono (fun found s w' hfound => ?_)
    fun _ _ _ h => h)
  obtain ⟨rfl, rfl⟩ := hfound
  refine .bind (.valueOr (fun doc hdoc => ?_) fun _ => hsame)
  refine .bind (solo_await (fun choice now w₁ hrun => ?_) fun _ => hsame)
  obtain rfl : w₁ = { w' with clock := now } := by
    cases choice with
    | time t =>
      simp only [Op.run] at hrun
      split_ifs at hrun
      cases hrun
      rfl
    | done | fails message | kept url | opened result => cases hrun
  refine .bind (solo_await (fun choice _ w₂ hrun => ?_) fun _ => ⟨.inl rfl, .inl rfl⟩)
  cases choice <;> cases hrun
  have hdocs : Written w' parsed (w'.docs.put (parsed.applyTo (provider.getD cfg.provider) now doc)) :=
    ⟨doc, _, now, hdoc, rfl⟩
  refine .bind (solo_await (fun choice _ w₃ hrun => ?_) fun _ => ⟨.inr hdocs, .inl rfl⟩)
  cases choice <;> cases hrun
  have hprocessed : Processed w' parsed
      { users := w'.users.put { user with kycStatus := some parsed.status }
        docs := w'.docs.put (parsed.applyTo (provider.getD cfg.provider) now doc)
        clock := now } := ⟨hdocs, user, huser, rfl⟩
  refine .bind (solo_await (fun choice _ w₄ hrun => ?_) fun _ => hprocessed.touched)
  cases choice <;> cases hrun
  change Solo exec pid (if parsed.status.isFinal = true then _ else _) _ _ _ _
  split
  · exact (solo_sendKycEmail _ _ hprocessed).mono (fun _ _ _ h => h) fun _ _ _ h => h.touched
  · exact .pure hprocessed

end Solo

/-! ### The documents of the case -/

section Rows

variable {w w' : World} {parsed : ParsedWebhookPayload} {doc : KycDocument}

@[simp] theorem applyTo_id (resolvedProvider : KycProvider) (now : ℤ) :
    (parsed.applyTo resolvedProvider now doc).id = doc.id := rfl

@[simp] theorem applyTo_userId (resolvedProvider : KycProvider) (now : ℤ) :
    (parsed.applyTo resolvedProvider now doc).userId = doc.userId := rfl

@[simp] theorem applyTo_status (resolvedProvider : KycProvider) (now : ℤ) :
    (parsed.applyTo resolvedProvider now doc).status = parsed.status := rfl

theorem of_docOfCase {userId : Uuid} {c : String} (h : w.docOfCase userId c = some doc) :
    w.docs.row doc.id = some doc ∧ doc.userId = userId ∧ doc.providerCaseId = some c := by
  obtain ⟨⟨hrow, hcase⟩, -⟩ := Table.newest_eq_some.mp h
  exact ⟨hrow, ofCase_iff.mp hcase⟩

/-- The target is a document of the user; under `placed`, **of the case** or without one. -/
theorem of_target (h : w.target parsed = some doc) :
    w.docs.row doc.id = some doc ∧ doc.userId = parsed.userId := by
  cases hcase : w.docOfCase parsed.userId parsed.providerCaseId with
  | some found =>
    rw [World.target, hcase] at h
    obtain rfl : found = doc := Option.some.inj h
    exact ⟨(of_docOfCase hcase).1, (of_docOfCase hcase).2.1⟩
  | none =>
    rw [World.target, hcase] at h
    obtain ⟨⟨hrow, huser⟩, -⟩ := Table.newest_eq_some.mp (h : w.latestDoc parsed.userId = some doc)
    exact ⟨hrow, of_decide_eq_true huser⟩

/-- Where no document of the case is found, the target has no case. -/
theorem case_of_target {provider : Option KycProvider} {a : Except Exc (Option KycDocument)}
    (hplaced : placed w (.callback provider parsed) a w' = true)
    (h : w.target parsed = some doc) : w.docOfCase parsed.userId parsed.providerCaseId = some doc ∨
      w.docOfCase parsed.userId parsed.providerCaseId = none ∧ doc.providerCaseId = none := by
  cases hcase : w.docOfCase parsed.userId parsed.providerCaseId with
  | some found =>
    rw [World.target, hcase] at h
    exact .inl h
  | none =>
    rw [World.target, hcase] at h
    have hlatest : w.latestDoc parsed.userId = some doc := h
    simp only [placed, hcase, hlatest, Option.isSome_none, Bool.false_or, Option.all_some,
      Option.isNone_iff_eq_none] at hplaced
    exact .inr ⟨rfl, hplaced⟩

/-- After the callback **the newest document of its case** is the one that it has written. -/
theorem docOfCase_written {provider : Option KycProvider} {a : Except Exc (Option KycDocument)}
    {w₁ : World} (hplaced : placed w (.callback provider parsed) a w₁ = true)
    (h : Written w parsed w'.docs) :
    (w'.docOfCase parsed.userId parsed.providerCaseId).map KycDocument.status =
      some parsed.status := by
  obtain ⟨doc, resolvedProvider, now, htarget, hdocs⟩ := h
  have huser := (of_target htarget).2
  have hnewest : w'.docOfCase parsed.userId parsed.providerCaseId =
      some (parsed.applyTo resolvedProvider now doc) := by
    rw [World.docOfCase, hdocs]
    rcases case_of_target hplaced htarget with hfound | ⟨hnone, hcase⟩
    · have hcase := (of_docOfCase hfound).2.2
      refine Table.newest_put (ofCase_iff.mpr ⟨huser, ?_⟩) fun other hrow _ hother => ?_
      · rw [ParsedWebhookPayload.applyTo, hcase, Option.getD_some]
      · exact (Table.newest_eq_some.mp hfound).2 other hrow hother
    · refine Table.newest_put (ofCase_iff.mpr ⟨huser, ?_⟩) fun other hrow _ hother => ?_
      · rw [ParsedWebhookPayload.applyTo, hcase, Option.getD_none]
      · rw [Table.newest_eq_none.mp hnone _ other hrow] at hother
        cases hother
  rw [hnewest, Option.map_some, applyTo_status]

/-- **A callback that is placed changes its own case only.** -/
theorem ownCase_of_touched {provider : Option KycProvider} {a : Except Exc (Option KycDocument)}
    (hplaced : placed w (.callback provider parsed) a w' = true) (h : Touched w parsed w') :
    OwnCase w (.callback provider parsed) a w' := by
  intro id hchanged
  rcases h.docs with hdocs | ⟨doc, resolvedProvider, now, htarget, hdocs⟩
  · rw [hdocs] at hchanged
    exact absurd rfl hchanged
  · obtain ⟨hrow, huser⟩ := of_target htarget
    have hid : id = doc.id := by
      by_contra hne
      rw [hdocs] at hchanged
      exact hchanged (w.docs.row_put_of_ne hne)
    subst hid
    refine ⟨doc, hrow, huser, fun c hc => ?_⟩
    rcases case_of_target hplaced htarget with hfound | ⟨-, hnone⟩
    · exact Option.some.inj (hc.symm.trans (of_docOfCase hfound).2.2)
    · rw [hnone] at hc
      cases hc

end Rows

/-! ### Other users -/

/-- The documents and the row of this user are the same in both worlds. -/
structure SameFor (userId : Uuid) (w w' : World) : Prop where
  docs : ∀ doc : KycDocument, doc.userId = userId →
    (w.docs.row doc.id = some doc ↔ w'.docs.row doc.id = some doc)
  users : w'.users.row userId = w.users.row userId

section Others

variable {cfg} {w w₁ w' : World} {userId : Uuid}

theorem SameFor.refl (w : World) : SameFor userId w w := ⟨fun _ _ => Iff.rfl, rfl⟩

theorem SameFor.trans (h : SameFor userId w w₁) (h' : SameFor userId w₁ w') : SameFor userId w w' :=
  ⟨fun doc hdoc => (h.docs doc hdoc).trans (h'.docs doc hdoc), h'.users.trans h.users⟩

theorem SameFor.docOfCase (h : SameFor userId w w') (c : String) :
    w'.docOfCase userId c = w.docOfCase userId c :=
  (Table.newest_congr fun doc hcase => h.docs doc (ofCase_iff.mp hcase).1).symm

/-- A document of another user is stored where no document of this user was. -/
theorem row_put_of_other {docs : Table KycDocument} {doc other : KycDocument}
    (hdoc : doc.userId = userId) (hother : other.userId ≠ userId)
    (hold : ∀ old, docs.row other.id = some old → old.userId ≠ userId) :
    docs.row doc.id = some doc ↔ (docs.put other).row doc.id = some doc := by
  obtain heq | hne := eq_or_ne doc.id other.id
  · have hput : (docs.put other).row doc.id = some other := by
      rw [heq]
      exact docs.row_put_self other
    constructor
    · intro hrow
      exact absurd hdoc (hold doc (heq ▸ hrow))
    · intro hrow
      rw [hput] at hrow
      exact absurd (Option.some.inj hrow ▸ hdoc) hother
  · rw [docs.row_put_of_ne hne]

theorem SameFor.of_touched {parsed : ParsedWebhookPayload} (hne : parsed.userId ≠ userId)
    (h : Touched w parsed w') : SameFor userId w w' := by
  refine ⟨fun doc hdoc => ?_, ?_⟩
  · rcases h.docs with hdocs | ⟨target, resolvedProvider, now, htarget, hdocs⟩
    · rw [hdocs]
    · obtain ⟨hrow, huser⟩ := of_target htarget
      rw [hdocs]
      refine row_put_of_other hdoc (by rw [applyTo_userId, huser]; exact hne) fun old hold => ?_
      rw [applyTo_id, hrow] at hold
      rw [← Option.some.inj hold, huser]
      exact hne
  · rcases h.users with husers | ⟨user, hrow, husers⟩
    · rw [husers]
    · have hid : user.id = parsed.userId := w.users.id_of_row hrow
      rw [husers]
      exact w.users.row_put_of_ne fun heq => hne (hid.symm.trans heq.symm)

/-- The operations of a submission of the document `id` of this user. -/
def Own (ownerId id : Uuid) : Op → Prop
  | .saveSubmission newDoc | .saveUnsubmitted newDoc => newDoc.id = id ∧ newDoc.userId = ownerId
  | .updateKycStatus userId _ => userId = ownerId
  | .insertDoc _ | .saveDoc _ | .saveUser _ => False
  | _ => True

theorem performs_await {P : Op → Prop} {o : Op} (h : P o) : (await o).Performs P :=
  (Routine.uses_call h).performs

theorem performs_submitOrReuse (user : User) (newDoc : KycDocument) (fileBuffer : Buffer) :
    (submitOrReuse cfg user newDoc fileBuffer).Performs (Own newDoc.userId newDoc.id) := by
  have hsubmit : ∀ provider params, (trySubmit cfg provider params user.id).Performs
      (Own newDoc.userId newDoc.id) := fun provider params =>
    Routine.performs_tryCatch
      (Routine.performs_bind (performs_await trivial) fun _ => (Routine.uses_pure _).performs)
      fun _ => Routine.performs_bind (performs_await trivial) fun _ => (Routine.uses_pure _).performs
  have hpersist : ∀ provider result action, (persistSubmission cfg
      { newDoc with documentSetHash := some (cfg.sha256 fileBuffer) } provider result action).Performs
      (Own newDoc.userId newDoc.id) := fun provider result action =>
    Routine.performs_bind (performs_await trivial) fun _ =>
      Routine.performs_bind (performs_await ⟨rfl, rfl⟩) fun _ =>
        Routine.performs_bind (performs_await trivial) fun _ => (Routine.uses_pure _).performs
  have hflag : (flagForReview user
      { newDoc with documentSetHash := some (cfg.sha256 fileBuffer) }).Performs
      (Own newDoc.userId newDoc.id) :=
    Routine.performs_bind (performs_await trivial) fun _ =>
      Routine.performs_bind (performs_await ⟨rfl, rfl⟩) fun _ =>
        Routine.performs_bind (performs_await trivial) fun _ => (Routine.uses_pure _).performs
  refine Routine.performs_bind (performs_await trivial) fun now =>
    Routine.performs_bind (performs_await trivial) fun reusable => ?_
  cases reusable with
  | some existing =>
    exact Routine.performs_bind (performs_await ⟨rfl, rfl⟩) fun _ =>
      Routine.performs_bind (performs_await trivial) fun _ => (Routine.uses_pure _).performs
  | none =>
    refine Routine.performs_bind (hsubmit _ _) fun primaryResult => ?_
    cases primaryResult with
    | some result => exact hpersist _ _ _
    | none =>
      cases hsecondary : cfg.secondary.filter (· ≠ cfg.provider) with
      | none => simpa only [hsecondary] using hflag
      | some secondary =>
        refine Routine.performs_bind (hsubmit _ _) fun secondaryResult => ?_
        cases secondaryResult with
        | some result => exact hpersist _ _ _
        | none => exact hflag

/-- Nothing of this user has changed, and the document `id` is of another one. -/
def Aside (userId ownerId id : Uuid) (w w' : World) : Prop :=
  SameFor userId w w' ∧ ∀ doc, w'.docs.row id = some doc → doc.userId = ownerId

theorem Aside.step {ownerId id : Uuid} (hne : ownerId ≠ userId) {o : Op} {pid : ℕ} {choice : Choice}
    {r : o.Ret} (ho : Own ownerId id o) (hexec : exec o pid choice w₁ = some (r, w'))
    (h : Aside userId ownerId id w w₁) : Aside userId ownerId id w w' := by
  -- a row that is stored at `id` for the owner
  have hput : ∀ newDoc : KycDocument, newDoc.id = id → newDoc.userId = ownerId →
      Aside userId ownerId id w { w₁ with docs := w₁.docs.put newDoc } := by
    rintro newDoc rfl rfl
    refine ⟨h.1.trans ⟨fun doc hdoc => ?_, rfl⟩, fun doc hdoc => ?_⟩
    · exact row_put_of_other hdoc hne fun old hold => h.2 old hold ▸ hne
    · rw [show (w₁.docs.put newDoc).row newDoc.id = some newDoc from w₁.docs.row_put_self newDoc] at hdoc
      rw [Option.some.inj hdoc]
  rcases exec_cases hexec with ⟨v, -, hrun⟩ | ⟨-, rfl⟩
  · cases o with
    | insertDoc doc | saveDoc doc | saveUser user => cases ho
    | saveSubmission newDoc | saveUnsubmitted newDoc =>
      obtain ⟨hid, huser⟩ := ho
      cases choice <;> cases hrun
      exact hput _ hid huser
    | updateKycStatus u kycStatus =>
      obtain rfl : u = ownerId := ho
      cases choice <;> cases hrun
      refine ⟨h.1.trans ⟨fun _ _ => Iff.rfl, ?_⟩, h.2⟩
      rw [Table.row_modify]
      cases hrow : w₁.users.row userId with
      | none => rfl
      | some user =>
        have hid : user.id = userId := w₁.users.id_of_row hrow
        have hother : ¬ user.id = u := fun heq => hne (heq.symm.trans hid)
        simp [hother]
    | dateNow =>
      cases choice with
      | time now =>
        simp only [Op.run] at hrun
        split_ifs at hrun
        cases hrun
        exact ⟨h.1.trans ⟨fun _ _ => Iff.rfl, rfl⟩, h.2⟩
      | done | fails message | kept url | opened result => cases hrun
    | validateFile file | storeFile u file | submitVerification provider params timeoutMs
    | findUser u | findDocOfCase u c | findLatestDoc u | findReusableDoc u excludeDocId now
    | createLog u action documentId | notify u type emailTo =>
      cases choice <;> cases hrun
      exact h
  · exact h

/-- **An upload of another user** leaves this user alone. -/
theorem solo_uploadDocument {ownerId : Uuid} (hne : ownerId ≠ userId) (file : Buffer) {pid : ℕ} :
    Solo exec pid (uploadDocument cfg ownerId file) (fun _ _ => SameFor userId w)
      (fun _ _ => SameFor userId w) () w := by
  have hsame : SameFor userId w w := .refl w
  refine .bind (solo_await (fun choice _ w₁ hrun => ?_) fun _ => hsame)
  cases choice <;> cases hrun
  refine .bind (solo_await (fun choice found w₁ hrun => ?_) fun _ => hsame)
  cases choice <;> cases hrun
  refine .bind (.valueOr (fun user _ => ?_) fun _ => hsame)
  refine .bind (solo_await (fun choice url w₁ hrun => ?_) fun _ => hsame)
  cases choice <;> cases hrun
  refine .bind (solo_await (fun choice uploadedAt w₁ hrun => ?_) fun _ => hsame)
  have hclock : SameFor userId w w₁ := by
    cases choice with
    | time now =>
      simp only [Op.run] at hrun
      split_ifs at hrun
      cases hrun
      exact ⟨fun _ _ => Iff.rfl, rfl⟩
    | done | fails message | kept url | opened result => cases hrun
  refine .bind (solo_await (fun choice id w₂ hrun => ?_) fun _ => hclock)
  have hinserted : Aside userId ownerId id w w₂ := by
    cases choice <;> cases hrun
    refine ⟨hclock.trans ⟨fun doc hdoc => ?_, rfl⟩, fun doc hdoc => ?_⟩
    · refine row_put_of_other hdoc hne fun old hold => ?_
      have hnone := w₁.docs.row_next
      rw [show w₁.docs.row w₁.docs.next = some old from hold] at hnone
      cases hnone
    · have hself := w₁.docs.row_put_self (Entity.withId w₁.docs.next
        ({ userId := ownerId, url, uploadedAt } : KycDocument))
      rw [Option.some.inj (hdoc.symm.trans hself)]
      rfl
  have hsubmit : (submitOrReuse cfg user { id, userId := ownerId, url, uploadedAt } file).Performs
      (Own ownerId id) :=
    performs_submitOrReuse user ({ id, userId := ownerId, url, uploadedAt } : KycDocument) file
  have hrest : (do
      let orchestrated ← submitOrReuse cfg user { id, userId := ownerId, url, uploadedAt } file
      await (.updateKycStatus ownerId orchestrated.status)
      await (.notify ownerId .kycSubmitted none)
      pure orchestrated : Service KycDocument).Performs (Own ownerId id) :=
    Routine.performs_bind hsubmit fun _ =>
      Routine.performs_bind (performs_await rfl) fun _ =>
        Routine.performs_bind (performs_await trivial) fun _ => (Routine.uses_pure _).performs
  exact (Solo.keeps (fun o choice r w' w'' ho hexec h => h.step hne ho hexec) hrest hinserted).mono
    (fun _ _ _ h => h.1) fun _ _ _ h => h.1

/-- **A request of another user** leaves this user alone. -/
theorem sameFor_of_alone {c : Call} {a : Except Exc (Option KycDocument)} {pid : ℕ}
    (hne : c.userId ≠ userId) (h : Alone exec pid ((system cfg).body c) w a w') :
    SameFor userId w w' := by
  cases c with
  | upload ownerId file =>
    obtain ⟨⟨x, s⟩, w₁, hbody, hret⟩ := Alone.of_bind h
    obtain ⟨-, rfl⟩ := alone_ret.mp hret
    have hx := solo_uploadDocument hne file x s w' hbody
    cases x with
    | ok doc => exact hx
    | error e => exact hx
  | callback provider parsed =>
    obtain ⟨⟨x, s⟩, w₁, hbody, hret⟩ := Alone.of_bind h
    obtain ⟨-, rfl⟩ := alone_ret.mp hret
    have hx := solo_processWebhook provider parsed x s w' hbody
    cases x with
    | ok u => exact .of_touched hne hx.touched
    | error e => exact .of_touched hne hx

/-- What a callback leaves behind, by its answer. -/
theorem touched_of_alone {provider : Option KycProvider} {parsed : ParsedWebhookPayload}
    {a : Except Exc (Option KycDocument)} {pid : ℕ}
    (h : Alone exec pid ((system cfg).body (.callback provider parsed)) w a w') :
    Touched w parsed w' ∧ (∀ r, a = .ok r → Processed w parsed w') := by
  obtain ⟨⟨x, s⟩, w₁, hbody, hret⟩ := Alone.of_bind h
  obtain ⟨rfl, rfl⟩ := alone_ret.mp hret
  have hx := solo_processWebhook provider parsed x s w' hbody
  cases x with
  | ok u => exact ⟨hx.touched, fun _ _ => hx⟩
  | error e => exact ⟨hx, fun _ hr => by cases hr⟩

end Others

/-! ### Runs -/

section Runs

variable {cfg} {w w' : World} {calls : Served}

/-- Where the callback processed last is about, **the document and the user have its status**. -/
theorem status_of_processedLast
    (h : RunsWhen (system cfg) (fun w c a w' => placed w c a w' = true) w calls w') {userId : Uuid}
    {parsed : ParsedWebhookPayload} (hlast : processedLast calls userId = some parsed) :
    (w'.docOfCase userId parsed.providerCaseId).map KycDocument.status = some parsed.status ∧
      ∀ user, w'.users.row userId = some user → user.kycStatus = some parsed.status := by
  induction h with
  | nil => cases hlast
  | @call w₁ w₂ calls c a pid hcalls halone hplaced ih =>
    by_cases hc : c.userId = userId
    · rw [processedLast, List.find?_cons_of_pos (by simpa using hc)] at hlast
      cases c with
      | upload ownerId file => cases hlast
      | callback provider p =>
        obtain rfl : p.userId = userId := hc
        cases a with
        | error e => cases hlast
        | ok r =>
          obtain rfl : p = parsed := Option.some.inj hlast
          have hprocessed := (touched_of_alone halone).2 r rfl
          obtain ⟨user, hrow, husers⟩ := hprocessed.users
          have hid : user.id = p.userId := w₁.users.id_of_row hrow
          refine ⟨docOfCase_written hplaced hprocessed.docs, fun user' hrow' => ?_⟩
          rw [husers, ← hid] at hrow'
          have hself := w₁.users.row_put_self { user with kycStatus := some p.status }
          rw [← Option.some.inj (hself.symm.trans hrow')]
    · rw [processedLast, List.find?_cons_of_neg (by simpa using hc)] at hlast
      have hsame := sameFor_of_alone hc halone
      rw [hsame.docOfCase, hsame.users]
      exact ih hlast

/-- **Callbacks keep to their cases** in every run in which no callback falls back to a document of
another case and the last callback for a user is for the case submitted last. -/
theorem keepsToCases_of_placed
    (h : RunsWhen (system cfg) (fun w c a w' => placed w c a w' = true) w calls w')
    (hrecent : LastIsRecent calls w') : KeepsToCases cfg w calls w' := by
  refine ⟨h.mono fun pid w c a w' halone hplaced => ?_, fun userId parsed hlast c user hmost hrow => ?_⟩
  · cases c with
    | upload ownerId file => trivial
    | callback provider parsed => exact ownCase_of_touched hplaced (touched_of_alone halone).1
  · obtain ⟨hdoc, huser⟩ := status_of_processedLast h hlast
    rw [← hrecent userId parsed c hlast hmost, hdoc]
    exact huser user hrow

end Runs

namespace Sample

/-! ### Two cases of one user -/

def config : Config where
  secondary := some .jumio
  sha256 _ := "3a7bd3e2360a3d29eea436fcfb7e44c735d117c42d1c1835420b6b9942dd4f1b"

/-- A user with an older case `inq_a` and a newer one `inq_b`. -/
def world : World where
  users := (Table.empty.insert { id := 0, email := some "ada@example.com" }).2
  docs := ((Table.empty.insert
    { userId := 0, url := "kyc/0/a.pdf", uploadedAt := 0, provider := some .persona
      providerCaseId := some "inq_a", submittedAt := some 0 }).2.insert
    { userId := 0, url := "kyc/0/b.pdf", uploadedAt := 10, provider := some .persona
      providerCaseId := some "inq_b", submittedAt := some 10 }).2
  clock := 20

/-- A callback of Persona. -/
def inquiry (providerCaseId : String) (status : KycStatus) : Call :=
  .callback (some .persona) ⟨0, providerCaseId, status, none⟩

/-- What the environment decides for a callback with a final status, in which `docOfCase` finds the
document. -/
def served : List Choice := [.done, .done, .time 20, .done, .done, .done, .done]

theorem keepsToCases_sample : ∃ calls w',
    RunsWhen (system config) (fun w c a w' => placed w c a w' = true) world calls w' ∧
      calls.map Prod.fst = [inquiry "inq_b" .approved, inquiry "inq_a" .rejected] ∧
        KeepsToCases config world calls w' := by
  obtain ⟨calls, w', hruns, hp⟩ := exists_runsWhen_of_replayCallsWhen (system config) placed world
    [(inquiry "inq_b" .approved, served), (inquiry "inq_a" .rejected, served)]
    (fun x => decide (x.1.map Prod.fst = [inquiry "inq_b" .approved, inquiry "inq_a" .rejected]) &&
      x.1.all (fun y => y.1.userId = 0) &&
      decide ((processedLast x.1 0).map (·.providerCaseId) = some "inq_b") &&
      decide (MostRecent x.2 0 "inq_b")) (by decide +kernel)
  simp only [Bool.and_eq_true, decide_eq_true_eq, List.all_eq_true] at hp
  obtain ⟨⟨⟨hcalls, husers⟩, hprocessed⟩, hmost⟩ := hp
  refine ⟨calls, w', hruns, hcalls, keepsToCases_of_placed hruns fun userId parsed c hlast hc => ?_⟩
  obtain ⟨x, hx, rfl⟩ := mem_of_processedLast hlast
  rw [husers x hx] at hlast hc
  rw [hlast, Option.map_some, Option.some.injEq] at hprocessed
  exact hprocessed.trans (mostRecent_unique hmost hc)

/-- **Both halves fail.** A callback for a case that is not known changes the document of another
case, and the last callback decides although it is for the older case. -/
theorem not_keepsToCases :
    (¬ ∀ calls w', Runs (system config) world calls w' →
      RunsWhen (system config) OwnCase world calls w') ∧
    ¬ ∀ calls w', Runs (system config) world calls w' → ∀ userId parsed,
      processedLast calls userId = some parsed → FollowsRecent w' userId := by
  constructor
  · intro h
    obtain ⟨calls, w', hruns, hp⟩ := exists_runs_of_replayCalls (system config) world
      [(inquiry "inq_c" .approved, [.done, .done, .done, .time 20, .done, .done, .done, .done])]
      (fun x => decide (x.1.map Prod.fst = [inquiry "inq_c" .approved]) &&
        decide ((x.2.docs.row 1).map KycDocument.status = some .approved)) (by decide +kernel)
    simp only [Bool.and_eq_true, decide_eq_true_eq] at hp
    obtain ⟨hcalls, hrow⟩ := hp
    obtain ⟨⟨c, a⟩, rest, rfl, rfl, hnil⟩ := List.map_eq_cons_iff.mp hcalls
    obtain rfl := List.map_eq_nil_iff.mp hnil
    obtain ⟨pid, w₁, hnone, -, hown⟩ := (h _ _ hruns).tail
    obtain rfl := hnone.runs.eq_of_nil
    have hbefore : (world.docs.row 1).map KycDocument.status = some .pending := by decide +kernel
    have hcase : (world.docs.row 1).bind KycDocument.providerCaseId = some "inq_b" := by
      decide +kernel
    have hchanged : w'.docs.row 1 ≠ world.docs.row 1 := by
      intro heq
      rw [heq, hbefore] at hrow
      cases hrow
    obtain ⟨doc, hdoc, -, hof⟩ := hown 1 hchanged
    rw [hdoc] at hcase
    exact absurd (hof "inq_b" hcase) (by decide)
  · intro h
    obtain ⟨calls, w', hruns, hp⟩ := exists_runs_of_replayCalls (system config) world
      [(inquiry "inq_a" .rejected, served), (inquiry "inq_b" .approved, served)]
      (fun x => decide ((processedLast x.1 0).map (·.providerCaseId) = some "inq_a") &&
        decide (MostRecent x.2 0 "inq_b") &&
        decide ((x.2.users.row 0).map User.kycStatus = some (some .rejected)) &&
        decide ((x.2.docOfCase 0 "inq_b").map KycDocument.status = some .approved))
      (by decide +kernel)
    simp only [Bool.and_eq_true, decide_eq_true_eq] at hp
    obtain ⟨⟨⟨hlast, hmost⟩, huser⟩, hstatus⟩ := hp
    obtain ⟨parsed, hparsed, -⟩ := Option.map_eq_some_iff.mp hlast
    obtain ⟨user, hrow, hkyc⟩ := Option.map_eq_some_iff.mp huser
    have hfollows := h _ _ hruns 0 parsed hparsed "inq_b" user hmost hrow
    rw [hkyc, hstatus] at hfollows
    cases hfollows

end Sample

end Ahjoor.Kyc
