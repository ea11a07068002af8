import Ahjoor.Kyc.KycService

/-!
# Cases that are closed

A callback with a final status closes its case. A case that is in flight is reused by later uploads,
so several documents may carry it; but a callback sets the status of one document only, and the
others still look as if the case were in flight.

No case is reused after it has been closed as long as a closing callback finds no other document of
its case open, and nothing opens a document of a closed case again.
-/

namespace Ahjoor.Kyc

open Async Store

variable (cfg : Config)

/-! ### What is claimed -/

/-- A case of a user that a callback has closed, and when. -/
structure Closing where
  userId : Uuid
  providerCaseId : String
  closedAt : ℤ
  deriving DecidableEq

/-- The body of the callback `pid`. -/
def payloadOf (pid : ℕ) (es : Events) : Option ParsedWebhookPayload :=
  es.findSome? fun e =>
    match e with
    | .start p (.callback _ parsed) => if p = pid then some parsed else none
    | _ => none

/-- The case that an event closes: a callback **has stored a final status**. -/
def closing (es : Events) :
    Event Op.Ret World Call (Except Exc (Option KycDocument)) → Option Closing
  | .did pid (.saveDoc _) (.ok _) before => (payloadOf pid es).bind fun parsed =>
      if parsed.status.isFinal then some ⟨parsed.userId, parsed.providerCaseId, before.clock⟩ else none
  | _ => none

/-- The cases that have been closed. -/
def closings : Events → List Closing
  | [] => []
  | e :: es => (closing es e).toList ++ closings es

/-- The event begins `submitOrReuse` in the upload `pid`: it reads the clock once the new document
has been inserted. -/
def begins (pid : ℕ) (es : Events) :
    Event Op.Ret World Call (Except Exc (Option KycDocument)) → Bool
  | .did p .dateNow _ _ => p = pid &&
      (log pid es).head?.any fun e =>
        match e with
        | ⟨.insertDoc _, _⟩ => true
        | _ => false
  | _ => false

/-- The cases that had been closed when the upload began `submitOrReuse`. -/
def closingsBefore (pid : ℕ) : Events → List Closing
  | [] => []
  | e :: es => if begins pid es e then closings es else closingsBefore pid es

/-- The cases that have been closed since then. -/
def closingsSince (pid : ℕ) : Events → List Closing
  | [] => []
  | e :: es => if begins pid es e then [] else (closing es e).toList ++ closingsSince pid es

/-- **A closed case is never reused**: no upload puts its document into a case of the user that had
been closed when it began `submitOrReuse`. -/
def NeverReused (h : History) : Prop :=
  ∀ pid newDoc r, ⟨.saveSubmission newDoc, r⟩ ∈ log pid h.trace →
    ∀ x ∈ closingsBefore pid h.trace, x.userId = newDoc.userId →
      newDoc.providerCaseId ≠ some x.providerCaseId

/-! ### When it holds -/

/-- The document does not look in flight at the time `now` or later. -/
def KycDocument.settled (doc : KycDocument) (now : ℤ) : Bool :=
  doc.status.isFinal || doc.caseExpiresAt.any (· ≤ now)

/-- The case of the document is among these. -/
def KycDocument.isIn (doc : KycDocument) (xs : List Closing) : Bool :=
  xs.any fun x => doc.ofCase x.userId x.providerCaseId

/-- What a step must not do: a closing callback leaves **another document of its case** in flight; a
later callback opens a document of a closed case again; a case is closed while an upload is about to
be put into it; a provider opens a case under the id of one that is closed. -/
def keepsClosed (_ h' : History) : Bool :=
  match h'.trace with
  | .did pid (.saveDoc doc) (.ok u) before :: es =>
      match closing es (.did pid (.saveDoc doc) (.ok u) before) with
      | some x => before.docs.rows.all fun other =>
          other.id = doc.id || !other.ofCase x.userId x.providerCaseId || other.settled x.closedAt
      | none => !doc.isIn (closings es)
  | .did pid (.saveSubmission newDoc) (.ok _) _ :: es => !newDoc.isIn (closingsSince pid es)
  | .did _ (.submitVerification _ params _) (.ok result) _ :: es =>
      (closings es).all fun x =>
        x.userId ≠ params.userId || x.providerCaseId ≠ result.providerCaseId
  | _ => true

/-! ### What a request has done -/

/-- The operation looks for a case, or asks for one. -/
def Op.seeksCase : Op → Bool
  | findReusableDoc _ _ _ | submitVerification _ _ _ => true
  | _ => false

/-- A new document has no case, also when no provider has taken it; its case is **searched for as of
the beginning** of the submission, and is one that the search or a provider has answered; a callback
stores its own status. -/
def May (c : Call) (L : Log Op.Ret) : Op → Prop
  | .insertDoc doc => doc.providerCaseId = none ∧ ∀ e ∈ L, e.1.seeksCase = false
  | .findReusableDoc _ _ now => ∃ (doc : KycDocument) (r : Except Exc Uuid) (rest : Log Op.Ret),
      L = ⟨.dateNow, .ok now⟩ :: ⟨.insertDoc doc, r⟩ :: rest
  | .saveSubmission newDoc => ∃ user : User, ⟨.findUser newDoc.userId, .ok (some user)⟩ ∈ L ∧
      ((∃ (excludeDocId : Uuid) (now : ℤ) (existing : KycDocument),
          ⟨.findReusableDoc user.id excludeDocId now, .ok (some existing)⟩ ∈ L ∧
            newDoc.providerCaseId = existing.providerCaseId) ∨
        ∃ (provider : KycProvider) (params : SubmitVerificationParams) (timeoutMs : ℕ)
          (result : ProviderSubmissionResult),
          ⟨.submitVerification provider params timeoutMs, .ok result⟩ ∈ L ∧
            params.userId = user.id ∧ newDoc.providerCaseId = some result.providerCaseId)
  | .saveUnsubmitted newDoc => newDoc.providerCaseId = none
  | .saveDoc doc => ∃ provider parsed, c = .callback provider parsed ∧ doc.status = parsed.status
  | _ => True

section Bodies

variable {cfg} {c : Call} {L : Log Op.Ret}

theorem obeys_await {o : Op} {D : Log Op.Ret → Op → Prop} {Q : o.Val → Unit → Log Op.Ret → Prop}
    {X : Exc → Unit → Log Op.Ret → Prop} (hD : D L o) (hdone : ∀ v, Q v () (⟨o, .ok v⟩ :: L))
    (hfails : ∀ e, X e () (⟨o, .error e⟩ :: L)) : Obeys D (await o) Q X () L := by
  refine .call hD fun r => ?_
  cases r with
  | ok v => exact hdone v
  | error e => exact hfails e

theorem obeys_persistSubmission {doc : KycDocument} {user : User} {provider : KycProvider}
    {params : SubmitVerificationParams} {timeoutMs : ℕ} {result : ProviderSubmissionResult}
    (huser : ⟨.findUser doc.userId, .ok (some user)⟩ ∈ L) (hparams : params.userId = user.id)
    (hopened : ⟨.submitVerification provider params timeoutMs, .ok result⟩ ∈ L) (action : String) :
    Obeys (May c) (persistSubmission cfg doc provider result action) Anyhow Anyhow () L := by
  refine .bind (obeys_await trivial (fun now => ?_) fun _ => trivial)
  refine .bind (obeys_await ?_ (fun _ => ?_) fun _ => trivial)
  · exact ⟨user, List.mem_cons_of_mem _ huser, .inr ⟨provider, params, timeoutMs, result,
      List.mem_cons_of_mem _ hopened, hparams, rfl⟩⟩
  · exact .bind (obeys_await trivial (fun _ => .pure trivial) fun _ => trivial)

theorem obeys_flagForReview (user : User) {newDoc : KycDocument}
    (hcase : newDoc.providerCaseId = none) :
    Obeys (May c) (flagForReview user newDoc) Anyhow Anyhow () L := by
  refine .bind (obeys_await trivial (fun now => ?_) fun _ => trivial)
  refine .bind (obeys_await hcase (fun _ => ?_) fun _ => trivial)
  exact .bind (obeys_await trivial (fun _ => .pure trivial) fun _ => trivial)

/-- An answer of a provider is in the log, and what was in it before. -/
theorem obeys_trySubmit (provider : KycProvider) (params : SubmitVerificationParams) (userId : Uuid) :
    Obeys (May c) (trySubmit cfg provider params userId)
      (fun found _ L' => (∀ e ∈ L, e ∈ L') ∧ ∀ result, found = some result →
        ⟨.submitVerification provider params cfg.timeoutMs, .ok result⟩ ∈ L')
      Anyhow () L := by
  refine .tryCatch (.bind (obeys_await trivial (fun result => .pure ?_) fun e => ?_))
  · refine ⟨fun e he => List.mem_cons_of_mem _ he, fun result' hresult => ?_⟩
    obtain rfl : result = result' := Option.some.inj hresult
    exact List.mem_cons_self
  · refine .bind (obeys_await trivial (fun _ => .pure ⟨fun e he => ?_, by simp⟩) fun _ => trivial)
    exact List.mem_cons_of_mem _ (List.mem_cons_of_mem _ he)

theorem obeys_submitFresh {user : User} {newDoc : KycDocument}
    (huser : ⟨.findUser newDoc.userId, .ok (some user)⟩ ∈ L) (hcase : newDoc.providerCaseId = none) :
    Obeys (May c) (submitFresh cfg user newDoc) Anyhow Anyhow () L := by
  refine .bind ((obeys_trySubmit _ _ _).mono (fun primaryResult _ L₁ hfirst => ?_) fun _ _ _ h => h)
  cases primaryResult with
  | some result =>
    exact obeys_persistSubmission (hfirst.1 _ huser) rfl (hfirst.2 result rfl) _
  | none =>
    cases hsecondary : cfg.secondary.filter (· ≠ cfg.provider) with
    | none => simpa only [hsecondary] using obeys_flagForReview user hcase
    | some secondary =>
      refine .bind ((obeys_trySubmit _ _ _).mono (fun secondaryResult _ L₂ hsecond => ?_)
        fun _ _ _ h => h)
      cases secondaryResult with
      | some result =>
        exact obeys_persistSubmission (hsecond.1 _ (hfirst.1 _ huser)) rfl (hsecond.2 result rfl) _
      | none => exact obeys_flagForReview user hcase

theorem obeys_uploadDocument (userId : Uuid) (file : Buffer) :
    Obeys (May c) (uploadDocument cfg userId file) Anyhow Anyhow () [] := by
  refine .bind (obeys_await trivial (fun _ => ?_) fun _ => trivial)
  refine .bind (obeys_await trivial (fun found => ?_) fun _ => trivial)
  refine .bind (.valueOr (fun user hfound => ?_) fun _ => trivial)
  subst hfound
  refine .bind (obeys_await trivial (fun url => ?_) fun _ => trivial)
  refine .bind (obeys_await trivial (fun uploadedAt => ?_) fun _ => trivial)
  refine .bind (obeys_await ⟨rfl, by simp [Op.seeksCase]⟩ (fun id => ?_) fun _ => trivial)
  refine .bind (Obeys.mono (Q := Anyhow) (X := Anyhow) ?submit (fun doc _ L _ => ?_) fun _ _ _ h => h)
  case submit =>
    refine .bind (obeys_await trivial (fun now => ?_) fun _ => trivial)
    refine .bind (obeys_await ⟨_, _, _, rfl⟩ (fun reusable => ?_) fun _ => trivial)
    cases reusable with
    | some existing =>
      refine .bind (obeys_await ?_ (fun _ => ?_) fun _ => trivial)
      · exact ⟨user, by simp, .inl ⟨_, now, existing, List.mem_cons_self, rfl⟩⟩
      · exact .bind (obeys_await trivial (fun _ => .pure trivial) fun _ => trivial)
    | none => exact obeys_submitFresh (by simp) rfl
  refine .bind (obeys_await trivial (fun _ => ?_) fun _ => trivial)
  exact .bind (obeys_await trivial (fun _ => .pure trivial) fun _ => trivial)

theorem obeys_findDocument (parsed : ParsedWebhookPayload) :
    Obeys (May c) (findDocument parsed) Anyhow Anyhow () L := by
  refine .bind (obeys_await trivial (fun found => ?_) fun _ => trivial)
  cases found with
  | some doc => exact .pure trivial
  | none => exact obeys_await trivial (fun _ => trivial) fun _ => trivial

theorem obeys_processWebhook (provider : Option KycProvider) (parsed : ParsedWebhookPayload) :
    Obeys (May (.callback provider parsed)) (processWebhook cfg provider parsed) Anyhow Anyhow ()
      [] := by
  refine .bind (obeys_await trivial (fun found => ?_) fun _ => trivial)
  refine .bind (.valueOr (fun user _ => ?_) fun _ => trivial)
  refine .bind ((obeys_findDocument parsed).mono (fun found _ L _ => ?_) fun _ _ _ h => h)
  refine .bind (.valueOr (fun doc _ => ?_) fun _ => trivial)
  refine .bind (obeys_await trivial (fun now => ?_) fun _ => trivial)
  refine .bind (obeys_await ⟨provider, parsed, rfl, rfl⟩ (fun _ => ?_) fun _ => trivial)
  refine .bind (obeys_await trivial (fun _ => ?_) fun _ => trivial)
  refine .bind (obeys_await trivial (fun _ => ?_) fun _ => trivial)
  change Obeys _ (if parsed.status.isFinal = true then _ else _) _ _ _ _
  split
  · rw [sendKycEmail]
    split
    · exact .pure trivial
    · exact obeys_await trivial (fun _ => trivial) fun _ => trivial
  · exact .pure trivial

variable (cfg) in
theorem follows_body (c : Call) : Follows (May c) (fun _ _ => True) ((system cfg).body c) [] := by
  cases c with
  | upload userId file =>
    exact (obeys_uploadDocument userId file).follows.bind fun _ _ _ => trivial
  | callback provider parsed =>
    exact (obeys_processWebhook provider parsed).follows.bind fun _ _ _ => trivial

end Bodies

/-! ### What has been closed -/

section Closings

variable {pid : ℕ} {es : Events} {x : Closing}
  {e : Event Op.Ret World Call (Except Exc (Option KycDocument))}

theorem of_begins (h : begins pid es e = true) : ∃ r w doc r' rest,
    e = .did pid .dateNow r w ∧ log pid es = ⟨.insertDoc doc, r'⟩ :: rest := by
  cases e with
  | start p c | returned p a | crashed p => cases h
  | did p o r w =>
    cases o with
    | dateNow =>
      simp only [begins, Bool.and_eq_true, decide_eq_true_eq] at h
      obtain ⟨rfl, hhead⟩ := h
      obtain ⟨⟨o', r'⟩, hlog, hinsert⟩ := System.exists_of_any hhead
      obtain ⟨rest, hrest⟩ := List.head?_eq_some_iff.mp hlog
      cases o' with
      | insertDoc doc => exact ⟨r, w, doc, r', rest, rfl, hrest⟩
      | _ => cases hinsert
    | _ => cases h

theorem closing_of_begins (h : begins pid es e = true) : closing es e = none := by
  obtain ⟨r, w, -, -, -, rfl, -⟩ := of_begins h
  rfl

theorem mem_closings_of_before (h : x ∈ closingsBefore pid es) : x ∈ closings es := by
  induction es with
  | nil => cases h
  | cons e es ih =>
    rw [closingsBefore] at h
    split_ifs at h
    · exact List.mem_append_right _ h
    · exact List.mem_append_right _ (ih h)

/-- What has been closed was so **before the upload began**, or has been closed since. -/
theorem before_or_since (pid : ℕ) (h : x ∈ closings es) :
    x ∈ closingsBefore pid es ∨ x ∈ closingsSince pid es := by
  induction es with
  | nil => cases h
  | cons e es ih =>
    rw [closings] at h
    rw [closingsBefore, closingsSince]
    split_ifs with hbegins
    · rw [closing_of_begins hbegins] at h
      exact .inl h
    · rcases List.mem_append.mp h with hnew | hold
      · exact .inr (List.mem_append_left _ hnew)
      · exact (ih hold).imp_right (List.mem_append_right _)

theorem isIn_iff {doc : KycDocument} {xs : List Closing} :
    doc.isIn xs = true ↔ ∃ x ∈ xs, doc.ofCase x.userId x.providerCaseId = true := by
  rw [KycDocument.isIn, List.any_eq_true]

/-- The payload of a callback that has started. -/
theorem payloadOf_of_start {provider : Option KycProvider} {parsed : ParsedWebhookPayload}
    (hunique : ∀ c, Event.start pid c ∈ es → c = .callback provider parsed)
    (hstart : Event.start pid (.callback provider parsed) ∈ es) : payloadOf pid es = some parsed := by
  have hsome : (payloadOf pid es).isSome := by
    rw [payloadOf, List.findSome?_isSome_iff]
    exact ⟨_, hstart, by simp⟩
  obtain ⟨found, hfound⟩ := Option.isSome_iff_exists.mp hsome
  obtain ⟨e, he, hparsed⟩ := List.exists_of_findSome?_eq_some hfound
  rw [hfound]
  cases e with
  | start p c =>
    cases c with
    | upload userId file => cases hparsed
    | callback provider' parsed' =>
      dsimp only at hparsed
      split_ifs at hparsed with hp
      subst hp
      cases hunique _ he
      exact hparsed.symm
  | did p o r w | returned p a | crashed p => cases hparsed

end Closings

/-! ### What an operation stores -/

/-- The row that the operation stores. -/
def Op.stores (o : Op) (w : World) : Option KycDocument :=
  match o with
  | insertDoc doc => some (Entity.withId w.docs.next doc)
  | saveDoc doc => some doc
  | saveSubmission newDoc | saveUnsubmitted newDoc => some newDoc
  | _ => none

section Rows

variable {o : Op} {choice : Choice} {w w' : World} {v : o.Val}

theorem clock_of_run (h : o.run choice w = some (v, w')) : w.clock ≤ w'.clock := by
  cases o with
  | dateNow =>
    cases choice with
    | time now =>
      simp only [Op.run] at h
      split_ifs at h with hle
      cases h
      exact hle
    | _ => cases h
  | _ =>
    cases choice <;> cases h
    exact le_rfl

/-- The clock shows what is read. -/
theorem clock_of_dateNow {now : ℤ} (h : Op.dateNow.run choice w = some (now, w')) : w.clock ≤ now := by
  cases choice with
  | time t =>
    simp only [Op.run] at h
    split_ifs at h with hle
    cases h
    exact hle
  | _ => cases h

theorem docs_of_run (h : o.run choice w = some (v, w')) :
    w'.docs = (o.stores w).elim w.docs w.docs.put := by
  cases o with
  | dateNow =>
    cases choice with
    | time now =>
      simp only [Op.run] at h
      split_ifs at h
      cases h
      rfl
    | _ => cases h
  | _ =>
    cases choice <;> cases h
    rfl

/-- A row after the operation is the one that it **stores**, or was there before. -/
theorem row_of_run (h : o.run choice w = some (v, w')) {i : ℕ} {doc : KycDocument}
    (hrow : w'.docs.row i = some doc) : o.stores w = some doc ∨
      w.docs.row i = some doc ∧ ∀ new, o.stores w = some new → doc.id ≠ new.id := by
  rw [docs_of_run h] at hrow
  cases hstores : o.stores w with
  | none =>
    rw [hstores] at hrow
    exact .inr ⟨hrow, by simp⟩
  | some new =>
    rw [hstores] at hrow
    obtain rfl | hne := eq_or_ne i new.id
    · have hself := w.docs.row_put_self new
      exact .inl (congrArg some (Option.some.inj (hself.symm.trans hrow)))
    · have hold : w.docs.row i = some doc := (w.docs.row_put_of_ne hne).symm.trans hrow
      have hid : doc.id = i := w.docs.id_of_row hold
      refine .inr ⟨hold, fun new' hnew => ?_⟩
      rw [← Option.some.inj hnew, hid]
      exact hne

theorem of_findUser {userId : Uuid} {found : Option User}
    (h : (Op.findUser userId).run choice w = some (found, w')) : w.users.row userId = found := by
  cases choice <;> cases h
  rfl

theorem of_findReusableDoc {userId excludeDocId : Uuid} {now : ℤ} {found : Option KycDocument}
    (h : (Op.findReusableDoc userId excludeDocId now).run choice w = some (found, w')) :
    w.reusableDoc userId excludeDocId now = found := by
  cases choice <;> cases h
  rfl

/-- What a search has found. -/
theorem of_reusableDoc {userId excludeDocId : Uuid} {now : ℤ} {existing : KycDocument}
    (h : w.reusableDoc userId excludeDocId now = some existing) :
    w.docs.row existing.id = some existing ∧ existing.userId = userId ∧
      existing.reusable now = true := by
  obtain ⟨⟨hrow, hselected⟩, -⟩ := Table.newest_eq_some.mp h
  simp only [Bool.and_eq_true, decide_eq_true_eq] at hselected
  exact ⟨hrow, hselected.1.1, hselected.2⟩

/-- A document that is settled is not reused later. -/
theorem not_reusable_of_settled {doc : KycDocument} {then_ now : ℤ} (hle : then_ ≤ now)
    (h : doc.settled then_ = true) : doc.reusable now = false := by
  simp only [KycDocument.settled, Bool.or_eq_true] at h
  rcases h with hfinal | hexpired
  · simp [KycDocument.reusable, hfinal]
  · obtain ⟨expires, hexpires, hpast⟩ := System.exists_of_any hexpired
    have hclosed : ¬ now < expires := by
      have := of_decide_eq_true hpast
      omega
    simp [KycDocument.reusable, hexpires, hclosed]

end Rows

/-! ### The documents of a closed case -/

/-- **Closed cases stay closed**: none of their documents looks in flight, and an upload that has
begun later has found none of them, and has been given none. -/
structure Sealed (h : History) : Prop where
  past : ∀ x ∈ closings h.trace, x.closedAt ≤ h.world.clock
  rows : ∀ x ∈ closings h.trace, ∀ i doc, h.world.docs.row i = some doc →
    doc.ofCase x.userId x.providerCaseId = true → doc.settled x.closedAt = true
  known : ∀ pid userId user, ⟨.findUser userId, .ok (some user)⟩ ∈ log pid h.trace → user.id = userId
  began : ∀ pid, ∀ x ∈ closingsBefore pid h.trace, ∀ now doc r rest,
    log pid h.trace = ⟨.dateNow, .ok now⟩ :: ⟨.insertDoc doc, r⟩ :: rest → x.closedAt ≤ now
  searched : ∀ pid, ∀ x ∈ closingsBefore pid h.trace, ∀ excludeDocId now existing,
    ⟨.findReusableDoc x.userId excludeDocId now, .ok (some existing)⟩ ∈ log pid h.trace →
      existing.providerCaseId ≠ some x.providerCaseId
  opened : ∀ pid, ∀ x ∈ closingsBefore pid h.trace, ∀ provider params timeoutMs result,
    ⟨.submitVerification provider params timeoutMs, .ok result⟩ ∈ log pid h.trace →
      params.userId = x.userId → result.providerCaseId ≠ x.providerCaseId

theorem sealed_init (w : World) : Sealed ⟨w, []⟩ := by
  constructor <;> simp [closings, closingsBefore, log]

section Steps

variable {cfg} {h : History}

/-- A document is saved with a case that **had not been closed** when its upload began. -/
theorem Sealed.not_closed (hsealed : Sealed h) {pid : ℕ} {c : Call} {L : Log Op.Ret}
    (hL : ∀ e ∈ L, e ∈ log pid h.trace) {newDoc : KycDocument} (hD : May c L (.saveSubmission newDoc))
    {x : Closing} (hx : x ∈ closingsBefore pid h.trace) (huser : x.userId = newDoc.userId) :
    newDoc.providerCaseId ≠ some x.providerCaseId := by
  obtain ⟨user, hfound, hcase⟩ := hD
  have hid : user.id = x.userId := (hsealed.known pid _ user (hL _ hfound)).trans huser.symm
  rcases hcase with ⟨excludeDocId, now, existing, hmem, heq⟩ |
    ⟨provider, params, timeoutMs, result, hmem, hparams, heq⟩
  · rw [heq]
    rw [hid] at hmem
    exact hsealed.searched pid x hx excludeDocId now existing (hL _ hmem)
  · rw [heq]
    intro hsome
    exact hsealed.opened pid x hx provider params timeoutMs result (hL _ hmem) (hparams.trans hid)
      (Option.some.inj hsome)

/-- **A step that performs nothing.** -/
theorem Sealed.idle (hsealed : Sealed h) {e : Event Op.Ret World Call (Except Exc (Option KycDocument))}
    (he : ∀ pid es, log pid (e :: es) = log pid es) : Sealed (h.push e h.world) := by
  have hclosings : closings (e :: h.trace) = closings h.trace := by
    cases e with
    | did p o r w =>
      have hlog := he p []
      rw [log_did_self] at hlog
      exact absurd hlog (List.cons_ne_nil _ _)
    | start p c | returned p a | crashed p => rfl
  have hbefore : ∀ pid, closingsBefore pid (e :: h.trace) = closingsBefore pid h.trace := by
    intro pid
    cases e with
    | did p o r w =>
      have hlog := he p []
      rw [log_did_self] at hlog
      exact absurd hlog (List.cons_ne_nil _ _)
    | start p c | returned p a | crashed p => rfl
  constructor <;> simp only [Hist.push_trace, Hist.push_world, hclosings, hbefore, he]
  · exact hsealed.past
  · exact hsealed.rows
  · exact hsealed.known
  · exact hsealed.began
  · exact hsealed.searched
  · exact hsealed.opened

/-- What an operation adds to the cases that had been closed when an upload began: nothing, or the
upload **begins with it**. -/
theorem before_did {pid p : ℕ} {o : Op} {r : o.Ret} {w : World} {es : Events} {x : Closing}
    (hx : x ∈ closingsBefore p (.did pid o r w :: es)) :
    x ∈ closingsBefore p es ∨ x ∈ closings es ∧ begins p es (.did pid o r w) = true := by
  rw [closingsBefore] at hx
  split_ifs at hx with hbegins
  · exact .inr ⟨hx, hbegins⟩
  · exact .inl hx

/-- When an upload begins it has **not looked for a case** yet. -/
theorem not_seeksCase_of_begins {pid : ℕ} {c : Call} {es : Events} {o : Op} {p : ℕ} {r : o.Ret}
    {w : World} (hlawful : Lawful (May c) (log pid es)) (hbegins : begins pid es (.did p o r w) = true) :
    ∀ e ∈ log pid (.did p o r w :: es), e.1.seeksCase = false := by
  obtain ⟨r₀, w₀, doc, r', rest, heq, hlog⟩ := of_begins hbegins
  cases heq
  rw [hlog] at hlawful
  obtain ⟨⟨-, hrest⟩, -⟩ := hlawful
  intro e he
  rw [log_did_self, hlog] at he
  rcases List.mem_cons.mp he with rfl | he
  · rfl
  rcases List.mem_cons.mp he with rfl | he
  · rfl
  · exact hrest e he

theorem pid_of_begins {p pid : ℕ} {es : Events} {o : Op} {r : o.Ret} {w : World}
    (h : begins p es (.did pid o r w) = true) : pid = p := by
  obtain ⟨r₀, w₀, doc, r', rest, heq, -⟩ := of_begins h
  cases heq
  rfl

theorem of_closing {pid : ℕ} {es : Events} {o : Op} {r : o.Ret} {w : World} {x : Closing}
    (h : closing es (.did pid o r w) = some x) : (∃ doc, o = .saveDoc doc) ∧ x.closedAt = w.clock := by
  cases o with
  | saveDoc doc =>
    cases r with
    | error e => cases h
    | ok v =>
      refine ⟨⟨doc, rfl⟩, ?_⟩
      obtain ⟨parsed, -, hx⟩ := Option.bind_eq_some_iff.mp h
      split_ifs at hx
      rw [← Option.some.inj hx]
  | _ => cases h

/-! ### One operation -/

variable {pid : ℕ} {c : Call} {o : Op} {choice : Choice} {r : o.Ret} {w : World}

theorem Sealed.past_did (hsealed : Sealed h) (hexec : exec o pid choice h.world = some (r, w)) :
    ∀ x ∈ closings (.did pid o r h.world :: h.trace), x.closedAt ≤ w.clock := by
  have hclock : h.world.clock ≤ w.clock := by
    rcases exec_cases hexec with ⟨v, -, hrun⟩ | ⟨-, rfl⟩
    · exact clock_of_run hrun
    · exact le_rfl
  intro x hx
  rcases List.mem_append.mp hx with hnew | hold
  · rw [(of_closing (Option.mem_toList.mp hnew)).2]
    exact hclock
  · exact (hsealed.past x hold).trans hclock

/-- **What is stored** does not open a closed case. -/
theorem Sealed.settled_of_stored (hsealed : Sealed h)
    (hd : Disciplined May (fun _ _ _ => True) h) (hstart : Event.start pid c ∈ h.trace)
    (hD : May c (log pid h.trace) o) {v : o.Val}
    (hok : keepsClosed h (h.push (.did pid o (.ok v) h.world) w) = true) {new : KycDocument}
    (hstores : o.stores h.world = some new) :
    ∀ x ∈ closings (.did pid o (.ok v) h.world :: h.trace),
      new.ofCase x.userId x.providerCaseId = true → new.settled x.closedAt = true := by
  intro x hx hcase
  cases o with
  | insertDoc doc =>
    obtain rfl := Option.some.inj hstores
    have hnone : (Entity.withId h.world.docs.next doc).providerCaseId = none := hD.1
    simp [KycDocument.ofCase, hnone] at hcase
  | saveDoc doc =>
    obtain rfl := Option.some.inj hstores
    obtain ⟨provider, parsed, rfl, hstatus⟩ := hD
    have hpayload : payloadOf pid h.trace = some parsed :=
      payloadOf_of_start (fun c' hc' => hd.start_unique pid c' _ hc' hstart) hstart
    by_cases hfinal : parsed.status.isFinal = true
    · rw [KycDocument.settled, hstatus, hfinal, Bool.true_or]
    · have hclosing : closing h.trace (.did pid (.saveDoc doc) (.ok v) h.world) = none := by
        simp [closing, hpayload, hfinal]
      rw [closings, hclosing] at hx
      have hin : doc.isIn (closings h.trace) = true := isIn_iff.mpr ⟨x, hx, hcase⟩
      simp [keepsClosed, hclosing, hin] at hok
  | saveSubmission newDoc =>
    obtain rfl := Option.some.inj hstores
    obtain ⟨huser, hid⟩ : newDoc.userId = x.userId ∧ newDoc.providerCaseId = some x.providerCaseId :=
      ofCase_iff.mp hcase
    rcases before_or_since pid (show x ∈ closings h.trace from hx) with hbefore | hsince
    · exact absurd hid (hsealed.not_closed (fun _ he => he) hD hbefore huser.symm)
    · have hin : newDoc.isIn (closingsSince pid h.trace) = true := isIn_iff.mpr ⟨x, hsince, hcase⟩
      simp [keepsClosed, hin] at hok
  | saveUnsubmitted newDoc =>
    obtain rfl := Option.some.inj hstores
    have hnone : newDoc.providerCaseId = none := hD
    simp [KycDocument.ofCase, hnone] at hcase
  | _ => cases hstores

theorem Sealed.rows_did (hsealed : Sealed h)
    (hd : Disciplined May (fun _ _ _ => True) h) (hstart : Event.start pid c ∈ h.trace)
    (hD : May c (log pid h.trace) o) (hexec : exec o pid choice h.world = some (r, w))
    (hok : keepsClosed h (h.push (.did pid o r h.world) w) = true) :
    ∀ x ∈ closings (.did pid o r h.world :: h.trace), ∀ i doc, w.docs.row i = some doc →
      doc.ofCase x.userId x.providerCaseId = true → doc.settled x.closedAt = true := by
  intro x hx i doc hrow hcase
  rcases exec_cases hexec with ⟨v, rfl, hrun⟩ | ⟨⟨e, rfl⟩, rfl⟩
  · rcases row_of_run hrun hrow with hstores | ⟨hold, hother⟩
    · exact hsealed.settled_of_stored hd hstart hD hok hstores x hx hcase
    · rcases List.mem_append.mp hx with hnew | hclosed
      · -- the case is closed by this step, which has found its other documents settled
        have hclosing := Option.mem_toList.mp hnew
        obtain ⟨⟨stored, rfl⟩, -⟩ := of_closing hclosing
        simp only [keepsClosed, Hist.push_trace, Option.mem_def.mp hclosing, List.all_eq_true] at hok
        obtain rfl : doc.id = i := h.world.docs.id_of_row hold
        have hmem : doc ∈ h.world.docs.rows := h.world.docs.mem_rows.mpr hold
        have hne : doc.id ≠ stored.id := hother stored rfl
        simpa [hne, hcase] using hok doc hmem
      · exact hsealed.rows x hclosed i doc hold hcase
  · have hnone : closing h.trace (.did pid o (.error e) h.world) = none := by
      cases o <;> rfl
    rw [closings, hnone] at hx
    exact hsealed.rows x hx i doc hrow hcase

theorem Sealed.known_did (hsealed : Sealed h) (hexec : exec o pid choice h.world = some (r, w)) :
    ∀ p userId user, ⟨.findUser userId, .ok (some user)⟩ ∈ log p (.did pid o r h.world :: h.trace) →
      user.id = userId := by
  intro p userId user hmem
  rcases mem_log_did hmem with hold | ⟨-, heq⟩
  · exact hsealed.known p userId user hold
  · cases heq
    rcases exec_cases hexec with ⟨v, heq, hrun⟩ | ⟨⟨e, heq⟩, -⟩
    · obtain rfl := Except.ok.inj heq
      exact h.world.users.id_of_row (of_findUser hrun)
    · cases heq

theorem Sealed.began_did (hsealed : Sealed h) (hexec : exec o pid choice h.world = some (r, w)) :
    ∀ p, ∀ x ∈ closingsBefore p (.did pid o r h.world :: h.trace), ∀ now doc r' rest,
      log p (.did pid o r h.world :: h.trace) = ⟨.dateNow, .ok now⟩ :: ⟨.insertDoc doc, r'⟩ :: rest →
        x.closedAt ≤ now := by
  intro p x hx now doc r' rest hlog
  obtain rfl | hne := eq_or_ne pid p
  · rw [log_did_self] at hlog
    obtain ⟨hentry, -⟩ := List.cons.inj hlog
    cases hentry
    have hclosed : x ∈ closings h.trace := (before_did hx).elim mem_closings_of_before And.left
    rcases exec_cases hexec with ⟨v, heq, hrun⟩ | ⟨⟨e, heq⟩, -⟩
    · obtain rfl := Except.ok.inj heq
      exact (hsealed.past x hclosed).trans (clock_of_dateNow hrun)
    · cases heq
  · rw [log_cons_of_ne (e := .did pid o r h.world) hne] at hlog
    rcases before_did hx with hbefore | ⟨-, hbegins⟩
    · exact hsealed.began p x hbefore now doc r' rest hlog
    · exact absurd (pid_of_begins hbegins) hne

theorem Sealed.searched_did (hsealed : Sealed h)
    (hd : Disciplined May (fun _ _ _ => True) h) (hstart : Event.start pid c ∈ h.trace)
    (hD : May c (log pid h.trace) o) (hexec : exec o pid choice h.world = some (r, w)) :
    ∀ p, ∀ x ∈ closingsBefore p (.did pid o r h.world :: h.trace), ∀ excludeDocId now existing,
      ⟨.findReusableDoc x.userId excludeDocId now, .ok (some existing)⟩ ∈
          log p (.did pid o r h.world :: h.trace) →
        existing.providerCaseId ≠ some x.providerCaseId := by
  intro p x hx excludeDocId now existing hmem
  rcases before_did hx with hbefore | ⟨-, hbegins⟩
  · rcases mem_log_did hmem with hold | ⟨rfl, heq⟩
    · exact hsealed.searched p x hbefore excludeDocId now existing hold
    · cases heq
      obtain ⟨doc, r', rest, hlog⟩ := hD
      have hle := hsealed.began p x hbefore now doc r' rest hlog
      rcases exec_cases hexec with ⟨v, heq, hrun⟩ | ⟨⟨e, heq⟩, -⟩
      · obtain rfl := Except.ok.inj heq
        obtain ⟨hrow, huser, hreusable⟩ := of_reusableDoc (of_findReusableDoc hrun)
        intro hcase
        have hsettled := hsealed.rows x (mem_closings_of_before hbefore) _ existing hrow
          (ofCase_iff.mpr ⟨huser, hcase⟩)
        rw [not_reusable_of_settled hle hsettled] at hreusable
        cases hreusable
      · cases heq
  · obtain rfl := pid_of_begins hbegins
    exact absurd (not_seeksCase_of_begins (hd.lawful pid c hstart) hbegins _ hmem) (by simp [Op.seeksCase])

theorem Sealed.opened_did (hsealed : Sealed h)
    (hd : Disciplined May (fun _ _ _ => True) h) (hstart : Event.start pid c ∈ h.trace)
    (hok : keepsClosed h (h.push (.did pid o r h.world) w) = true) :
    ∀ p, ∀ x ∈ closingsBefore p (.did pid o r h.world :: h.trace), ∀ provider params timeoutMs result,
      ⟨.submitVerification provider params timeoutMs, .ok result⟩ ∈
          log p (.did pid o r h.world :: h.trace) →
        params.userId = x.userId → result.providerCaseId ≠ x.providerCaseId := by
  intro p x hx provider params timeoutMs result hmem huser
  rcases before_did hx with hbefore | ⟨-, hbegins⟩
  · rcases mem_log_did hmem with hold | ⟨rfl, heq⟩
    · exact hsealed.opened p x hbefore provider params timeoutMs result hold huser
    · cases heq
      simp only [keepsClosed, Hist.push_trace, List.all_eq_true] at hok
      have hfresh := hok x (mem_closings_of_before hbefore)
      simp only [huser, Bool.or_eq_true, decide_eq_true_eq, ne_eq, not_true_eq_false, false_or] at hfresh
      exact fun heq => hfresh heq.symm
  · obtain rfl := pid_of_begins hbegins
    exact absurd (not_seeksCase_of_begins (hd.lawful pid c hstart) hbegins _ hmem) (by simp [Op.seeksCase])

/-- **What a step keeps.** -/
theorem Sealed.step {h' : History} (hsealed : Sealed h) (hd : Disciplined May (fun _ _ _ => True) h)
    (hs : HistStep (system cfg) May h h') (hok : keepsClosed h h' = true) : Sealed h' := by
  cases hs with
  | idle e he hlive => exact hsealed.idle he
  | did pid c o choice r w hstart hD hexec hlive =>
    have hexec : exec o pid choice h.world = some (r, w) := hexec
    exact ⟨hsealed.past_did hexec, hsealed.rows_did hd hstart hD hexec hok, hsealed.known_did hexec,
      hsealed.began_did hexec, hsealed.searched_did hd hstart hD hexec,
      hsealed.opened_did hd hstart hok⟩

end Steps

/-- **A closed case is never reused** in every run whose steps keep closed cases closed. -/
theorem neverReused_of_keepsClosed {w : World}
    {s : State Op.Ret World Call (Except Exc (Option KycDocument))}
    (hs : (system cfg).ReachableWhen (fun h h' => keepsClosed h h' = true) (.init w) s) :
    NeverReused s.hist := by
  have hsealed : Sealed s.hist := hist_invariant (follows_body cfg) (I := Sealed)
    (sealed_init w) (fun _ _ hd _ hsealed hstep hok => hsealed.step hd hstep hok) hs
  have hd := disciplined_of_reachable (follows_body cfg) hs
  intro pid newDoc r hmem x hx huser
  obtain ⟨before, hdid⟩ := mem_log.mp hmem
  obtain ⟨c, hstart⟩ := hd.start_mem _ hdid
  obtain ⟨L, hsuffix, hD⟩ := (hd.lawful pid c hstart).allowed hmem
  refine hsealed.not_closed (fun e he => ?_) hD hx huser
  exact hsuffix.subset (List.mem_cons_of_mem _ he)

namespace Sample

/-! ### A user who uploads again -/

/-- Nothing is configured. -/
def unset : Config where
  sha256 _ := "3a7bd3e2360a3d29eea436fcfb7e44c735d117c42d1c1835420b6b9942dd4f1b"

/-- A user without documents. -/
def newcomer : World where
  users := (Table.empty.insert { id := 0, email := some "ada@example.com" }).2
  docs := .empty
  clock := 0

/-- An upload up to the search for a case. -/
def received (pid : ℕ) (now : ℤ) : List (Move Choice Call) :=
  [.start (.upload 0 [37, 80, 68, 70]), .run pid .done, .run pid .done, .run pid (.kept "kyc/0/id.pdf"),
    .run pid (.time now), .run pid .done, .run pid (.time now), .run pid .done]

/-- The document goes into the case that the search has found. -/
def reused (pid : ℕ) : List (Move Choice Call) :=
  [.run pid .done, .run pid .done, .run pid .done, .run pid .done, .finish pid]

/-- The provider opens a case. -/
def opened (pid : ℕ) (now : ℤ) (providerCaseId : String) : List (Move Choice Call) :=
  [.run pid (.opened ⟨providerCaseId, "pending"⟩), .run pid (.time now)] ++ reused pid

/-- The provider approves the case. -/
def approved (pid : ℕ) (now : ℤ) (providerCaseId : String) : List (Move Choice Call) :=
  [.start (.callback (some .persona) ⟨0, providerCaseId, .approved, none⟩), .run pid .done,
    .run pid .done, .run pid (.time now), .run pid .done, .run pid .done, .run pid .done,
    .run pid .done, .finish pid]

/-- The upload has put a document into the case. -/
def into (h : History) (pid : ℕ) (providerCaseId : String) : Bool :=
  (log pid h.trace).any fun e =>
    match e with
    | ⟨.saveSubmission newDoc, .ok _⟩ => newDoc.ofCase 0 providerCaseId
    | _ => false

/-- The user uploads again after the case has been approved, and gets a new one. -/
theorem neverReused_sample :
    ∃ s, (system unset).ReachableWhen (fun h h' => keepsClosed h h' = true) (.init newcomer) s ∧
      closingsBefore 2 s.hist.trace = [⟨0, "inq_a", 20⟩] ∧ into s.hist 2 "inq_b" = true ∧
        NeverReused s.hist := by
  obtain ⟨s, hs, hp⟩ := System.exists_of_replay (system unset) (fun h h' => keepsClosed h h' = true)
    (.init newcomer) (received 0 10 ++ opened 0 10 "inq_a" ++ approved 1 20 "inq_a" ++
      received 2 30 ++ opened 2 30 "inq_b")
    (fun s => decide (closingsBefore 2 s.hist.trace = [⟨0, "inq_a", 20⟩]) && into s.hist 2 "inq_b")
    (by decide +kernel)
  simp only [Bool.and_eq_true, decide_eq_true_eq] at hp
  exact ⟨s, hs, hp.1, hp.2, neverReused_of_keepsClosed unset hs⟩

/-- **A closed case is reused.** The approval reaches the second document of the case only, and the
third upload finds the first one. -/
theorem not_neverReused :
    ¬ ∀ s, (system unset).Reachable (.init newcomer) s → NeverReused s.hist := by
  intro h
  obtain ⟨s, hs, hp⟩ := System.exists_of_replay (system unset) (fun _ _ => True) (.init newcomer)
    (received 0 10 ++ opened 0 10 "inq_a" ++ received 1 15 ++ reused 1 ++ approved 2 20 "inq_a" ++
      received 3 30 ++ reused 3)
    (fun s => decide (closingsBefore 3 s.hist.trace = [⟨0, "inq_a", 20⟩]) && into s.hist 3 "inq_a")
    (by decide +kernel)
  simp only [Bool.and_eq_true, decide_eq_true_eq] at hp
  obtain ⟨hclosed, hinto⟩ := hp
  obtain ⟨⟨o, r⟩, hmem, hsaves⟩ := List.any_eq_true.mp hinto
  cases o with
  | saveSubmission newDoc =>
    cases r with
    | error e => cases hsaves
    | ok u =>
      obtain ⟨huser, hcase⟩ := ofCase_iff.mp hsaves
      exact h s hs 3 newDoc _ hmem ⟨0, "inq_a", 20⟩ (by rw [hclosed]; exact List.mem_singleton_self _)
        huser.symm hcase
  | _ => cases hsaves

end Sample

end Ahjoor.Kyc
