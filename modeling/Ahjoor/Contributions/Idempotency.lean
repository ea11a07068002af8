import Ahjoor.Contributions.Requests
import Mathlib.Data.List.TakeWhile

/-!
# Requests with one idempotency key

Any number of identical requests with one key run at the same time. At most one of them stores its
contribution, since the table has its unique constraints, and what a request returns is the row with
the key.

A request that has missed the row in its first lookup may still get the lock after the row has been
stored, since the lock is given back on every exit and the lookup is not repeated. Then its insertion
is ignored, and it ends in a conflict although another request has returned the row
(`not_idempotent`). As long as a request that gets the lock finds no row with the key, none does.
-/

namespace Ahjoor

open Async Store

/-! ### The requests -/

section

variable (sdk : Sdk) (cfg : Config) (dto : CreateContributionDto) (key : String)

/-- Any number of identical requests with one key. They may poll differently often. -/
def repeatedSystem : System Op.Ret Choice World ℕ (Except Exc Contribution) where
  exec := exec
  body polls := ContributionRequest.body sdk cfg ⟨polls, dto, some key⟩

end

/-- A history of the requests. -/
abbrev RepeatHist := Hist Op.Ret World ℕ (Except Exc Contribution)

/-- A state of the requests. -/
abbrev RepeatState := State Op.Ret World ℕ (Except Exc Contribution)

/-! ### The constraints of the table -/

/-- The two rows cannot be in the table together. -/
def Contribution.collides (a b : Contribution) : Prop :=
  a.transactionHash = b.transactionHash ∨
    (a.userId = b.userId ∧ a.groupId = b.groupId ∧ a.roundNumber = b.roundNumber) ∨
      a.idempotencyKey.isSome = true ∧ a.idempotencyKey = b.idempotencyKey

theorem Contribution.collides_comm {a b : Contribution} : a.collides b ↔ b.collides a := by
  have hkey : (a.idempotencyKey.isSome = true ∧ a.idempotencyKey = b.idempotencyKey) ↔
      b.idempotencyKey.isSome = true ∧ b.idempotencyKey = a.idempotencyKey := by
    constructor <;> rintro ⟨hsome, heq⟩ <;> exact ⟨heq ▸ hsome, heq.symm⟩
  rw [Contribution.collides, Contribution.collides, hkey]
  refine or_congr eq_comm (or_congr ?_ Iff.rfl)
  exact and_congr eq_comm (and_congr eq_comm eq_comm)

/-- **The unique constraints** of the contributions. -/
def Database.Unique (d : Database) : Prop :=
  ∀ i j a b, d.contributions.row i = some a → d.contributions.row j = some b → i ≠ j → ¬ a.collides b

/-- There is a conflict exactly with a row that collides. -/
theorem contributionConflict_eq_none {d : Database} {c : Contribution} :
    d.contributionConflict c = none ↔
      ∀ i b, d.contributions.row i = some b → i ≠ c.id → ¬ c.collides b := by
  have hmem : ∀ b, b ∈ d.contributions.filter (fun c' => c'.id != c.id) ↔
      d.contributions.row b.id = some b ∧ b.id ≠ c.id := fun b => by
    rw [Table.mem_filter, bne_iff_ne]
    rfl
  constructor
  · intro hnone i b hrow hne hcollides
    have hid : b.id = i := d.contributions.id_of_row hrow
    have hb := (hmem b).mpr ⟨by rw [hid]; exact hrow, hid ▸ hne⟩
    unfold Database.contributionConflict at hnone
    dsimp only at hnone
    split_ifs at hnone with htx huser hkey
    rcases hcollides with h | ⟨h₁, h₂, h₃⟩ | ⟨hsome, h⟩
    · exact htx (List.any_eq_true.mpr ⟨b, hb, beq_iff_eq.mpr h.symm⟩)
    · refine huser (List.any_eq_true.mpr ⟨b, hb, ?_⟩)
      simp [h₁, h₂, h₃]
    · refine hkey (Bool.and_eq_true_iff.mpr ⟨hsome, List.any_eq_true.mpr ⟨b, hb, ?_⟩⟩)
      exact beq_iff_eq.mpr h.symm
  · intro h
    have hno : ∀ b ∈ d.contributions.filter (fun c' => c'.id != c.id), ¬ c.collides b :=
      fun b hb => h b.id b ((hmem b).mp hb).1 ((hmem b).mp hb).2
    unfold Database.contributionConflict
    dsimp only
    rw [if_neg, if_neg, if_neg]
    · intro hkey
      obtain ⟨hsome, hany⟩ := Bool.and_eq_true_iff.mp hkey
      obtain ⟨b, hb, heq⟩ := List.any_eq_true.mp hany
      exact hno b hb (.inr (.inr ⟨hsome, (beq_iff_eq.mp heq).symm⟩))
    · intro hany
      obtain ⟨b, hb, heq⟩ := List.any_eq_true.mp hany
      simp only [Bool.and_eq_true, beq_iff_eq] at heq
      exact hno b hb (.inr (.inl ⟨heq.1.1.symm, heq.1.2.symm, heq.2.symm⟩))
    · intro hany
      obtain ⟨b, hb, heq⟩ := List.any_eq_true.mp hany
      exact hno b hb (.inl (beq_iff_eq.mp heq).symm)

/-! ### What is claimed -/

/-- **Identical requests count as one**: at most one row is stored since `w₀`, whoever returns
normally returns the one row, and once a request has returned it, no other one goes on and ends in a
conflict. -/
structure Idempotent (key : String) (w₀ : World) (h : RepeatHist) : Prop where
  once : ∃ id, (∀ i c, h.world.db.contributions.row i = some c →
      w₀.db.contributions.row i = none → i = id) ∧
    ∀ pid c, .returned pid (.ok c) ∈ h.trace → c.id = id ∧ c.idempotencyKey = some key ∧
      ∃ s, h.world.db.contributions.row id = some { c with status := s }
  settled : ∀ newer older pid c, h.trace = newer ++ Event.returned pid (.ok c) :: older →
    ∀ pid' o r w e, .did pid' o r w ∈ newer → .returned pid' (.error e) ∈ newer →
      e.hasStatus 409 = false

/-! ### The lock -/

/-- The process has ended. -/
def hasEnded (pid : ℕ) (es : List (Event Op.Ret World ℕ (Except Exc Contribution))) : Bool :=
  es.any fun e => e.isEnd && e.pid == pid

/-- The lock of the key **lasts while it is held**: a request that gets it although it is there gets
it from one that has ended. -/
def lockLasts (key : String) (h h' : RepeatHist) : Bool :=
  match h'.trace with
  | .did _ (.setIfNotExists k) acquired _ :: es =>
      !acquired || !h.world.locks k ||
        es.all fun e => !holds key (log e.pid es) || hasEnded e.pid es
  | _ => true

/-- A request that gets the lock **finds no row with the key**. -/
def comesFirst (key : String) (h h' : RepeatHist) : Bool :=
  match h'.trace with
  | .did _ (.setIfNotExists _) acquired _ :: _ =>
      !acquired || (h.world.db.contributions.find? (byKey key).selects).isNone
  | _ => true

/-! ### What a run keeps of the rows -/

section Rows

variable {sdk : Sdk} {cfg : Config} {dto : CreateContributionDto} {key : String} {w₀ : World}
  {h h' : RepeatHist}

/-- A step of the requests. -/
abbrev RepeatStep (sdk : Sdk) (cfg : Config) (dto : CreateContributionDto) (key : String)
    (h h' : RepeatHist) : Prop :=
  HistStep (repeatedSystem sdk cfg dto key) (fun _ => MayRequest dto (some key)) h h'

/-- The row is there, up to its status. -/
def Stored (d : Database) (c : Contribution) : Prop :=
  ∃ s, d.contributions.row c.id = some { c with status := s }

/-- What a run keeps of the rows, and of what the requests have seen of them. -/
structure Rows (key : String) (w₀ : World) (h : RepeatHist) : Prop where
  unique : h.world.db.Unique
  created : ∀ i c, h.world.db.contributions.row i = some c → w₀.db.contributions.row i = none →
    c.idempotencyKey = some key
  found : ∀ pid sel c, ⟨.db (.findContribution sel), .ok (some c)⟩ ∈ log pid h.trace →
    Stored h.world.db c ∧ sel.selects c = true
  inserted : ∀ pid row id, ⟨.db (.insertContributionOrIgnore row), .ok (some id)⟩ ∈ log pid h.trace →
    ∃ c, h.world.db.contributions.row id = some c ∧ c.idempotencyKey = some key
  sound : ∀ pid, ¬ Vanished key (log pid h.trace)
  calm : ∀ pid entry e, entry ∈ log pid h.trace → raises entry = some e → e.clashes = false

/-- The contributions after a step. -/
theorem wrote_step (hstep : RepeatStep sdk cfg dto key h h') :
    ∃ o, Wrote h.world.db o h'.world.db.contributions ∧
      ∀ row, o = .db (.insertContributionOrIgnore row) → ∃ pid r,
        h'.trace = .did pid o r h.world :: h.trace ∧
          MayRequest dto (some key) (log pid h.trace) o ∧ ∀ e ∈ h.trace, e.isEnd = true → e.pid ≠ pid := by
  cases hstep with
  | idle e he hlive => exact ⟨.now, .nothing _, fun row ho => nomatch ho⟩
  | did pid c o choice r w hstart hrule hexec hlive =>
    exact ⟨o, wrote_of_exec hrule hexec, fun row _ => ⟨pid, r, rfl, hrule, hlive⟩⟩

theorem Stored.step {c : Contribution} (hc : Stored h.world.db c)
    (hstep : RepeatStep sdk cfg dto key h h') : Stored h'.world.db c := by
  obtain ⟨s, hrow⟩ := hc
  obtain ⟨o, hwrote, -⟩ := wrote_step hstep
  obtain ⟨s', hrow'⟩ := hwrote.kept hrow
  exact ⟨s', hrow'⟩

/-- What a request inserts is a contribution of its own. -/
theorem file_row {L : Log Op.Ret} {row : Contribution}
    (h : MayRequest dto (some key) L (.db (.insertContributionOrIgnore row))) :
    ∃ group locked, row = ContributionsService.newContribution dto (some key) group locked ∧
      Holding (some key) L ∧ Unfiled L := by
  cases h with
  | spare hspare => cases hspare
  | file group locked hlooked hholding hunfiled => exact ⟨group, locked, rfl, hholding, hunfiled⟩

/-- The constraints hold after a step. -/
theorem Database.Unique.step (hu : h.world.db.Unique) (hstep : RepeatStep sdk cfg dto key h h') :
    h'.world.db.Unique := by
  obtain ⟨o, hwrote, -⟩ := wrote_step hstep
  intro i j a b ha hb hij
  rcases hwrote.origin ha with ⟨s, ha'⟩ | ⟨row, -, -, hi, hfree⟩
  · rcases hwrote.origin hb with ⟨s', hb'⟩ | ⟨row, -, -, hj, hfree⟩
    · have hno := hu i j _ _ ha' hb' hij
      exact hno
    · have hid : b.id = j := h'.world.db.contributions.id_of_row hb
      have hcollides := contributionConflict_eq_none.mp hfree i _ ha' (hid ▸ hij)
      exact fun h => hcollides (Contribution.collides_comm.mp h)
  · rcases hwrote.origin hb with ⟨s', hb'⟩ | ⟨row', -, -, hj, -⟩
    · have hid : a.id = i := h'.world.db.contributions.id_of_row ha
      have hno := contributionConflict_eq_none.mp hfree j _ hb' (hid ▸ hij.symm)
      exact hno
    · exact absurd (hi.trans hj.symm) hij

theorem selects_byKey {c : Contribution} :
    (byKey key).selects c = true ↔ c.idempotencyKey = some key := by
  simp only [ContributionWhere.selects, byKey, given, Option.all_none, Bool.true_and, Bool.and_true,
    Option.isNone_some, Bool.false_or, beq_iff_eq]
  exact eq_comm

theorem selects_byId {id : Uuid} {c : Contribution} : (byId id).selects c = true ↔ c.id = id := by
  simp only [ContributionWhere.selects, byId, given, Option.all_some, Option.all_none,
    Option.isNone_none, Bool.true_or, Bool.and_true, beq_iff_eq]
  exact eq_comm

/-- A row that a request knows of is there, and has the key. -/
theorem Rows.sighted (hr : Rows key w₀ h) {pid : ℕ} {id : Uuid}
    (hs : Sighted key id (log pid h.trace)) :
    ∃ c, h.world.db.contributions.row id = some c ∧ c.idempotencyKey = some key := by
  rcases hs with ⟨c, rfl, hmem⟩ | ⟨row, hmem⟩
  · obtain ⟨⟨s, hrow⟩, hselects⟩ := hr.found pid _ c hmem
    exact ⟨_, hrow, selects_byKey.mp hselects⟩
  · exact hr.inserted pid row id hmem

/-- **What a request returns** is the row with the key. -/
theorem Rows.came (hr : Rows key w₀ h) {pid : ℕ} {c : Contribution}
    (hc : Came key c (log pid h.trace)) : Stored h.world.db c ∧ c.idempotencyKey = some key := by
  obtain ⟨sel, c₁, hmem, hsel, hcopy⟩ := hc
  obtain ⟨⟨s, hrow⟩, hselects⟩ := hr.found pid sel c₁ hmem
  have hid : c.id = c₁.id := by rw [hcopy]
  have hkey : c.idempotencyKey = c₁.idempotencyKey := by rw [hcopy]
  refine ⟨⟨s, ?_⟩, ?_⟩
  · rw [hid, hrow, hcopy]
  · rw [hkey]
    rcases hsel with rfl | ⟨id, rfl, hsighted⟩
    · exact selects_byKey.mp hselects
    · obtain ⟨c₂, hrow₂, hkey₂⟩ := hr.sighted hsighted
      rw [← selects_byId.mp hselects, hrow] at hrow₂
      rw [← Option.some.inj hrow₂] at hkey₂
      exact hkey₂

/-- **No operation of a request raises a conflict** that reaches the caller. -/
theorem calm_of_exec {L : Log Op.Ret} {o : Op} {pid : ℕ} {choice : Choice} {w w' : World} {r : o.Ret}
    {e : Exc} (hu : w.db.Unique) (hrule : MayRequest dto (some key) L o)
    (hexec : exec o pid choice w = some (r, w')) (he : raises ⟨o, r⟩ = some e) : e.clashes = false := by
  have hquery : ∀ {q : Query} {r : Except Exc q.Ret}, exec (.db q) pid choice w = some (r, w') →
      (∀ e, (q.eval w.db).1 ≠ .error e) → r = .error e → e.clashes = false := by
    rintro q r hexec hok rfl
    rcases exec_db hexec with ⟨hr, -⟩ | ⟨⟨msg, hr⟩, -⟩
    · exact absurd hr.symm (hok e)
    · rw [Except.error.inj hr]
      rfl
  have herror : ∀ {q : Query} {r : Except Exc q.Ret}, raises ⟨.db q, r⟩ = some e → r = .error e := by
    intro q r hraises
    cases r with
    | ok a => cases q <;> cases hraises
    | error e' => cases q <;> first | exact congrArg _ (Option.some.inj hraises) | cases hraises
  cases hrule with
  | spare hspare =>
    cases o with
    | db q =>
      cases q with
      | insertPayout p => cases he
      | insertContribution c | insertContributionOrIgnore c | updateContribution i p | saveMembership m =>
        cases hspare
      | _ => exact hquery hexec (fun _ => nofun) (herror he)
    | ask q =>
      cases choice with
      | fails msg =>
        cases hexec
        rw [← Option.some.inj he]
        rfl
      | answer a =>
        obtain ⟨v, -, hv⟩ := Option.map_eq_some_iff.mp hexec
        cases hv
        cases he
      | _ => cases hexec
    | emit x =>
      cases choice with
      | fails msg =>
        cases hexec
        rw [← Option.some.inj he]
        rfl
      | done =>
        cases hexec
        cases he
      | _ => cases hexec
    | _ => cases he
  | save hreread => exact hquery hexec (fun _ => nofun) (herror he)
  | file group locked hlooked hholding hunfiled =>
    refine hquery hexec (fun e' heval => ?_) (herror he)
    simp only [Query.eval] at heval
    split at heval <;> cases heval
  | submit id =>
    refine hquery hexec (fun e' heval => ?_) (herror he)
    simp only [Query.eval] at heval
    split at heval
    · cases heval
    · next c hrow =>
      split at heval
      · next constraint hconflict =>
        have hid : c.id = id := w.db.contributions.id_of_row hrow
        have hnone : w.db.contributionConflict
            (({ status := some .onChainSubmitted } : ContributionPatch).apply c) = none := by
          refine contributionConflict_eq_none.mpr fun i b hb hne hcollides => ?_
          have hne' : id ≠ i := fun h => hne (h.symm.trans hid.symm)
          exact hu id i c b hrow hb hne' hcollides
        rw [hnone] at hconflict
        cases hconflict
      · cases heval
  | acquire hkey hne => cases he
  | release hkey hholds => cases he

/-- What a lookup finds is in the table. -/
theorem found_of_exec {sel : ContributionWhere} {c : Contribution} {pid : ℕ} {choice : Choice}
    {w w' : World}
    (hexec : exec (.db (.findContribution sel)) pid choice w = some (.ok (some c), w')) :
    w'.db.contributions.row c.id = some c ∧ sel.selects c = true := by
  obtain ⟨heval, rfl⟩ := exec_db_ok hexec
  have hfind : w.db.contributions.find? sel.selects = some c := Except.ok.inj heval
  exact Table.of_find?_eq_some hfind

/-- An insertion that answers with an id has stored the row. -/
theorem inserted_of_exec {row : Contribution} {id : Uuid} {pid : ℕ} {choice : Choice} {w w' : World}
    (hexec : exec (.db (.insertContributionOrIgnore row)) pid choice w = some (.ok (some id), w')) :
    w'.db.contributions.row id = some { row with id } := by
  obtain ⟨heval, rfl⟩ := exec_db_ok hexec
  simp only [Query.eval] at heval ⊢
  split at heval
  · cases heval
  · next hfree =>
    obtain rfl : w.db.contributions.next = id := Option.some.inj (Except.ok.inj heval)
    exact Table.row_put_self _ _

/-- A lookup by an id that finds nothing is one for a row that is not there. -/
theorem missed_of_exec {sel : ContributionWhere} {pid : ℕ} {choice : Choice} {w w' : World}
    (hexec : exec (.db (.findContribution sel)) pid choice w = some (.ok none, w')) {i : ℕ}
    {c : Contribution} (hrow : w.db.contributions.row i = some c) : sel.selects c = false := by
  have hfind : w.db.contributions.find? sel.selects = none :=
    Except.ok.inj (exec_db_ok hexec).1
  exact Table.find?_eq_none.mp hfind i c hrow

/-- What a step adds to the log of a request. -/
structure Added (dto : CreateContributionDto) (key : String) (pid : ℕ) (h h' : RepeatHist)
    (e : Entry Op.Ret) : Prop where
  log : log pid h'.trace = e :: log pid h.trace
  rule : MayRequest dto (some key) (Async.log pid h.trace) e.1
  live : ∀ e' ∈ h.trace, e'.isEnd = true → e'.pid ≠ pid
  exec : ∃ choice, Ahjoor.exec e.1 pid choice h.world = some (e.2, h'.world)

/-- The log of a request after a step. -/
theorem log_step (hstep : RepeatStep sdk cfg dto key h h') (pid : ℕ) :
    log pid h'.trace = log pid h.trace ∨ ∃ e, Added dto key pid h h' e := by
  cases hstep with
  | idle e he hlive => exact .inl (he pid _)
  | did p c o choice r w hstart hrule hexec hlive =>
    by_cases hp : p = pid
    · subst hp
      exact .inr ⟨⟨o, r⟩, log_did_self _ _ _ _ _, hrule, hlive, choice, hexec⟩
    · exact .inl (log_cons_of_ne (e := .did p o r h.world) hp _)

theorem mem_log_step (hstep : RepeatStep sdk cfg dto key h h') {pid : ℕ} {e : Entry Op.Ret}
    (he : e ∈ log pid h'.trace) : e ∈ log pid h.trace ∨ Added dto key pid h h' e := by
  rcases log_step hstep pid with hsame | ⟨e', hadded⟩
  · exact .inl (hsame ▸ he)
  · rw [hadded.log] at he
    rcases List.mem_cons.mp he with rfl | hold
    · exact .inr hadded
    · exact .inl hold

/-- **The invariant of the rows.** -/
theorem Rows.step (hr : Rows key w₀ h) (hstep : RepeatStep sdk cfg dto key h h') :
    Rows key w₀ h' := by
  obtain ⟨o, hwrote, hfile⟩ := wrote_step hstep
  refine ⟨hr.unique.step hstep, fun i c hrow hnew => ?_, fun pid sel c hmem => ?_,
    fun pid row id hmem => ?_, fun pid => ?_, fun pid entry e hmem he => ?_⟩
  · rcases hwrote.origin hrow with ⟨s, hold⟩ | ⟨row, rfl, hc, -, -⟩
    · have hkey := hr.created i _ hold hnew
      exact hkey
    · obtain ⟨_, _, _, hrule, _⟩ := hfile row rfl
      obtain ⟨group, locked, rfl, -, -⟩ := file_row hrule
      rw [hc]
      rfl
  · rcases mem_log_step hstep hmem with hold | hadded
    · exact ⟨(hr.found pid sel c hold).1.step hstep, (hr.found pid sel c hold).2⟩
    · obtain ⟨choice, hexec⟩ := hadded.exec
      obtain ⟨hrow, hselects⟩ := found_of_exec hexec
      exact ⟨⟨c.status, hrow⟩, hselects⟩
  · rcases mem_log_step hstep hmem with hold | hadded
    · obtain ⟨c, hrow, hkey⟩ := hr.inserted pid row id hold
      obtain ⟨s, hrow'⟩ := hwrote.kept hrow
      exact ⟨_, hrow', hkey⟩
    · obtain ⟨choice, hexec⟩ := hadded.exec
      obtain ⟨group, locked, rfl, -, -⟩ := file_row hadded.rule
      exact ⟨_, inserted_of_exec hexec, rfl⟩
  · rcases log_step hstep pid with hsame | ⟨e, hadded⟩
    · rw [hsame]
      exact hr.sound pid
    · rw [hadded.log]
      rintro (⟨id, rfl, hsighted⟩ | hold)
      · obtain ⟨c, hrow, -⟩ := hr.sighted hsighted
        obtain ⟨choice, hexec⟩ := hadded.exec
        have hmissed := missed_of_exec hexec hrow
        have hid : c.id = id := h.world.db.contributions.id_of_row hrow
        rw [selects_byId.mpr hid] at hmissed
        cases hmissed
      · exact hr.sound pid hold
  · rcases mem_log_step hstep hmem with hold | hadded
    · exact hr.calm pid entry e hold he
    · obtain ⟨choice, hexec⟩ := hadded.exec
      exact calm_of_exec hr.unique hadded.rule hexec he

end Rows

/-! ### What a run keeps of the lock -/

section Locks

variable {sdk : Sdk} {cfg : Config} {dto : CreateContributionDto} {key : String} {w₀ : World}
  {h h' : RepeatHist}

/-- The request runs, and holds the lock of the key. -/
def Holder (key : String) (pid : ℕ) (h : RepeatHist) : Prop :=
  holds key (log pid h.trace) = true ∧ ∀ e ∈ h.trace, e.isEnd = true → e.pid ≠ pid

/-- No row has the key. -/
def NoKey (key : String) (d : Database) : Prop :=
  ∀ i c, d.contributions.row i = some c → c.idempotencyKey ≠ some key

/-- The row is in the way of the request's, whatever its key is. -/
def Rival (dto : CreateContributionDto) (c : Contribution) : Prop :=
  dto.transactionHash = c.transactionHash ∨
    dto.userId = c.userId ∧ dto.groupId = c.groupId ∧ dto.roundNumber = c.roundNumber

/-- What a run keeps of the lock: one running request holds it, and until it has tried to store the
row there is none with the key. Once an insertion has been ignored, there never is. -/
structure Guard (dto : CreateContributionDto) (key : String) (h : RepeatHist) : Prop where
  locked : ∀ pid, Holder key pid h → h.world.locks (lockKey key) = true
  exclusive : ∀ pid pid', Holder key pid h → Holder key pid' h → pid = pid'
  fresh : ∀ pid, Holder key pid h → Unfiled (log pid h.trace) → NoKey key h.world.db
  refused : ∀ pid row, ⟨.db (.insertContributionOrIgnore row), .ok none⟩ ∈ log pid h.trace →
    NoKey key h.world.db ∧ ∃ i c, h.world.db.contributions.row i = some c ∧ Rival dto c

/-- Only the operations on locks change the locks. -/
theorem locks_of_exec {o : Op} {pid : ℕ} {choice : Choice} {w w' : World} {r : o.Ret}
    (ho : o.isLock = false) (hexec : exec o pid choice w = some (r, w')) : w'.locks = w.locks := by
  cases o with
  | db q => rcases exec_db hexec with ⟨-, rfl⟩ | ⟨-, rfl | rfl⟩ <;> rfl
  | setIfNotExists k => cases ho
  | del k => cases ho
  | rpc n i initial req =>
    cases choice <;> simp only [exec] at hexec <;>
      obtain ⟨_, _, heq⟩ := Option.map_eq_some_iff.mp hexec <;> cases heq <;> rfl
  | tx q =>
    cases choice <;> simp only [exec, reduceCtorEq] at hexec
    case done =>
      obtain ⟨s, -, hs⟩ := Option.bind_eq_some_iff.mp hexec
      split at hs <;> cases hs
      rfl
    case fails => cases hexec; rfl
  | commit =>
    cases choice <;> simp only [exec, reduceCtorEq] at hexec
    case fails => cases hexec; rfl
    all_goals
      obtain ⟨s, -, hs⟩ := Option.map_eq_some_iff.mp hexec
      cases hs
      rfl
  | takeJob id =>
    cases choice <;> simp only [exec, reduceCtorEq] at hexec
    case done => split at hexec <;> cases hexec <;> rfl
  | ask q =>
    cases choice <;> simp only [exec, reduceCtorEq] at hexec
    case answer a =>
      obtain ⟨v, -, hv⟩ := Option.map_eq_some_iff.mp hexec
      cases hv
      rfl
    case fails => cases hexec; rfl
  | now =>
    cases choice <;> simp only [exec, reduceCtorEq] at hexec
    case time t => split at hexec <;> cases hexec; rfl
  | _ => cases choice <;> simp only [exec, reduceCtorEq] at hexec <;> cases hexec <;> rfl

/-- A request that has tried for the lock: what has become of it. -/
theorem locks_setIfNotExists {k : String} {pid : ℕ} {choice : Choice} {w w' : World} {acquired : Bool}
    (hexec : exec (.setIfNotExists k) pid choice w = some (acquired, w')) :
    w'.db = w.db ∧ (w.locks k = true → w'.locks k = true) ∧ (acquired = true → w'.locks k = true) := by
  cases choice with
  | done =>
    cases hexec
    exact ⟨rfl, fun _ => Function.update_self _ _ _, fun _ => Function.update_self _ _ _⟩
  | expired =>
    cases hexec
    exact ⟨rfl, fun _ => Function.update_self _ _ _, fun _ => Function.update_self _ _ _⟩
  | fails msg =>
    cases hexec
    exact ⟨rfl, id, nofun⟩
  | _ => cases hexec

/-- What a step does to the lock. -/
inductive LockStep (key : String) (h h' : RepeatHist) : Prop
  | same (hholder : ∀ pid, Holder key pid h' → Holder key pid h)
      (hlock : h.world.locks (lockKey key) = true → h'.world.locks (lockKey key) = true)
  | taken (p : ℕ) (honly : ∀ pid, Holder key pid h' → pid = p)
      (hlock : h'.world.locks (lockKey key) = true) (hfresh : NoKey key h'.world.db)
  | released (hnone : ∀ pid, ¬ Holder key pid h')

theorem Holder.of_log {pid : ℕ} (hh : Holder key pid h') (hlog : log pid h'.trace = log pid h.trace)
    (hsub : h.trace ⊆ h'.trace) : Holder key pid h :=
  ⟨hlog ▸ hh.1, fun e he => hh.2 e (hsub he)⟩

/-- A request that holds the lock has performed something. -/
theorem exists_event_of_holds {pid : ℕ} (hh : holds key (log pid h.trace) = true) :
    ∃ e ∈ h.trace, e.pid = pid := by
  cases hlog : log pid h.trace with
  | nil =>
    rw [hlog] at hh
    cases hh
  | cons entry L =>
    have hmem : entry ∈ log pid h.trace := hlog ▸ List.mem_cons_self
    obtain ⟨w, hw⟩ := mem_log.mp hmem
    exact ⟨_, hw, rfl⟩

theorem holds_acquire {L : Log Op.Ret} {acquired : Bool} :
    holds key (⟨.setIfNotExists (lockKey key), acquired⟩ :: L) = acquired := if_pos rfl

theorem holds_release {L : Log Op.Ret} : holds key (⟨.del (lockKey key), ()⟩ :: L) = false :=
  if_pos rfl

/-- **While the lock lasts**, a step takes it from nobody. -/
theorem Guard.lockStep (hg : Guard dto key h) (hstep : RepeatStep sdk cfg dto key h h')
    (hlasts : lockLasts key h h' = true) (hfirst : comesFirst key h h' = true) :
    LockStep key h h' := by
  cases hstep with
  | idle e he hlive =>
    exact .same (fun pid hh => hh.of_log (he pid _) (List.subset_cons_self _ _)) id
  | did p c o choice r w hstart hrule hexec hlive =>
    have hother : ∀ pid, pid ≠ p → Holder key pid (h.push (.did p o r h.world) w) →
        Holder key pid h := fun pid hne hh =>
      hh.of_log (log_cons_of_ne (e := .did p o r h.world) hne.symm _) (List.subset_cons_self _ _)
    have hself : Holder key p (h.push (.did p o r h.world) w) →
        holds key (⟨o, r⟩ :: log p h.trace) = true := fun hh => by
      have hholds := hh.1
      rwa [Hist.push_trace, log_did_self] at hholds
    by_cases hlock : o.isLock = false
    · refine .same (fun pid hh => ?_) fun hlocked => ?_
      · by_cases hp : pid = p
        · subst hp
          refine ⟨?_, hlive⟩
          rw [← holds_cons hlock]
          exact hself hh
        · exact hother pid hp hh
      · rw [Hist.push_world, locks_of_exec hlock hexec]
        exact hlocked
    · cases hrule with
      | spare hspare => exact absurd (isLock_of_isSpare hspare) hlock
      | save hreread => exact absurd rfl hlock
      | file group locked hlooked hholding hunfiled => exact absurd rfl hlock
      | submit id => exact absurd rfl hlock
      | acquire hkey hne =>
        obtain rfl := Option.some.inj hkey
        obtain ⟨hdb, hkept, htaken⟩ := locks_setIfNotExists hexec
        have hself' : Holder key p (h.push (.did p _ r h.world) w) → r = true :=
          fun hh => holds_acquire.symm.trans (hself hh)
        by_cases hr : r = true
        · refine .taken p (fun pid hh => ?_) (htaken hr) ?_
          · by_contra hne
            obtain ⟨hholds, hlive'⟩ := hother pid hne hh
            obtain ⟨e, he, rfl⟩ := exists_event_of_holds hholds
            have hlocked := hg.locked e.pid ⟨hholds, hlive'⟩
            unfold lockLasts at hlasts
            subst hr
            simp only [Hist.push_trace, Bool.not_true, Bool.false_or, hlocked, List.all_eq_true]
              at hlasts
            have hend := hlasts e he
            rw [hholds, Bool.not_true, Bool.false_or] at hend
            obtain ⟨e', he', hboth⟩ := List.any_eq_true.mp hend
            obtain ⟨hisEnd, hpid⟩ := Bool.and_eq_true_iff.mp hboth
            exact hlive' e' he' hisEnd (beq_iff_eq.mp hpid)
          · unfold comesFirst at hfirst
            subst hr
            simp only [Hist.push_trace, Bool.not_true, Bool.false_or, Option.isNone_iff_eq_none]
              at hfirst
            intro i c hrow hkey
            rw [Hist.push_world, hdb] at hrow
            have hmissed := Table.find?_eq_none.mp hfirst i c hrow
            rw [selects_byKey.mpr hkey] at hmissed
            cases hmissed
        · refine .same (fun pid hh => hother pid ?_ hh) hkept
          rintro rfl
          exact hr (hself' hh)
      | release hkey hholds =>
        obtain rfl := Option.some.inj hkey
        refine .released fun pid hh => ?_
        by_cases hp : pid = p
        · subst hp
          exact absurd (holds_release.symm.trans (hself hh)) nofun
        · exact hp (hg.exclusive pid p (hother pid hp hh) ⟨hholds, hlive⟩)

/-- A row in the way of the request's collides with what it inserts. -/
theorem Rival.collides {c row : Contribution} (hrival : Rival dto c) {group : Group}
    {locked : Option (LockedFxRate × String)}
    (hrow : row = ContributionsService.newContribution dto (some key) group locked) {i : ℕ} :
    Contribution.collides { row with id := i } c := by
  subst hrow
  rcases hrival with htx | huser
  · exact .inl htx
  · exact .inr (.inl huser)

/-- A row that is new after a step has been stored by a running request, which holds the lock, and no
row was in its way. -/
theorem new_row (hkey : key ≠ "") (hstep : RepeatStep sdk cfg dto key h h') {i : ℕ} {c : Contribution}
    (hrow : h'.world.db.contributions.row i = some c)
    (hnew : ∀ s, h.world.db.contributions.row i ≠ some { c with status := s }) :
    (∃ pid row r, Holder key pid h ∧
      log pid h'.trace = ⟨.db (.insertContributionOrIgnore row), r⟩ :: log pid h.trace) ∧
    ∀ j b, h.world.db.contributions.row j = some b → ¬ Rival dto b := by
  obtain ⟨o, hwrote, hfile⟩ := wrote_step hstep
  rcases hwrote.origin hrow with ⟨s, hold⟩ | ⟨row, rfl, hc, hi, hfree⟩
  · exact absurd hold (hnew s)
  · obtain ⟨pid, r, htrace, hrule, hlive⟩ := hfile row rfl
    obtain ⟨group, locked, hfiled, hholding, -⟩ := file_row hrule
    refine ⟨⟨pid, row, r, ⟨hholding key rfl hkey, hlive⟩, ?_⟩, fun j b hb hrival => ?_⟩
    · rw [htrace, log_did_self]
    · have hid : c.id = i := by rw [hc]
      have hne : j ≠ c.id := by
        rintro rfl
        rw [hid, hi, h.world.db.contributions.row_next] at hb
        cases hb
      refine contributionConflict_eq_none.mp hfree j b hb hne ?_
      rw [hc]
      exact hrival.collides hfiled

/-- An insertion that is ignored finds a row in its way. -/
theorem exists_rival {row : Contribution} {group : Group} {locked : Option (LockedFxRate × String)}
    (hrow : row = ContributionsService.newContribution dto (some key) group locked) {pid : ℕ}
    {choice : Choice} {w w' : World} (hnokey : NoKey key w.db)
    (hexec : exec (.db (.insertContributionOrIgnore row)) pid choice w = some (.ok none, w')) :
    w'.db = w.db ∧ ∃ i c, w.db.contributions.row i = some c ∧ Rival dto c := by
  obtain ⟨heval, rfl⟩ := exec_db_ok hexec
  simp only [Query.eval] at heval ⊢
  split at heval
  · next constraint hconflict =>
    refine ⟨rfl, ?_⟩
    by_contra hno
    have hfree : w.db.contributionConflict (w.db.contributions.insert row).1 = none := by
      refine contributionConflict_eq_none.mpr fun i b hb _ hcollides => hno ⟨i, b, hb, ?_⟩
      subst hrow
      rcases hcollides with htx | huser | ⟨-, hkey⟩
      · exact .inl htx
      · exact .inr huser
      · exact absurd hkey.symm (hnokey i b hb)
    rw [hfree] at hconflict
    cases hconflict
  · cases heval

/-- No row with the key comes into the table unless a request that holds the lock stores it. -/
theorem NoKey.step (hkey : key ≠ "") (hn : NoKey key h.world.db)
    (hstep : RepeatStep sdk cfg dto key h h')
    (hno : ∀ pid row r, Holder key pid h → log pid h'.trace ≠
      ⟨.db (.insertContributionOrIgnore row), r⟩ :: log pid h.trace) : NoKey key h'.world.db := by
  intro i c hrow hc
  obtain ⟨⟨pid, row, r, hholder, hlog⟩, -⟩ :=
    new_row hkey hstep hrow fun s hold => hn i _ hold hc
  exact hno pid row r hholder hlog

theorem Unfiled.of_step (hstep : RepeatStep sdk cfg dto key h h') {pid : ℕ}
    (hu : Unfiled (log pid h'.trace)) : Unfiled (log pid h.trace) := by
  intro row r hmem
  rcases log_step hstep pid with hsame | ⟨e, hadded⟩
  · exact hu row r (hsame ▸ hmem)
  · exact hu row r (hadded.log ▸ List.mem_cons_of_mem e hmem)

/-- **The invariant of the lock.** -/
theorem Guard.step (hkey : key ≠ "") (hg : Guard dto key h)
    (hstep : RepeatStep sdk cfg dto key h h') (hlasts : lockLasts key h h' = true)
    (hfirst : comesFirst key h h' = true) : Guard dto key h' := by
  have hrefused : ∀ pid row, ⟨.db (.insertContributionOrIgnore row), .ok none⟩ ∈ log pid h'.trace →
      NoKey key h'.world.db ∧ ∃ i c, h'.world.db.contributions.row i = some c ∧ Rival dto c := by
    have hstays : NoKey key h.world.db → (∃ i c, h.world.db.contributions.row i = some c ∧
        Rival dto c) → NoKey key h'.world.db ∧
          ∃ i c, h'.world.db.contributions.row i = some c ∧ Rival dto c := by
      rintro hn ⟨i, c, hrow, hrival⟩
      obtain ⟨o, hwrote, -⟩ := wrote_step hstep
      obtain ⟨s, hrow'⟩ := hwrote.kept hrow
      refine ⟨fun j b hb hbkey => ?_, i, _, hrow', hrival⟩
      exact (new_row hkey hstep hb fun s hold => hn j _ hold hbkey).2 i c hrow hrival
    intro pid row hmem
    rcases mem_log_step hstep hmem with hold | hadded
    · obtain ⟨hn, hrival⟩ := hg.refused pid row hold
      exact hstays hn hrival
    · obtain ⟨group, locked, hfiled, hholding, hunfiled⟩ := file_row hadded.rule
      have hn := hg.fresh pid ⟨hholding key rfl hkey, hadded.live⟩ hunfiled
      obtain ⟨choice, hexec⟩ := hadded.exec
      exact hstays hn (exists_rival hfiled hn hexec).2
  cases hg.lockStep hstep hlasts hfirst with
  | same hholder hlock =>
    refine ⟨fun pid hh => hlock (hg.locked pid (hholder pid hh)),
      fun pid pid' hh hh' => hg.exclusive pid pid' (hholder pid hh) (hholder pid' hh'),
      fun pid hh hu => ?_, hrefused⟩
    refine (hg.fresh pid (hholder pid hh) (hu.of_step hstep)).step hkey hstep ?_
    intro p row r hp hlog
    obtain rfl := hg.exclusive p pid hp (hholder pid hh)
    exact hu row r (hlog ▸ List.mem_cons_self)
  | taken p honly hlock hfresh =>
    exact ⟨fun _ _ => hlock, fun pid pid' hh hh' => (honly pid hh).trans (honly pid' hh').symm,
      fun _ _ _ => hfresh, hrefused⟩
  | released hnone =>
    exact ⟨fun pid hh => absurd hh (hnone pid), fun pid _ hh => absurd hh (hnone pid),
      fun pid hh => absurd hh (hnone pid), hrefused⟩

end Locks

/-! ### Runs -/

section Runs

variable {sdk : Sdk} {cfg : Config} {dto : CreateContributionDto} {key : String} {w₀ : World}
  {h h' : RepeatHist}

/-- What a run keeps: once a request has returned the row, no lookup by the key misses it. -/
structure Repeats (dto : CreateContributionDto) (key : String) (w₀ : World) (h : RepeatHist) :
    Prop where
  rows : Rows key w₀ h
  guard : Guard dto key h
  late : ∀ newer older pid c, h.trace = newer ++ Event.returned pid (.ok c) :: older →
    ∀ pid', ⟨.db (.findContribution (byKey key)), .ok none⟩ ∉ log pid' newer

/-- **What a request returns** is in the table. -/
theorem Rows.returned (hr : Rows key w₀ h) (hkey : key ≠ "")
    (hd : Disciplined (fun _ : ℕ => MayRequest dto (some key)) (fun _ => Ended (some key)) h)
    {pid : ℕ} {c : Contribution} (hmem : .returned pid (.ok c) ∈ h.trace) :
    Stored h.world.db c ∧ c.idempotencyKey = some key := by
  obtain ⟨polls, hstart⟩ := hd.start_mem _ hmem
  exact hr.came (hd.returned pid polls (.ok c) hstart hmem key rfl hkey)

theorem Repeats.late_step (hr : Repeats dto key w₀ h) (hkey : key ≠ "")
    (hd : Disciplined (fun _ : ℕ => MayRequest dto (some key)) (fun _ => Ended (some key)) h)
    (hstep : RepeatStep sdk cfg dto key h h') {newer older : List (Event Op.Ret World ℕ _)}
    {pid : ℕ} {c : Contribution} (htrace : h'.trace = newer ++ Event.returned pid (.ok c) :: older)
    (pid' : ℕ) : ⟨.db (.findContribution (byKey key)), .ok none⟩ ∉ log pid' newer := by
  intro hmem
  cases newer with
  | nil => cases hmem
  | cons e newer =>
    cases hstep with
    | idle e' he hlive =>
      obtain ⟨rfl, hold⟩ := List.cons.inj htrace
      rw [he] at hmem
      exact hr.late newer older pid c hold pid' hmem
    | did p polls o choice r w hstart hrule hexec hlive =>
      obtain ⟨rfl, hold⟩ := List.cons.inj htrace
      by_cases hp : p = pid'
      · subst hp
        rw [log_did_self] at hmem
        rcases List.mem_cons.mp hmem with heq | hmem
        · cases heq
          have hreturned : .returned pid (.ok c) ∈ h.trace := by
            rw [hold]
            exact List.mem_append_right _ List.mem_cons_self
          obtain ⟨⟨s, hrow⟩, hc⟩ := hr.rows.returned hkey hd hreturned
          have hselects : (byKey key).selects { c with status := s } = true := selects_byKey.mpr hc
          exact absurd (missed_of_exec hexec hrow) (by rw [hselects]; nofun)
        · exact hr.late newer older pid c hold p hmem
      · rw [log_cons_of_ne (e := .did p o r h.world) hp] at hmem
        exact hr.late newer older pid c hold pid' hmem

/-- The rows of a run are those of one request. -/
theorem Repeats.once (hr : Repeats dto key w₀ h) (hkey : key ≠ "")
    (hd : Disciplined (fun _ : ℕ => MayRequest dto (some key)) (fun _ => Ended (some key)) h) :
    ∃ id, (∀ i c, h.world.db.contributions.row i = some c →
        w₀.db.contributions.row i = none → i = id) ∧
      ∀ pid c, .returned pid (.ok c) ∈ h.trace → c.id = id ∧ c.idempotencyKey = some key ∧
        ∃ s, h.world.db.contributions.row id = some { c with status := s } := by
  have hsame : ∀ i j a b, h.world.db.contributions.row i = some a →
      h.world.db.contributions.row j = some b → a.idempotencyKey = some key →
        b.idempotencyKey = some key → i = j := by
    intro i j a b ha hb hakey hbkey
    by_contra hij
    refine hr.rows.unique i j a b ha hb hij (.inr (.inr ⟨?_, hakey.trans hbkey.symm⟩))
    rw [hakey]
    rfl
  by_cases hex : ∃ i c, h.world.db.contributions.row i = some c ∧ c.idempotencyKey = some key
  · obtain ⟨id, b, hb, hbkey⟩ := hex
    refine ⟨id, fun i c hrow hnew => ?_, fun pid c hmem => ?_⟩
    · exact hsame i id c b hrow hb (hr.rows.created i c hrow hnew) hbkey
    · obtain ⟨⟨s, hrow⟩, hc⟩ := hr.rows.returned hkey hd hmem
      have hid := hsame c.id id _ b hrow hb hc hbkey
      exact ⟨hid, hc, s, hid ▸ hrow⟩
  · refine ⟨0, fun i c hrow hnew => ?_, fun pid c hmem => ?_⟩
    · exact absurd ⟨i, c, hrow, hr.rows.created i c hrow hnew⟩ hex
    · obtain ⟨⟨s, hrow⟩, hc⟩ := hr.rows.returned hkey hd hmem
      exact absurd ⟨c.id, _, hrow, hc⟩ hex

/-- **Once a request has returned the row**, none that goes on ends in a conflict. -/
theorem Repeats.settled (hr : Repeats dto key w₀ h) (hkey : key ≠ "")
    (hd : Disciplined (fun _ : ℕ => MayRequest dto (some key)) (fun _ => Ended (some key)) h)
    {newer older : List (Event Op.Ret World ℕ (Except Exc Contribution))} {pid : ℕ}
    {c : Contribution} (htrace : h.trace = newer ++ Event.returned pid (.ok c) :: older) {pid' : ℕ}
    {o : Op} {r : o.Ret} {w : World} {e : Exc} (hdid : .did pid' o r w ∈ newer)
    (hended : .returned pid' (.error e) ∈ newer) : e.hasStatus 409 = false := by
  by_contra hconflict
  have hclashes : e.clashes = true := by
    cases e with
    | http status message => simpa [Exc.hasStatus, Exc.clashes] using hconflict
    | _ => exact absurd rfl hconflict
  have hmem : ∀ ev ∈ newer, ev ∈ h.trace := fun ev hev => by
    rw [htrace]
    exact List.mem_append_left _ hev
  have hreturned : .returned pid (.ok c) ∈ h.trace := by
    rw [htrace]
    exact List.mem_append_right _ List.mem_cons_self
  obtain ⟨⟨s, hrow⟩, hc⟩ := hr.rows.returned hkey hd hreturned
  obtain ⟨polls, hstart⟩ := hd.start_mem _ (hmem _ hended)
  rcases hd.returned pid' polls (.error e) hstart (hmem _ hended) hclashes key rfl hkey with
    hclash | ⟨L, hlast⟩
  · cases hclash with
    | raised hraised hclashes' =>
      obtain ⟨entry, hentry, hraises⟩ := hraised
      rw [hr.rows.calm pid' entry _ hentry hraises] at hclashes'
      cases hclashes'
    | refused hrefused => exact (hr.guard.refused pid' _ hrefused).1 c.id _ hrow hc
    | vanished hvanished => exact hr.rows.sound pid' hvanished
  · -- its last lookup is one of the later events
    refine hr.late newer older pid c htrace pid' ?_
    obtain ⟨entry, L', hnewer⟩ : ∃ entry L', log pid' newer = entry :: L' :=
      List.exists_cons_of_ne_nil (List.ne_nil_of_mem (mem_log.mpr ⟨w, hdid⟩))
    rw [htrace, log_append, hnewer, List.cons_append] at hlast
    rw [hnewer, (List.cons.inj hlast).1]
    exact List.mem_cons_self

/-- **Identical requests count as one** in every run in which the lock lasts while it is held, and a
request gets it only while no row has the key. -/
theorem idempotent_of_reachable (sdk : Sdk) (cfg : Config) (dto : CreateContributionDto)
    (hkey : key ≠ "") (hw : w₀.db.Unique) {s : RepeatState}
    (hs : (repeatedSystem sdk cfg dto key).ReachableWhen
      (fun h h' => lockLasts key h h' = true ∧ comesFirst key h h' = true) (.init w₀) s) :
    Idempotent key w₀ s.hist := by
  have hbody : ∀ polls : ℕ, Follows (MayRequest dto (some key)) (Ended (some key))
      ((repeatedSystem sdk cfg dto key).body polls) [] :=
    fun polls => follows_request sdk cfg ⟨polls, dto, some key⟩
  have hd := disciplined_of_reachable hbody hs
  have hr : Repeats dto key w₀ s.hist := by
    refine hist_invariant (I := Repeats dto key w₀) hbody ⟨⟨hw, ?_, ?_, ?_, ?_, ?_⟩,
      ⟨?_, ?_, ?_, ?_⟩, ?_⟩ ?_ hs
    · intro i c hrow hnew
      rw [hnew] at hrow
      cases hrow
    · exact fun _ _ _ hmem => absurd hmem List.not_mem_nil
    · exact fun _ _ _ hmem => absurd hmem List.not_mem_nil
    · exact fun _ hvanished => hvanished
    · exact fun _ _ _ hmem => absurd hmem List.not_mem_nil
    · exact fun _ hh => absurd hh.1 nofun
    · exact fun _ _ hh => absurd hh.1 nofun
    · exact fun _ hh => absurd hh.1 nofun
    · exact fun _ _ hmem => absurd hmem List.not_mem_nil
    · exact fun newer _ _ _ htrace => absurd htrace.symm (by simp)
    · intro h h' hd _ hr hstep hok
      exact ⟨hr.rows.step hstep, hr.guard.step hkey hstep hok.1 hok.2,
        fun newer older pid c htrace => hr.late_step hkey hd hstep htrace⟩
  exact ⟨hr.once hkey hd, fun newer older pid c htrace pid' o r w e hdid hended =>
    hr.settled hkey hd htrace hdid hended⟩

end Runs

/-! ### The lock comes too late -/

/-- The event is a normal return. -/
def isReturn : Event Op.Ret World ℕ (Except Exc Contribution) → Bool
  | .returned _ (.ok _) => true
  | _ => false

/-- The request goes on after the last normal return, and ends in a conflict. -/
def conflictsLate (pid : ℕ) (h : RepeatHist) : Bool :=
  let newer := h.trace.takeWhile fun e => !isReturn e
  h.trace.any isReturn &&
    (newer.any fun e => match e with
      | .did p _ _ _ => p == pid
      | _ => false) &&
    newer.any fun e => match e with
      | .returned p (.error e) => p == pid && e.hasStatus 409
      | _ => false

theorem not_idempotent_of_conflictsLate {key : String} {w₀ : World} {h : RepeatHist} {pid : ℕ}
    (hlate : conflictsLate pid h = true) : ¬ Idempotent key w₀ h := by
  intro hidempotent
  simp only [conflictsLate, Bool.and_eq_true] at hlate
  obtain ⟨⟨hreturn, hdid⟩, hended⟩ := hlate
  -- the trace is split at the last normal return
  obtain ⟨c, p, older, htrace⟩ : ∃ c p older,
      h.trace = (h.trace.takeWhile fun e => !isReturn e) ++ Event.returned p (.ok c) :: older := by
    cases hrest : h.trace.dropWhile fun e => !isReturn e with
    | nil =>
      obtain ⟨e, he, hreturn⟩ := List.any_eq_true.mp hreturn
      have hno := List.dropWhile_eq_nil_iff.mp hrest e he
      rw [hreturn] at hno
      cases hno
    | cons x older =>
      have hx : (!isReturn x) = false := by
        have hhead := List.head?_dropWhile_not (fun e => !isReturn e) h.trace
        rw [hrest] at hhead
        exact hhead
      have happend := List.takeWhile_append_dropWhile (p := fun e => !isReturn e) (l := h.trace)
      rw [hrest] at happend
      cases x with
      | returned p a =>
        cases a with
        | ok c => exact ⟨c, p, older, happend.symm⟩
        | error e => cases hx
      | _ => cases hx
  obtain ⟨e, he, hpid⟩ := List.any_eq_true.mp hdid
  obtain ⟨e', he', hconflict⟩ := List.any_eq_true.mp hended
  cases e with
  | did p' o r w =>
    obtain rfl := beq_iff_eq.mp hpid
    cases e' with
    | returned p' a =>
      cases a with
      | ok c => cases hconflict
      | error e =>
        obtain ⟨hpid', h409⟩ := Bool.and_eq_true_iff.mp hconflict
        obtain rfl := beq_iff_eq.mp hpid'
        rw [hidempotent.settled _ older p c htrace _ o r w e he he'] at h409
        cases h409
    | _ => cases hconflict
  | _ => cases hpid

namespace Sample

/-- The contribution of the member for the first round. -/
def dto : CreateContributionDto where
  groupId := 0
  userId := 0
  walletAddress := "G0"
  roundNumber := 1
  transactionHash := "hash"
  amount := "100"
  timestamp := 0

/-- A world with a member who has not paid yet. -/
def unpaid : World := world group [{ member with hasPaidCurrentRound := false }]

/-- A request that has missed the row takes the lock, stores the contribution, and returns it. -/
def filing (pid : ℕ) : List (Move Choice ℕ) :=
  [.run pid .done, .run pid .done, .run pid .done, .run pid (.answer (.text none)),
    .run pid .done, .run pid (.time 0), .run pid (.answer (.bool true)),
    .run pid (.answer (.details ⟨"100", "XLM", none⟩)), .run pid (.time 0), .run pid .done,
    .run pid .done, .run pid .done, .run pid (.time 0), .run pid .done, .run pid .done,
    .run pid .done, .run pid .done, .run pid .done, .finish pid]

/-- A request that takes the lock after the row has been stored. -/
def comingLate (pid : ℕ) : List (Move Choice ℕ) :=
  [.run pid .done, .run pid .done, .run pid (.answer (.text none)), .run pid .done,
    .run pid (.time 0), .run pid (.answer (.bool true)),
    .run pid (.answer (.details ⟨"100", "XLM", none⟩)), .run pid (.time 0), .run pid .done,
    .run pid .done, .finish pid]

end Sample

theorem Sample.unique_unpaid : Sample.unpaid.db.Unique := fun _ _ _ _ ha => nomatch ha

theorem idempotent_sample : ∃ s : RepeatState, s.hist.trace.any isReturn = true ∧
    Idempotent "key" Sample.unpaid s.hist := by
  obtain ⟨s, hs, hreturn⟩ := System.exists_of_replay
    (repeatedSystem Sample.sdk Sample.cfg Sample.dto "key")
    (fun h h' => lockLasts "key" h h' = true ∧ comesFirst "key" h h' = true) (.init Sample.unpaid)
    (.start 0 :: Sample.filing 0) (fun s => s.hist.trace.any isReturn) (by decide +kernel)
  exact ⟨s, hreturn, idempotent_of_reachable Sample.sdk Sample.cfg Sample.dto (by decide)
    Sample.unique_unpaid hs⟩

/-- **A request that gets the lock after the row has been stored** ends in a conflict, although the
other one has returned the row. -/
theorem not_idempotent : ¬ ∀ w₀ : World, w₀.db.Unique → ∀ s : RepeatState,
    (repeatedSystem Sample.sdk Sample.cfg Sample.dto "key").ReachableWhen
      (fun h h' => lockLasts "key" h h' = true) (.init w₀) s → Idempotent "key" w₀ s.hist := by
  intro h
  obtain ⟨s, hs, hlate⟩ := System.exists_of_replay
    (repeatedSystem Sample.sdk Sample.cfg Sample.dto "key")
    (fun h h' => lockLasts "key" h h' = true) (.init Sample.unpaid)
    (.start 0 :: .start 0 :: .run 1 .done :: Sample.filing 0 ++ Sample.comingLate 1)
    (fun s => conflictsLate 1 s.hist) (by decide +kernel)
  exact not_idempotent_of_conflictsLate hlate (h _ Sample.unique_unpaid s hs)

end Ahjoor
