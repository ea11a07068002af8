import Ahjoor.Contributions.LastPayout

/-!
# What the current round counts

Every advance works on a copy of the group that it has read at its start: it resets the flags of the
members, and then saves the copy with the next round. An advance that lags behind another one resets
flags that members have been given for the new round, and saves a round that is over.

`inTime` names the writes that come in time: a reset and a save that find the group in the round in
which their advance has found it, a payment event for a round that has begun, and a payout that
saves no flag which is out of date. In runs of such writes the round moves on by one, out of rounds
in which everyone had paid, and no advance clears the flag of a later payment.
-/

namespace Ahjoor

open Async StellarService

/-! ### Rounds and payments -/

/-- The round that the group is in. -/
def currentRound (groupId : Uuid) (w : World) : Option ℤ :=
  (w.db.groups.row groupId).map (·.currentRound)

/-- The query for the active members of a group. -/
def activeMembers (groupId : Uuid) : MembershipWhere :=
  { groupId := some groupId, status := some .active }

/-- All active members of the group have paid. -/
def allPaid (groupId : Uuid) (w : World) : Bool :=
  (w.db.memberships.filter (activeMembers groupId).selects).all (·.hasPaidCurrentRound)

/-- The membership is marked as paid. -/
def isPaid (w : World) (id : Uuid) : Bool := (w.db.memberships.row id).any (·.hasPaidCurrentRound)

/-- The round in which a call has found the group, when it read it first. -/
def roundFound : Log Op.Ret → Option ℤ
  | [] => none
  | ⟨.db (.findGroup _), .ok (some group)⟩ :: L => (roundFound L).or (some (Group.currentRound group))
  | _ :: L => roundFound L

/-- The events of a run. -/
abbrev RoundEvents := List (Event Op.Ret World RoundCall (Except Exc Unit))

/-- The round that a payment event pays with this operation, if it marks the membership as paid: the
transfer's is the one in which its job has found the group, the other's is in its payload. -/
def paymentRound (groupId id : Uuid) (es : RoundEvents) (pid : ℕ) (o : Op) (before : World) :
    Option ℤ :=
  match callOf pid es, o with
  | some (.handleTransferEvent _), .db (.saveMembership m) =>
      if m.id = id ∧ m.groupId = groupId then roundFound (log pid es) else none
  | some (.handleContributionReceived payload), .db (.updateHasPaid sel true) =>
      if payload.groupId = some groupId ∧ (before.db.memberships.row id).any sel.selects then
        some (payload.roundNumber.getD 1)
      else none
  | _, _ => none

/-- The round of the last payment event that has marked the membership as paid. -/
def paidFor (groupId id : Uuid) : RoundEvents → Option ℤ
  | .did pid o _ before :: es =>
      (paymentRound groupId id es pid o before).or (paidFor groupId id es)
  | _ :: es => paidFor groupId id es
  | [] => none

/-- The group was in this round at a time when all its active members had paid. -/
def PaidDuring (groupId : Uuid) (round : ℤ) (es : RoundEvents) : Prop :=
  ∃ pid o r before, .did pid o r before ∈ es ∧ currentRound groupId before = some round ∧
    allPaid groupId before = true

/-! ### What is claimed of a step -/

/-- **The current round counts the paid rounds**: a step leaves the round as it is, or moves on by
one out of a round in which all active members had paid; and an advance clears no flag that has been
set for a later round than the one it leaves. -/
structure CountsPaidRounds (groupId : Uuid) (h h' : RoundHist) : Prop where
  round : ∀ round, currentRound groupId h.world = some round →
    currentRound groupId h'.world = some round ∨
      currentRound groupId h'.world = some (round + 1) ∧ PaidDuring groupId round h.trace
  flags : ∀ pid o r round, h'.trace = .did pid o r h.world :: h.trace →
    callOf pid h.trace = some .tryAdvanceRound → roundFound (log pid h.trace) = some round →
      ∀ id, isPaid h.world id = true → isPaid h'.world id = false →
        ∀ paid ∈ paidFor groupId id h.trace, paid ≤ round

/-! ### Writes that come in time -/

/-- What the step writes **comes in time**. -/
def inTime (groupId : Uuid) (h h' : RoundHist) : Bool :=
  match h'.trace with
  -- a save that changes the group finds it in the round that it leaves
  | .did _ (.db (.saveGroup group)) _ _ :: _ =>
      h'.world.db.groups.row groupId = h.world.db.groups.row groupId ∨
        currentRound groupId h.world = some (group.currentRound - 1)
  -- so does a reset of the flags
  | .did pid (.db (.updateHasPaid _ false)) _ _ :: es =>
      currentRound groupId h.world = roundFound (log pid es)
  -- a payment that is reported by the contract is for a round that has begun
  | .did pid (.db (.updateHasPaid _ true)) _ _ :: es =>
      match callOf pid es with
      | some (.handleContributionReceived payload) =>
          payload.groupId ≠ some groupId ∨
            (currentRound groupId h.world).all fun round => payload.roundNumber.getD 1 ≤ round
      | _ => true
  -- a payout takes no payment back
  | .did pid (.db (.saveMembership m)) _ _ :: es =>
      match callOf pid es with
      | some .tryAdvanceRound => isPaid h.world m.id → m.hasPaidCurrentRound
      | _ => true
  | _ => true

/-! ### What a call may do next -/

/-- The advance has found its group in this round, and then all active members paid. -/
def FoundPaid (groupId : Uuid) (round : ℤ) (L : Log Op.Ret) : Prop :=
  ∃ ms L', ⟨.db (.findMemberships (activeMembers groupId)), .ok ms⟩ :: L' <:+ L ∧
    List.all ms (·.hasPaidCurrentRound) = true ∧ roundFound L' = some round ∧
    ∃ group, ⟨.db (.findGroup groupId), .ok (some group)⟩ ∈ L' ∧ Group.currentRound group = round

/-- **What a call may do next**: an advance saves the group with the next round, when it has found
all active members paid; a transfer event marks a membership whose group it has read. -/
def CountRule (groupId : Uuid) (c : RoundCall) (L : Log Op.Ret) : Op → Prop
  | .db (.saveGroup group) => FoundPaid groupId (group.currentRound - 1) L
  | .db (.saveMembership m) => c = .tryAdvanceRound ∨ ∃ group : Group,
      ⟨.db (.findGroup m.groupId), .ok (some group)⟩ ∈ L ∧ roundFound L = some group.currentRound
  | .commit => False
  | _ => True

section Bodies

variable {groupId : Uuid} {round : ℤ} {L L' : Log Op.Ret} {α : Type}

theorem FoundPaid.cons (h : FoundPaid groupId round L) (e : Entry Op.Ret) :
    FoundPaid groupId round (e :: L) := by
  obtain ⟨ms, L', hsuffix, hpaid, hfound⟩ := h
  exact ⟨ms, L', hsuffix.trans (List.suffix_cons e L), hpaid, hfound⟩

/-- The advance keeps its rule, once it has found the members paid. -/
abbrev Advances (groupId : Uuid) (round : ℤ) (m : Service Unit α) (L : Log Op.Ret) : Prop :=
  Obeys (CountRule groupId .tryAdvanceRound) m (fun _ _ L => FoundPaid groupId round L)
    (fun _ _ L => FoundPaid groupId round L) () L

/-- A payout reads the group again, and saves no group. -/
theorem letsPay_countRule :
    LetsPay (CountRule groupId .tryAdvanceRound) (FoundPaid groupId round) where
  pays := by
    refine ⟨fun L o hL ho => ?_, fun _ _ _ hL _ => hL.cons _⟩
    cases o with
    | db q =>
      cases q with
      | saveGroup group => cases ho
      | saveMembership m => cases ho
      | _ => trivial
    | commit => cases ho
    | _ => trivial
  saves _ _ _ _ := .inl rfl
  kept _ _ _ hL := hL.cons _

theorem advances_query {q : Query} {f : q.Ret → Service Unit α} (hL : FoundPaid groupId round L)
    (hq : CountRule groupId .tryAdvanceRound L (.db q))
    (hf : ∀ L, FoundPaid groupId round L → ∀ a, Advances groupId round (f a) L) :
    Advances groupId round (query q >>= f) L :=
  Obeys.bind (obeys_query hq (fun a => hf _ (hL.cons _) a) fun _ => hL.cons _)

theorem advances_triggerPayout (sdk : Sdk) (cfg : Config) (hL : FoundPaid groupId round L) :
    Advances groupId round (RoundService.triggerPayout sdk cfg groupId round) L :=
  Obeys.tryCatch (Obeys.bind ((PayoutService.obeys_distributePayout sdk cfg letsPay_countRule groupId
    round hL).mono (fun _ _ _ hL => Obeys.pure hL) fun _ _ _ hL => Obeys.pure hL))

/-- A failure that is only logged. -/
theorem advances_logged {m : Service Unit Unit} (hm : Advances groupId round m L) :
    Advances groupId round (tryCatch m fun _ => pure ()) L :=
  Obeys.tryCatch (hm.mono (fun _ _ _ hL => hL) fun _ _ _ hL => Obeys.pure hL)

theorem advances_emit (hL : FoundPaid groupId round L) (e : Effect) :
    Advances groupId round (emit e) L :=
  obeys_emit trivial (hL.cons _) fun _ => hL.cons _

theorem advances_completeGroup (sdk : Sdk) (cfg : Config) {group : Group}
    (hL : FoundPaid groupId group.currentRound L) :
    Advances groupId group.currentRound (RoundService.completeGroup sdk cfg groupId group) L := by
  have hsave : FoundPaid groupId (group.currentRound + 1 - 1) L := by
    rwa [add_sub_cancel_right]
  refine advances_query hL hsave fun L hL _ => Obeys.bind ?_
  have hnow : ∀ (e : ℕ → Effect), Advances groupId group.currentRound (do
      let completedAt ← dateNow
      emit (e completedAt)) L := fun e =>
    Obeys.bind (Obeys.perform (o := Op.now) trivial fun t => advances_emit (hL.cons _) (e t))
  refine (advances_logged (hnow _)).mono (fun _ _ L hL => ?_) fun _ _ _ hL => hL
  exact Obeys.bind ((advances_triggerPayout sdk cfg hL).mono (fun _ _ _ hL => Obeys.pure hL)
    fun _ _ _ hL => hL)

theorem advances_openNextRound (sdk : Sdk) (cfg : Config) {group : Group}
    (memberships : List Membership) (hL : FoundPaid groupId group.currentRound L) :
    Advances groupId group.currentRound
      (RoundService.openNextRound sdk cfg groupId group memberships) L := by
  refine advances_query hL trivial fun L hL _ => ?_
  have hsave : FoundPaid groupId (group.currentRound + 1 - 1) L := by
    rwa [add_sub_cancel_right]
  refine advances_query hL hsave fun L hL _ => Obeys.bind ?_
  refine (advances_triggerPayout sdk cfg hL).mono (fun _ _ L hL => ?_) fun _ _ _ hL => hL
  exact Obeys.bind ((advances_logged (advances_emit hL _)).mono (fun _ _ _ hL => Obeys.pure hL)
    fun _ _ _ hL => hL)

/-- The body keeps its rule. -/
abbrev KeepsCount (groupId : Uuid) (c : RoundCall) (m : Service Unit α) (L : Log Op.Ret) : Prop :=
  Obeys (CountRule groupId c) m (fun _ _ _ => True) (fun _ _ _ => True) () L

theorem keepsCount_query {c : RoundCall} {q : Query} {f : q.Ret → Service Unit α}
    (hq : CountRule groupId c L (.db q))
    (hf : ∀ a, KeepsCount groupId c (f a) (⟨.db q, .ok a⟩ :: L)) :
    KeepsCount groupId c (query q >>= f) L :=
  Obeys.bind (obeys_query hq hf fun _ => trivial)

theorem keepsCount_tryAdvanceRound (sdk : Sdk) (cfg : Config) :
    KeepsCount groupId .tryAdvanceRound (RoundService.tryAdvanceRound sdk cfg groupId) [] := by
  refine keepsCount_query trivial fun found => ?_
  cases found with
  | none => exact Obeys.pure trivial
  | some group =>
    refine Obeys.ite (fun _ => Obeys.pure trivial) fun _ => ?_
    refine keepsCount_query trivial fun memberships => ?_
    refine Obeys.ite (fun _ => Obeys.pure trivial) fun _ => ?_
    refine Obeys.ite (fun _ => Obeys.pure trivial) fun hpaid => ?_
    have hall : List.all memberships (·.hasPaidCurrentRound) = true := by simpa using hpaid
    have hL : FoundPaid groupId group.currentRound
        [⟨.db (.findMemberships (activeMembers groupId)), .ok memberships⟩,
          ⟨.db (.findGroup groupId), .ok (some group)⟩] :=
      ⟨memberships, [⟨.db (.findGroup groupId), .ok (some group)⟩], List.suffix_refl _, hall, rfl,
        group, List.mem_singleton_self _, rfl⟩
    refine Obeys.ite (fun _ => ?_) fun _ => ?_
    · exact (advances_completeGroup sdk cfg hL).mono (fun _ _ _ _ => trivial) fun _ _ _ _ => trivial
    · exact (advances_openNextRound sdk cfg memberships hL).mono (fun _ _ _ _ => trivial)
        fun _ _ _ _ => trivial

theorem keepsCount_handleTransferEvent (event : TransferEvent) :
    KeepsCount groupId (.handleTransferEvent event) (EventSyncProcessor.handleTransferEvent event)
      [] := by
  refine keepsCount_query trivial fun existing => ?_
  refine Obeys.ite (fun _ => Obeys.pure trivial) fun _ => ?_
  refine keepsCount_query trivial fun membership => ?_
  cases membership with
  | none => exact Obeys.pure trivial
  | some membership =>
    refine keepsCount_query trivial fun group => ?_
    cases group with
    | none => exact Obeys.pure trivial
    | some group =>
      refine Obeys.ite (fun _ => Obeys.pure trivial) fun _ => ?_
      refine Obeys.bind (Obeys.perform (o := Op.now) trivial fun timestamp => ?_)
      refine keepsCount_query trivial fun _ => ?_
      refine obeys_query (.inr ⟨group, ?_, rfl⟩) (fun _ => trivial) fun _ => trivial
      exact List.mem_cons_of_mem _ (List.mem_cons_of_mem _ List.mem_cons_self)

theorem keepsCount_handleContributionReceived {c : RoundCall} (payload : ContributionReceived) :
    KeepsCount groupId c (EventListenerService.handleContributionReceived payload) L := by
  have hadmits : Admits (CountRule groupId c) (·.reportsPayment = true) fun _ => True := by
    refine ⟨fun _ o _ ho => ?_, fun _ _ _ _ _ => trivial⟩
    cases o with
    | db q =>
      cases q with
      | saveGroup group => cases ho
      | saveMembership m => cases ho
      | _ => trivial
    | commit => cases ho
    | _ => trivial
  exact (Obeys.of_uses hadmits (uses_handleContributionReceived payload) trivial).mono
    (fun _ _ _ _ => trivial) fun _ _ _ _ => trivial

/-- **Every body keeps its rule.** -/
theorem follows_countRule (sdk : Sdk) (cfg : Config) (c : RoundCall) :
    Follows (CountRule groupId c) (fun _ _ => True) (roundBody sdk cfg groupId c) [] := by
  cases c with
  | tryAdvanceRound => exact follows_entry (keepsCount_tryAdvanceRound sdk cfg)
  | handleTransferEvent event => exact follows_entry (keepsCount_handleTransferEvent event)
  | handleContributionReceived payload =>
    exact follows_entry (keepsCount_handleContributionReceived payload)

end Bodies

/-! ### What a run keeps -/

section Runs

variable {sdk : Sdk} {cfg : Config} {groupId : Uuid} {round : ℤ} {h h' : RoundHist}

/-- The steps of the advances and the payments. -/
abbrev CountStep (sdk : Sdk) (cfg : Config) (groupId : Uuid) (h h' : RoundHist) : Prop :=
  HistStep (roundSystem sdk cfg groupId) (CountRule groupId) h h'

/-- What a run keeps while the group is in `round`: no call has found it in a later one, an advance
has found the members of the round paid only if they had, and no payment is for a later one. -/
structure Counted (groupId : Uuid) (round : ℤ) (h : RoundHist) : Prop where
  now : currentRound groupId h.world = some round
  read : ∀ pid group, ⟨.db (.findGroup groupId), .ok (some group)⟩ ∈ log pid h.trace →
    Group.currentRound group ≤ round
  met : ∀ pid, FoundPaid groupId round (log pid h.trace) → PaidDuring groupId round h.trace
  paid : ∀ id r, r ∈ paidFor groupId id h.trace → r ≤ round

theorem PaidDuring.mono {r : ℤ} {es es' : RoundEvents} (h : PaidDuring groupId r es)
    (hes : es ⊆ es') : PaidDuring groupId r es' := by
  obtain ⟨pid, o, ret, before, hmem, hpaid⟩ := h
  exact ⟨pid, o, ret, before, hes hmem, hpaid⟩

/-- **A step in time** leaves the round as it is, or leaves a round in which all had paid. -/
theorem Counted.round_step (hc : Counted groupId round h) (hstep : CountStep sdk cfg groupId h h')
    (hok : inTime groupId h h' = true) :
    currentRound groupId h'.world = some round ∨
      currentRound groupId h'.world = some (round + 1) ∧ PaidDuring groupId round h.trace := by
  rcases group_step (fun _ _ h => h) hstep with hsame | ⟨pid, c, group, r, htrace, hrule, hrow⟩
  · left
    rw [currentRound, hsame]
    exact hc.now
  · unfold inTime at hok
    rw [htrace] at hok
    rcases of_decide_eq_true hok with hsame | hnow
    · left
      rw [currentRound, hsame]
      exact hc.now
    · have hround : round = group.currentRound - 1 := Option.some.inj (hc.now.symm.trans hnow)
      refine .inr ⟨?_, hc.met pid (hround ▸ hrule)⟩
      rw [currentRound, hrow, hround, sub_add_cancel]
      rfl

/-- A payment in time is for a round that has begun. -/
theorem Counted.paymentRound_le (hc : Counted groupId round h) {pid : ℕ} {c : RoundCall} {o : Op}
    {r : o.Ret} {id : Uuid} {paid : ℤ} (hcall : callOf pid h.trace = some c)
    (hrule : CountRule groupId c (log pid h.trace) o)
    (htrace : h'.trace = .did pid o r h.world :: h.trace) (hok : inTime groupId h h' = true)
    (hpaid : paymentRound groupId id h.trace pid o h.world = some paid) : paid ≤ round := by
  unfold paymentRound at hpaid
  rw [hcall] at hpaid
  split at hpaid
  · next event m heq =>
    obtain rfl := Option.some.inj heq
    split_ifs at hpaid with hid
    obtain ⟨group, hmem, hfound⟩ := hrule.resolve_left nofun
    rw [hid.2] at hmem
    rw [hfound] at hpaid
    obtain rfl := Option.some.inj hpaid
    exact hc.read pid group hmem
  · next payload sel heq =>
    obtain rfl := Option.some.inj heq
    split_ifs at hpaid with hid
    obtain rfl := Option.some.inj hpaid
    unfold inTime at hok
    rw [htrace] at hok
    dsimp only at hok
    rw [hcall, hc.now] at hok
    rcases of_decide_eq_true hok with hother | hle
    · exact absurd hid.1 hother
    · exact of_decide_eq_true hle
  · cases hpaid

/-- An advance that has found its members paid did so before, or does so with this event. -/
theorem FoundPaid.of_cons {e : Entry Op.Ret} {L : Log Op.Ret}
    (hf : FoundPaid groupId round (e :: L)) : FoundPaid groupId round L ∨
      ∃ ms group, e = ⟨.db (.findMemberships (activeMembers groupId)), .ok ms⟩ ∧
        List.all ms (·.hasPaidCurrentRound) = true ∧
        ⟨.db (.findGroup groupId), .ok (some group)⟩ ∈ L ∧ Group.currentRound group = round := by
  obtain ⟨ms, L', hsuffix, hpaid, hfound, group, hmem, hround⟩ := hf
  rcases List.suffix_cons_iff.mp hsuffix with heq | hold
  · obtain ⟨rfl, rfl⟩ := List.cons.inj heq
    exact .inr ⟨ms, group, rfl, hpaid, hmem, hround⟩
  · exact .inl ⟨ms, L', hold, hpaid, hfound, group, hmem, hround⟩

theorem FoundPaid.exists_read {L : Log Op.Ret} (hf : FoundPaid groupId round L) :
    ∃ group, ⟨.db (.findGroup groupId), .ok (some group)⟩ ∈ L ∧ Group.currentRound group = round := by
  obtain ⟨ms, L', hsuffix, -, -, group, hmem, hround⟩ := hf
  exact ⟨group, ((List.suffix_cons _ L').trans hsuffix).subset hmem, hround⟩

/-- What the calls have read is not from a later round. -/
theorem Counted.read_step (hc : Counted groupId round h) (hstep : CountStep sdk cfg groupId h h')
    {pid : ℕ} {group : Group}
    (hmem : ⟨.db (.findGroup groupId), .ok (some group)⟩ ∈ log pid h'.trace) :
    group.currentRound ≤ round := by
  rcases hstep.mem_log hmem with hold | ⟨choice, hexec⟩
  · exact hc.read pid group hold
  · have hrow : h.world.db.groups.row groupId = some group := Except.ok.inj (exec_db_ok hexec).1
    have hnow := hc.now
    rw [currentRound, hrow] at hnow
    exact (Option.some.inj hnow).le

/-- An advance that finds the members of the present round paid is a witness of it. -/
theorem Counted.met_step (hc : Counted groupId round h) (hstep : CountStep sdk cfg groupId h h')
    {pid : ℕ} (hf : FoundPaid groupId round (log pid h'.trace)) : PaidDuring groupId round h'.trace := by
  cases hstep with
  | idle e he hlive =>
    rw [Hist.push_trace, he] at hf
    exact (hc.met pid hf).mono (List.subset_cons_self _ _)
  | did p c o choice r w hstart hrule hexec hlive =>
    by_cases hp : p = pid
    · subst hp
      rw [Hist.push_trace, log_did_self] at hf
      rcases hf.of_cons with hold | ⟨ms, group, heq, hpaid, -⟩
      · exact (hc.met p hold).mono (List.subset_cons_self _ _)
      · cases heq
        have hms : h.world.db.memberships.filter (activeMembers groupId).selects = ms :=
          Except.ok.inj (exec_db_ok hexec).1
        refine ⟨p, _, _, h.world, List.mem_cons_self, hc.now, ?_⟩
        rw [allPaid, hms]
        exact hpaid
    · rw [Hist.push_trace, log_cons_of_ne (e := .did p o r h.world) hp] at hf
      exact (hc.met pid hf).mono (List.subset_cons_self _ _)

/-- **The invariant**: a step in time keeps it, in the same round or in the next. -/
theorem Counted.step {Q : RoundCall → Except Exc Unit → Log Op.Ret → Prop}
    (hd : Disciplined (CountRule groupId) Q h) (hc : Counted groupId round h)
    (hstep : CountStep sdk cfg groupId h h') (hok : inTime groupId h h' = true) :
    ∃ round', Counted groupId round' h' := by
  obtain ⟨round', hnow, hround⟩ : ∃ round', currentRound groupId h'.world = some round' ∧
      (round' = round ∨ round' = round + 1) := by
    rcases hc.round_step hstep hok with hsame | ⟨hnext, -⟩
    · exact ⟨round, hsame, .inl rfl⟩
    · exact ⟨round + 1, hnext, .inr rfl⟩
  have hle : round ≤ round' := by omega
  refine ⟨round', hnow, fun pid group hmem => (hc.read_step hstep hmem).trans hle, fun pid hf => ?_,
    fun id r hr => ?_⟩
  · rcases hround with rfl | rfl
    · exact hc.met_step hstep hf
    · -- no call can have read the new round yet
      obtain ⟨group, hmem, heq⟩ := hf.exists_read
      have hread := hc.read_step hstep hmem
      omega
  · refine le_trans ?_ hle
    cases hstep with
    | idle e he hlive =>
      refine hc.paid id r ?_
      rw [Hist.push_trace] at hr
      cases e with
      | did p o r' w => exact absurd rfl (not_did_of_log he p o r' w)
      | _ => exact hr
    | did p c o choice ret w hstart hrule hexec hlive =>
      have hcall : callOf p h.trace = some c :=
        callOf_of_start (fun c' hc' => hd.start_unique p c' c hc' hstart) hstart
      rw [Hist.push_trace, paidFor] at hr
      rcases Option.or_eq_some_iff.mp hr with hnew | ⟨-, hold⟩
      · exact hc.paymentRound_le hcall hrule rfl hok hnew
      · exact hc.paid id r hold

/-- Only a save of a membership, a write of the flags and a commit change the memberships. -/
theorem memberships_exec {q : Query} {r : Except Exc q.Ret} {pid : ℕ} {choice : Choice}
    {w w' : World} (hq : q.writesMemberships = false)
    (h : exec (.db q) pid choice w = some (r, w')) : w'.db.memberships = w.db.memberships := by
  rcases db_of_exec_db h with hdb | hdb
  · rw [hdb]
  · rw [hdb, Query.memberships_eval hq]

/-- What a save of a membership leaves of the flags. -/
theorem isPaid_saveMembership {m : Membership} {r : Except Exc Unit} {pid : ℕ} {choice : Choice}
    {w w' : World} (h : exec (.db (.saveMembership m)) pid choice w = some (r, w')) {id : Uuid}
    (hm : isPaid w m.id = true → m.hasPaidCurrentRound = true) (hid : isPaid w id = true) :
    isPaid w' id = true := by
  rcases db_of_exec_db h with hdb | hdb
  · rwa [isPaid, hdb]
  · have hrow : w'.db.memberships.row id = if id = m.id then some m else w.db.memberships.row id := by
      rw [hdb]
      exact Store.Table.row_put _ _ _
    rw [isPaid, hrow]
    split_ifs with heq
    · exact hm (heq ▸ hid)
    · exact hid

/-- Marking memberships as paid clears no flag. -/
theorem isPaid_updateHasPaid {sel : MembershipWhere} {r : Except Exc Unit} {pid : ℕ}
    {choice : Choice} {w w' : World}
    (h : exec (.db (.updateHasPaid sel true)) pid choice w = some (r, w')) {id : Uuid}
    (hid : isPaid w id = true) : isPaid w' id = true := by
  rcases db_of_exec_db h with hdb | hdb
  · rwa [isPaid, hdb]
  · have hrow : w'.db.memberships.row id = (w.db.memberships.row id).map fun m =>
        if sel.selects m then Store.Entity.withId id { m with hasPaidCurrentRound := true } else m := by
      rw [hdb]
      exact Store.Table.row_modify _ _ _ _
    rw [isPaid, hrow, Option.any_map]
    cases hold : w.db.memberships.row id with
    | none =>
      rw [isPaid, hold] at hid
      cases hid
    | some m =>
      rw [isPaid, hold] at hid
      change (if sel.selects m then _ else m : Membership).hasPaidCurrentRound = true
      split_ifs
      · rfl
      · exact hid

/-- **An advance in time** clears only flags of payments for the round that it leaves. -/
theorem Counted.flags (hc : Counted groupId round h) (hstep : CountStep sdk cfg groupId h h')
    (hok : inTime groupId h h' = true) {pid : ℕ} {o : Op} {r : o.Ret} {left : ℤ} {id : Uuid}
    (htrace : h'.trace = .did pid o r h.world :: h.trace)
    (hcall : callOf pid h.trace = some .tryAdvanceRound)
    (hfound : roundFound (log pid h.trace) = some left) (hid : isPaid h.world id = true)
    (hid' : isPaid h'.world id = false) : ∀ paid ∈ paidFor groupId id h.trace, paid ≤ left := by
  have hcleared : ¬ isPaid h'.world id = true := by
    rw [hid']
    nofun
  cases hstep with
  | idle e he hlive => exact absurd hid hcleared
  | did p c o' choice r' w hstart hrule hexec hlive =>
    cases (List.cons.inj htrace).1
    have hkept : w.db.memberships ≠ h.world.db.memberships := fun heq => hcleared (by
      rw [isPaid, Hist.push_world, heq]
      exact hid)
    have hchanges : Changes o h.world w := changes_of_exec hexec
    unfold inTime at hok
    cases o with
    | db q =>
      cases q with
      | saveMembership m =>
        dsimp only [Hist.push_trace] at hok
        rw [hcall] at hok
        exact absurd (isPaid_saveMembership hexec (of_decide_eq_true hok) hid) hcleared
      | updateHasPaid sel paid =>
        cases paid with
        | true => exact absurd (isPaid_updateHasPaid hexec hid) hcleared
        | false =>
          have hround : round = left :=
            Option.some.inj ((hc.now.symm.trans (of_decide_eq_true hok)).trans hfound)
          exact hround ▸ hc.paid id
      | _ => exact absurd (memberships_exec rfl hexec) hkept
    | commit => exact absurd hrule not_false
    | _ => exact absurd (congrArg Database.memberships (hchanges.db rfl)) hkept

/-- **The current round counts the rounds that have been paid**, in every run in which all writes
come in time. -/
theorem countsPaidRounds_of_reachable {w : World} (hgroup : (currentRound groupId w).isSome = true)
    {s s' : RoundState}
    (hr : (roundSystem sdk cfg groupId).ReachableWhen (fun h h' => inTime groupId h h' = true)
      (.init w) s)
    (hstep : (roundSystem sdk cfg groupId).Step (fun h h' => inTime groupId h h' = true) s s') :
    CountsPaidRounds groupId s.hist s'.hist := by
  obtain ⟨round, hnow⟩ := Option.isSome_iff_exists.mp hgroup
  obtain ⟨round, hc⟩ : ∃ round, Counted groupId round s.hist := by
    refine hist_invariant (I := fun h => ∃ round, Counted groupId round h)
      (follows_countRule sdk cfg) ⟨round, hnow, ?_, ?_, ?_⟩ ?_ hr
    · exact fun _ _ hmem => absurd hmem List.not_mem_nil
    · rintro _ ⟨_, _, hsuffix, -⟩
      exact absurd (List.suffix_nil.mp hsuffix) (List.cons_ne_nil _ _)
    · exact fun _ _ hpaid => absurd hpaid nofun
    · rintro h h' hd - ⟨round, hc⟩ hstep hok
      exact hc.step hd hstep hok
  obtain ⟨⟨m, hm⟩, hok⟩ := hstep
  have hl := (hr.rule (J := fun _ => True) trivial fun _ _ _ _ _ _ _ => trivial).1
  have hhist : CountStep sdk cfg groupId s.hist s'.hist :=
    (orderly_of_reachable (follows_countRule sdk cfg) hr).histStep hl (System.stepKind_of_move hm)
  refine ⟨fun r hnow => ?_, fun pid o r left htrace hcall hfound id hid hid' => ?_⟩
  · obtain rfl := Option.some.inj (hc.now.symm.trans hnow)
    exact hc.round_step hhist hok
  · exact hc.flags hhist hok htrace hcall hfound hid hid'

end Runs

/-! ### An advance that lags behind -/

section Lagging

variable {sdk : Sdk} {cfg : Config} {groupId id : Uuid} {s s' : RoundState} {pid : ℕ}
  {choice : Choice}

/-- The step of a call performs an operation. -/
theorem exists_did_of_run (h : (roundSystem sdk cfg groupId).move s (.run pid choice) = some s') :
    ∃ o r, s'.hist.trace = .did pid o r s.hist.world :: s.hist.trace := by
  simp only [System.move] at h
  split at h
  · next o k htask =>
    obtain ⟨⟨r, w⟩, -, rfl⟩ := Option.map_eq_some_iff.mp h
    exact ⟨o, r, rfl⟩
  · cases h

/-- The advance has found the group in the first round, and its step clears a flag that is set for
the second. -/
def clearsNext (groupId id : Uuid) (pid : ℕ) (s s' : RoundState) : Bool :=
  match callOf pid s.hist.trace with
  | some .tryAdvanceRound =>
      roundFound (log pid s.hist.trace) = some 1 ∧ isPaid s.hist.world id ∧
        isPaid s'.hist.world id = false ∧ paidFor groupId id s.hist.trace = some 2
  | _ => false

theorem not_countsPaidRounds_of_clearsNext
    (hmove : (roundSystem sdk cfg groupId).move s (.run pid choice) = some s')
    (h : clearsNext groupId id pid s s' = true) :
    ¬ CountsPaidRounds groupId s.hist s'.hist := by
  intro hcounts
  obtain ⟨o, r, htrace⟩ := exists_did_of_run hmove
  unfold clearsNext at h
  split at h
  · next hcall =>
    obtain ⟨hfound, hpaid, hcleared, hround⟩ := of_decide_eq_true h
    have hle := hcounts.flags pid o r 1 htrace hcall hfound id hpaid hcleared 2 hround
    exact absurd hle (by decide)
  · cases h

end Lagging

namespace Sample

/-- The event of the member's payment for the second round. -/
def secondPayment : ContributionReceived where
  groupId := some 0
  userId := some 0
  walletAddress := some "G0"
  amount := some "100"
  roundNumber := some 2
  transactionHash := "second"
  createdAt := some 0

/-- Two advances find the member of the first round paid, one of them moves on, and the member pays
for the second round. -/
def overtaken : List (Move Choice RoundCall) :=
  [.start .tryAdvanceRound, .start .tryAdvanceRound, .run 0 .done, .run 1 .done, .run 0 .done,
    .run 1 .done, .run 0 .done, .run 0 .done, .start (.handleContributionReceived secondPayment),
    .run 2 .done, .run 2 .done, .run 2 .done]

/-- The world of a group in its first round, which its one member has paid. -/
def paidOnce : World := world group [member]

end Sample

theorem countsPaidRounds_sample : ∃ s s' : RoundState,
    currentRound 0 s.hist.world = some 1 ∧ currentRound 0 s'.hist.world = some 2 ∧
      CountsPaidRounds 0 s.hist s'.hist := by
  obtain ⟨s, hr, hs⟩ := System.exists_of_replay (roundSystem Sample.sdk Sample.cfg 0)
    (fun h h' => inTime 0 h h' = true) (.init Sample.paidOnce)
    (.start .tryAdvanceRound :: List.replicate 3 (.run 0 .done))
    (fun s => currentRound 0 s.hist.world = some 1 ∧
      ((roundSystem Sample.sdk Sample.cfg 0).move s (.run 0 .done)).any fun s' =>
        inTime 0 s.hist s'.hist && decide (currentRound 0 s'.hist.world = some 2))
    (by decide +kernel)
  obtain ⟨hfirst, hs'⟩ := of_decide_eq_true hs
  obtain ⟨s', hmove, hs'⟩ := System.exists_of_any hs'
  obtain ⟨hok, hsecond⟩ := Bool.and_eq_true_iff.mp hs'
  exact ⟨s, s', hfirst, of_decide_eq_true hsecond,
    countsPaidRounds_of_reachable (by decide +kernel) hr ⟨⟨_, hmove⟩, hok⟩⟩

/-- **An advance that lags behind** resets the flag of a payment for the next round. -/
theorem not_countsPaidRounds : ¬ ∀ w : World, (currentRound 0 w).isSome = true →
    ∀ s s' : RoundState, (roundSystem Sample.sdk Sample.cfg 0).Reachable (.init w) s →
      (roundSystem Sample.sdk Sample.cfg 0).Step (fun _ _ => True) s s' →
        CountsPaidRounds 0 s.hist s'.hist := by
  intro h
  obtain ⟨s, hr, hs⟩ := System.exists_of_replay (roundSystem Sample.sdk Sample.cfg 0)
    (fun _ _ => True) (.init Sample.paidOnce) Sample.overtaken
    (fun s => ((roundSystem Sample.sdk Sample.cfg 0).move s (.run 1 .done)).any fun s' =>
      clearsNext 0 0 1 s s')
    (by decide +kernel)
  obtain ⟨s', hmove, hclears⟩ := System.exists_of_any hs
  exact not_countsPaidRounds_of_clearsNext hmove hclears
    (h _ (by decide +kernel) s s' hr ⟨⟨_, hmove⟩, trivial⟩)

end Ahjoor
