import Ahjoor.Contributions.Requests

/-!
# Whose payment it is

A stored contribution credits its user. That the user is an active member, and that it is the
wallet of the membership that has made the payment, is taken for granted: `createContribution`
refuses suspended members only, and compares no wallets. A row is stored rightly exactly as far as
the requests themselves are made by the right users.
-/

namespace Ahjoor

open Async Store

/-! ### Members -/

instance : Entity Member := ⟨Member.id, fun i m => { m with id := i }, fun _ _ => rfl⟩

theorem id_member (m : Membership) : Entity.id m.member = Entity.id m := rfl

/-- The memberships, without the columns that a round or a payout changes. -/
def Database.members (d : Database) : Table Member := d.memberships.map Membership.member id_member

/-- The membership of a user in a group. -/
def Database.membershipOf (d : Database) (groupId userId : Uuid) : Option Membership :=
  d.memberships.find? ({ groupId := some groupId, userId := some userId } : MembershipWhere).selects

/-- The memberships of the user in the group, by the columns that do not change. -/
def Member.isOf (groupId userId : Uuid) (m : Member) : Bool :=
  groupId == m.groupId && userId == m.userId

/-- The lookup of a membership does not depend on the columns that change. -/
theorem find?_members (d : Database) (groupId userId : Uuid) :
    d.members.find? (Member.isOf groupId userId) =
      (d.membershipOf groupId userId).map Membership.member := by
  have hselects : Member.isOf groupId userId ∘ Membership.member = MembershipWhere.selects
      { groupId := some groupId, userId := some userId } := by
    funext m
    simp [Member.isOf, Membership.member, MembershipWhere.selects, given, Bool.beq_comm]
  rw [Database.members, Table.find?_map, hselects]
  rfl

theorem members_save {d : Database} {m : Membership}
    (h : d.members.row m.id = some m.member) :
    (d.memberships.put m).map Membership.member id_member = d.members := by
  obtain ⟨b, hb, hsame⟩ := Option.map_eq_some_iff.mp h
  exact Table.map_put_of_row hb hsame.symm

theorem members_eval {q : Query} (hq : ∀ m, q ≠ .saveMembership m) (d : Database) :
    (q.eval d).2.members = d.members := by
  by_cases hwrites : q.writesMemberships = true
  · cases q with
    | saveMembership m => exact absurd rfl (hq m)
    | updateHasPaid sel paid => exact Table.map_modify fun m => rfl
    | _ => cases hwrites
  · have hsame := Query.memberships_eval (Bool.eq_false_iff.mpr hwrites) d
    rw [Database.members, hsame]
    rfl

/-! ### What is claimed -/

/-- The history of a run of requests. -/
abbrev RequestHist := Hist Op.Ret World ContributionRequest (Except Exc Contribution)

/-- An event of a run of requests. -/
abbrev RequestEvent := Event Op.Ret World ContributionRequest (Except Exc Contribution)

variable (madeBy : String → Option String)

/-- **The contribution credits the one who has paid**: when it was stored, its user had an active
membership in its group, and the wallet of the membership has made the call of its transaction. -/
def CreditsPayer (es : List RequestEvent) (c : Contribution) : Prop :=
  ∃ pid row r w, .did pid (.db (.insertContributionOrIgnore row)) r w ∈ es ∧
    w.db.contributions.next = c.id ∧ c = { row with id := c.id, status := c.status } ∧
      ∃ i m, w.db.memberships.row i = some m ∧ m.groupId = c.groupId ∧ m.userId = c.userId ∧
        m.status = .active ∧ madeBy c.transactionHash = some m.walletAddress

/-- Every contribution stored since `w₀` credits the one who has paid. -/
def AllCreditPayers (w₀ : World) (h : RequestHist) : Prop :=
  ∀ i c, h.world.db.contributions.row i = some c → w₀.db.contributions.row i = none →
    CreditsPayer madeBy h.trace c

/-- What is not checked of a contribution: the user has a membership in the group that is not
removed, and its wallet has made the call of the transaction. -/
def unchecked (d : Database) (c : Contribution) : Bool :=
  (d.membershipOf c.groupId c.userId).any fun m =>
    m.status != .removed && madeBy c.transactionHash == some m.walletAddress

/-- Whenever a contribution is stored, what is not checked of it is true. -/
def storesTrue (_ h' : RequestHist) : Bool :=
  match h'.trace with
  | .did _ (.db (.insertContributionOrIgnore row)) _ w :: _ =>
      !decide (w.db.contributions.next < h'.world.db.contributions.next) || unchecked madeBy w.db row
  | _ => true

variable {madeBy} {w₀ : World} {h h' : RequestHist} {sdk : Sdk} {cfg : Config}

theorem CreditsPayer.mono {es es' : List RequestEvent} {c : Contribution}
    (hc : CreditsPayer madeBy es c) (hsub : es ⊆ es') : CreditsPayer madeBy es' c := by
  obtain ⟨pid, row, r, w, hmem, hrest⟩ := hc
  exact ⟨pid, row, r, w, hsub hmem, hrest⟩

theorem CreditsPayer.status {es : List RequestEvent} {c : Contribution} {status : ContributionStatus}
    (hc : CreditsPayer madeBy es { c with status := status }) : CreditsPayer madeBy es c := by
  obtain ⟨pid, row, r, w, hmem, hid, hrow, hmember⟩ := hc
  refine ⟨pid, row, r, w, hmem, hid, ?_, hmember⟩
  have hcopy := congrArg (fun c' : Contribution => { c' with status := c.status }) hrow
  exact hcopy

/-! ### What requests know of memberships -/

/-- What the requests have read of memberships is still true. -/
structure Informed (w₀ : World) (h : RequestHist) : Prop where
  members : h.world.db.members = w₀.db.members
  read : ∀ pid sel m, ⟨.db (.findMembership sel), .ok (some m)⟩ ∈ log pid h.trace →
    w₀.db.members.row m.id = some m.member
  looked : ∀ pid groupId userId found, ⟨.db (.findMembership
      { groupId := some groupId, userId := some userId }), .ok found⟩ ∈ log pid h.trace →
    found.map Membership.member = w₀.db.members.find? (Member.isOf groupId userId)

theorem Informed.reread (hi : Informed w₀ h) {pid : ℕ} {m : Membership}
    (hread : Reread (log pid h.trace) m) : w₀.db.members.row m.id = some m.member := by
  obtain ⟨sel, m₀, hmem, hsame⟩ := hread
  have hid : m.id = m₀.id := congrArg Member.id hsame
  rw [hid, hsame]
  exact hi.read pid sel m₀ hmem

theorem Informed.members_of_exec (hi : Informed w₀ h) {request : ContributionRequest} {pid : ℕ}
    {o : Op} {choice : Choice} {r : o.Ret} {w : World}
    (hD : MayRequest request.dto request.key (log pid h.trace) o)
    (hexec : exec o pid choice h.world = some (r, w)) : w.db.members = w₀.db.members := by
  have hquery : ∀ {q : Query} {r : Except Exc q.Ret}, (∀ m, q ≠ .saveMembership m) →
      exec (.db q) pid choice h.world = some (r, w) → w.db.members = w₀.db.members := by
    intro q r hq hexec
    rcases db_of_exec_db hexec with hdb | hdb
    · rw [hdb, hi.members]
    · rw [hdb, members_eval hq, hi.members]
  have hother : o.onTables = false → w.db.members = w₀.db.members := by
    intro ho
    rw [(changes_of_exec hexec).db ho, hi.members]
  cases hD with
  | spare hspare =>
    cases o with
    | db q =>
      refine hquery (fun m hq => ?_) hexec
      subst hq
      cases hspare
    | commit => cases hspare
    | _ => exact hother rfl
  | @save m hreread =>
    rcases db_of_exec_db hexec with hdb | hdb
    · rw [hdb, hi.members]
    · have hrow := hi.reread hreread
      rw [← hi.members] at hrow ⊢
      rw [hdb]
      exact members_save hrow
  | file group locked hlooked hholding hunfiled =>
    refine hquery (fun m hq => ?_) hexec
    cases hq
  | submit id =>
    refine hquery (fun m hq => ?_) hexec
    cases hq
  | acquire hkey hne => exact hother rfl
  | release hkey hholds => exact hother rfl

/-- A lookup answers with what the table has. -/
theorem members_of_found {d : Database} {sel : MembershipWhere} {m : Membership}
    (h : d.memberships.find? sel.selects = some m) : d.members.row m.id = some m.member := by
  have hrow : d.memberships.row m.id = some m := (Table.of_find?_eq_some h).1
  rw [Database.members, Table.row_map, hrow]
  rfl

theorem Informed.step (hi : Informed w₀ h)
    (hs : HistStep (requestSystem sdk cfg) (fun request => MayRequest request.dto request.key) h h') :
    Informed w₀ h' := by
  have hmembers : h'.world.db.members = w₀.db.members := by
    cases hs with
    | idle e he hlive => exact hi.members
    | did pid request o choice r w hstart hD hexec hlive => exact hi.members_of_exec hD hexec
  refine ⟨hmembers, fun pid sel m hmem => ?_, fun pid groupId userId found hmem => ?_⟩
  · rcases hs.mem_log hmem with hold | ⟨choice, hexec⟩
    · exact hi.read pid sel m hold
    · rw [← hi.members]
      exact members_of_found (Except.ok.inj (exec_db_ok hexec).1)
  · rcases hs.mem_log hmem with hold | ⟨choice, hexec⟩
    · exact hi.looked pid groupId userId found hold
    · obtain rfl : h.world.db.membershipOf groupId userId = found :=
        Except.ok.inj (exec_db_ok hexec).1
      rw [← hi.members, find?_members]

/-! ### Rows -/

/-- The membership that a request has looked at is not suspended. -/
theorem Informed.not_suspended (hi : Informed w₀ h) {dto : CreateContributionDto} {pid : ℕ}
    (hlooked : Looked dto (log pid h.trace)) {m : Membership}
    (hm : h.world.db.membershipOf dto.groupId dto.userId = some m) : m.status ≠ .suspended := by
  obtain ⟨found, hmem, hsuspended⟩ := hlooked
  have hfound := hi.looked pid dto.groupId dto.userId found hmem
  rw [← hi.members, find?_members, hm] at hfound
  obtain ⟨m', rfl, hsame⟩ := Option.map_eq_some_iff.mp hfound
  have hstatus : m'.status = m.status := congrArg Member.status hsame
  rintro hs
  rw [hs] at hstatus
  simp [hstatus] at hsuspended

/-- **A row that is stored when what is not checked is true** credits the one who has paid. -/
theorem creditsPayer_of_file (hi : Informed w₀ h) {request : ContributionRequest} {pid : ℕ}
    {row : Contribution} {r : Except Exc (Option Uuid)} {c : Contribution}
    (hD : MayRequest request.dto request.key (log pid h.trace) (.db (.insertContributionOrIgnore row)))
    (hc : c = { row with id := h.world.db.contributions.next })
    (hunchecked : unchecked madeBy h.world.db row = true) :
    CreditsPayer madeBy (.did pid (.db (.insertContributionOrIgnore row)) r h.world :: h.trace) c := by
  subst hc
  refine ⟨pid, row, r, h.world, List.mem_cons_self, rfl, rfl, ?_⟩
  cases hD with
  | spare hspare => cases hspare
  | file group locked hlooked hholding hunfiled =>
    obtain ⟨m, hm, htrue⟩ := System.exists_of_any hunchecked
    obtain ⟨hremoved, hmade⟩ := Bool.and_eq_true_iff.mp htrue
    obtain ⟨hrow, hselects⟩ := Table.of_find?_eq_some hm
    have hsuspended := hi.not_suspended hlooked hm
    simp only [MembershipWhere.selects, given, Option.all_some, Bool.and_eq_true, beq_iff_eq]
      at hselects
    refine ⟨m.id, m, hrow, hselects.1.1.1.1.symm, hselects.1.1.1.2.symm, ?_, beq_iff_eq.mp hmade⟩
    cases hstatus : m.status with
    | active => rfl
    | suspended => exact absurd hstatus hsuspended
    | removed => simp [hstatus] at hremoved

theorem allCreditPayers_step (hi : Informed w₀ h) (hall : AllCreditPayers madeBy w₀ h)
    (hs : HistStep (requestSystem sdk cfg) (fun request => MayRequest request.dto request.key) h h')
    (hok : storesTrue madeBy h h' = true) : AllCreditPayers madeBy w₀ h' := by
  intro i c hc hnew
  cases hs with
  | idle e he hlive => exact (hall i c hc hnew).mono (List.subset_cons_self _ _)
  | did pid request o choice r w hstart hD hexec hlive =>
    rcases (wrote_of_exec hD hexec).origin hc with ⟨status, hold⟩ | ⟨row, rfl, hrow, rfl, -⟩
    · exact (hall i _ hold hnew).status.mono (List.subset_cons_self _ _)
    · have hstored : h.world.db.contributions.next < w.db.contributions.next :=
        w.db.contributions.lt_next hc
      refine creditsPayer_of_file hi hD hrow ?_
      simpa [storesTrue, hstored] using hok

/-! ### Runs -/

/-- **Contributions credit those who have paid** in every run of requests, however they interleave,
as long as what is not checked of a contribution is true whenever one is stored. -/
theorem allCreditPayers_of_storesTrue (sdk : Sdk) (cfg : Config) (madeBy : String → Option String)
    (w₀ : World) {s : State Op.Ret World ContributionRequest (Except Exc Contribution)}
    (hs : (requestSystem sdk cfg).ReachableWhen (fun h h' => storesTrue madeBy h h' = true)
      (.init w₀) s) : AllCreditPayers madeBy w₀ s.hist := by
  refine (hist_invariant (follows_request sdk cfg)
    (I := fun h => Informed w₀ h ∧ AllCreditPayers madeBy w₀ h) ⟨⟨rfl, ?_, ?_⟩, ?_⟩ ?_ hs).2
  · intro pid sel m hmem
    cases hmem
  · intro pid groupId userId found hmem
    cases hmem
  · intro i c hc hnew
    rw [hnew] at hc
    cases hc
  · intro h h' _ _ hI hstep hok
    exact ⟨hI.1.step hstep, allCreditPayers_step hI.1 hI.2 hstep hok⟩

namespace Sample

/-- The contribution of a user for the payment with the hash. -/
def contributionOf (userId : Uuid) : ContributionRequest where
  polls := 0
  dto := {
    groupId := 0
    userId
    walletAddress := "G0"
    roundNumber := 1
    transactionHash := "hash"
    amount := "100"
    timestamp := 0 }
  key := none

/-- The payment has been made by the member of the group. -/
def paidByMember (_ : String) : Option String := some "G0"

/-- The request reads the group and the membership, the transaction is verified, and the contribution
is stored. -/
def storing : List (Move Choice ContributionRequest) :=
  [.run 0 .done, .run 0 (.answer (.text none)), .run 0 .done, .run 0 (.time 0),
    .run 0 (.answer (.bool true)), .run 0 (.answer (.details ⟨"100", "XLM", none⟩)),
    .run 0 (.time 0), .run 0 .done]

/-- A contribution is stored while the user is no member. -/
def storedForStranger : Event Op.Ret World ContributionRequest (Except Exc Contribution) → Bool
  | .did _ (.db (.insertContributionOrIgnore _)) _ w => w.db.memberships.rows.all (·.userId != 1)
  | _ => true

end Sample

/-- The member has paid, and is credited. -/
theorem allCreditPayers_sample : ∃ s : State Op.Ret World ContributionRequest (Except Exc Contribution),
    (s.hist.world.db.contributions.row 0).isSome = true ∧
      AllCreditPayers Sample.paidByMember (Sample.world Sample.group [Sample.member]) s.hist := by
  obtain ⟨s, hs, hstored⟩ := System.exists_of_replay (requestSystem Sample.sdk Sample.cfg)
    (fun h h' => storesTrue Sample.paidByMember h h' = true)
    (.init (Sample.world Sample.group [Sample.member]))
    (.start (Sample.contributionOf 0) :: Sample.storing)
    (fun s => (s.hist.world.db.contributions.row 0).isSome) (by decide +kernel)
  exact ⟨s, hstored, allCreditPayers_of_storesTrue Sample.sdk Sample.cfg Sample.paidByMember _ hs⟩

/-- A stranger claims the payment of the member, and is credited for it. -/
theorem not_allCreditPayers : ¬ ∀ (cfg : Config) (madeBy : String → Option String) (w₀ : World)
    (s : State Op.Ret World ContributionRequest (Except Exc Contribution)),
    (requestSystem Sample.sdk cfg).Reachable (.init w₀) s → AllCreditPayers madeBy w₀ s.hist := by
  intro hall
  obtain ⟨s, hs, hstored⟩ := System.exists_of_replay (requestSystem Sample.sdk Sample.cfg)
    (fun _ _ => True) (.init (Sample.world Sample.group [Sample.member]))
    (.start (Sample.contributionOf 1) :: Sample.storing)
    (fun s => (s.hist.world.db.contributions.row 0).any (·.userId == 1) &&
      s.hist.trace.all Sample.storedForStranger) (by decide +kernel)
  obtain ⟨hrow, htrace⟩ := Bool.and_eq_true_iff.mp hstored
  obtain ⟨c, hc, huser⟩ := System.exists_of_any hrow
  obtain ⟨pid, row, r, w, hmem, -, -, i, m, hm, -, hmUser, -⟩ :=
    hall Sample.cfg Sample.paidByMember _ s hs 0 c hc rfl
  have hstrangers := List.all_eq_true.mp htrace _ hmem
  have hmember := List.all_eq_true.mp hstrangers m
    (w.db.memberships.mem_rows.mpr ((w.db.memberships.id_of_row hm) ▸ hm))
  rw [beq_iff_eq] at huser
  simp [hmUser, huser] at hmember

end Ahjoor
