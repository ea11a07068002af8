import Ahjoor.Payments.PenaltyClock

/-!
# Requests on a plan at the same time

Requests read a plan, decide, and save the whole copy, and nothing keeps others out in between. As
long as no request saves a copy of a plan that has changed since, the requests that go through take
effect in the order of their saves, as if one had run after another.
-/

namespace Ahjoor.Payments

open Async Store

/-! ### What is claimed -/

/-- The list names the requests that have returned with a result in `keep`, each once. -/
structure Lists (keep : Result → Bool) (h : PlanHist) (order : List (ℕ × Call × Result)) :
    Prop where
  nodup : (order.map Prod.fst).Nodup
  mem_iff : ∀ pid c a, (pid, c, a) ∈ order ↔
    .start pid c ∈ h.trace ∧ .returned pid a ∈ h.trace ∧ keep a = true

/-- The request has gone through. -/
def isOk : Result → Bool
  | .ok _ => true
  | .error _ => false

/-- The request has gone through, or has stored that the plan is expired. -/
def tookEffect : Result → Bool
  | .ok _ => true
  | .error e => e = planExpired

/-- The call has settled an instalment of plan `id`. -/
def settles (id : Uuid) : Call × Result → Bool
  | (.settleInstallment i _, .ok _) => i = id
  | _ => false

/-- No update is lost once no request is in flight: some sequential order of the requests that have
returned with a result in `keep` leaves the same plans, and as many instalments are settled as
requests have settled one. -/
structure NoLostUpdates (keep : Result → Bool) (w₀ : World) (s : PlanState) : Prop where
  serial : s.Quiet → ∃ order, Lists keep s.hist order ∧
    Runs system w₀ (order.map Prod.snd) s.hist.world
  settled : s.Quiet → ∀ order id p₀ p, Lists isOk s.hist order →
    w₀.plans.row id = some p₀ → s.hist.world.plans.row id = some p →
      p.currentInstallment =
        p₀.currentInstallment + (order.map Prod.snd).countP (settles id)

/-! ### Schedules -/

/-- No request is broken off. -/
def Unbroken (_ h' : PlanHist) : Prop :=
  match h'.trace with
  | .crashed _ :: _ => False
  | _ => True

/-- The plan that the call has read is still the one in the table. -/
def UpToDate (w : World) : Entry Op.Ret → Prop
  | ⟨.findOne id, .ok found⟩ => w.plans.row id = found
  | _ => True

/-- No request is broken off, and none saves a copy of a plan that has changed since it was read. -/
def NoStaleSave (h h' : PlanHist) : Prop :=
  match h'.trace with
  | .did pid (.save _) _ _ :: _ => ∀ e ∈ log pid h.trace, UpToDate h.world e
  | .crashed _ :: _ => False
  | _ => True

instance (w : World) (e : Entry Op.Ret) : Decidable (UpToDate w e) := by
  unfold UpToDate
  split <;> infer_instance

instance : DecidableRel Unbroken := fun h h' => by
  unfold Unbroken
  split <;> infer_instance

instance : DecidableRel NoStaleSave := fun h h' => by
  unfold NoStaleSave
  split <;> infer_instance

/-! ### What a request does -/

/-- The next operation of a request. -/
def Next (c : Call) : Log Op.Ret → Op → Prop
  | [], .findOne id => ∃ decide, c.target = some (id, decide)
  | [], .insert plan => system.body c = .op (.insert plan) fun r => .ret (r.mapError .error)
  | [⟨.findOne id, .ok (some p)⟩], .save q =>
      ∃ decide, c.target = some (id, decide) ∧ (decide p = .store q ∨ decide p = .expire q)
  | _, _ => False

/-- The request has stored a plan, and its result is `a`. -/
def Stored (c : Call) : Log Op.Ret → Result → Prop
  | [⟨.insert _, .ok q⟩], a => a = .ok q
  | [⟨.save q', .ok q⟩, ⟨.findOne id, .ok (some p)⟩], a => ∃ decide, c.target = some (id, decide) ∧
      ((decide p = .store q' ∧ a = .ok q) ∨ (decide p = .expire q' ∧ a = .error planExpired))
  | _, _ => False

/-- What a request has stored is known from its result. -/
def Tells (c : Call) (a : Result) (L : Log Op.Ret) : Prop :=
  ∀ a', Stored c L a' ↔ a' = a ∧ tookEffect a = true

variable {c : Call} {id : Uuid} {decide : InstallmentPaymentPlan → Decision}

/-- A refusal is not an expiry. -/
theorem refuse_ne_planExpired {p : InstallmentPaymentPlan} {e : Exc}
    (hcall : c.target = some (id, decide)) (h : decide p = .refuse e) : e ≠ planExpired := by
  cases c with
  | createInstallmentPlan => cases hcall
  | settleInstallment planId ledger =>
    cases hcall
    unfold decideSettle at h
    split_ifs at h <;> cases h <;> decide
  | pausePlan planId ledger now =>
    cases hcall
    unfold decidePause at h
    split_ifs at h with hactive hcount
    · cases h
      decide
    · cases h
      decide +kernel
    · split at h <;> cases h
      exact fun heq => absurd (Exc.http.inj heq).1 (by decide)
  | resumePlan planId ledger =>
    cases hcall
    unfold decideResume at h
    split_ifs at h with hactive
    · cases h
      decide
    · simp only at h
      split_ifs at h with horder
      · cases h
        decide
      · rw [computePausedLedgers, if_neg horder] at h
        cases h

theorem tells_error {e : Exc} {L : Log Op.Ret} (he : e ≠ planExpired)
    (hL : ∀ a, ¬ Stored c L a) : Tells c (.error e) L := by
  intro a'
  refine iff_of_false (hL a') fun ⟨_, htook⟩ => he ?_
  exact of_decide_eq_true htook

/-- A request that decides to store the plan goes through with it. -/
theorem stored_iff_of_store {p q q' : InstallmentPaymentPlan} {a : Result}
    (hcall : c.target = some (id, decide)) (h : decide p = .store q) :
    Stored c [⟨.save q, .ok q'⟩, ⟨.findOne id, .ok (some p)⟩] a ↔ a = .ok q' := by
  constructor
  · rintro ⟨decide', hcall', ⟨-, rfl⟩ | ⟨hexpire, -⟩⟩
    · rfl
    · obtain ⟨-, rfl⟩ := Prod.mk.inj (Option.some.inj (hcall'.symm.trans hcall))
      rw [h] at hexpire
      cases hexpire
  · rintro rfl
    exact ⟨decide, hcall, .inl ⟨h, rfl⟩⟩

/-- A request that decides that the plan is expired is refused once it has stored that. -/
theorem stored_iff_of_expire {p q q' : InstallmentPaymentPlan} {a : Result}
    (hcall : c.target = some (id, decide)) (h : decide p = .expire q) :
    Stored c [⟨.save q, .ok q'⟩, ⟨.findOne id, .ok (some p)⟩] a ↔ a = .error planExpired := by
  constructor
  · rintro ⟨decide', hcall', ⟨hstore, -⟩ | ⟨-, rfl⟩⟩
    · obtain ⟨-, rfl⟩ := Prod.mk.inj (Option.some.inj (hcall'.symm.trans hcall))
      rw [h] at hstore
      cases hstore
    · rfl
  · rintro rfl
    exact ⟨decide, hcall, .inr ⟨h, rfl⟩⟩

/-- A request reads the plan, and stores what it decides. -/
theorem follows_request (hcall : c.target = some (id, decide)) :
    Follows (Next c) (Tells c) (system.body c) [] := by
  have hbody : system.body c = (request id decide ()).bind fun x => .ret x.1 :=
    congrArg (fun m : Service InstallmentPaymentPlan => (m ()).bind fun x => .ret x.1)
      (body_of_target hcall)
  rw [hbody]
  refine ⟨⟨decide, hcall⟩, fun r => ?_⟩
  cases r with
  | error msg => exact tells_error nofun fun _ h => h
  | ok found =>
    cases found with
    | none => exact tells_error (by decide) fun _ h => h
    | some p =>
      change Follows (Next c) (Tells c) ((perform (decide p) ()).bind fun x => .ret x.1) _
      cases hdecide : decide p with
      | refuse e => exact tells_error (refuse_ne_planExpired hcall hdecide) fun _ h => h
      | store q =>
        refine ⟨⟨decide, hcall, .inl hdecide⟩, fun r => ?_⟩
        cases r with
        | error msg => exact tells_error nofun fun _ h => h
        | ok q' =>
          intro a
          exact (stored_iff_of_store hcall hdecide).trans (and_iff_left rfl).symm
      | expire q =>
        refine ⟨⟨decide, hcall, .inr hdecide⟩, fun r => ?_⟩
        cases r with
        | error msg => exact tells_error nofun fun _ h => h
        | ok q' =>
          intro a
          exact (stored_iff_of_expire hcall hdecide).trans (and_iff_left rfl).symm

/-- **Every request** stores at most one plan, and its result tells which. -/
theorem follows_next (c : Call) : Follows (Next c) (Tells c) (system.body c) [] := by
  cases c with
  | createInstallmentPlan merchant customer token totalAmount numInstallments intervalLedgers
      expiryLedger =>
    rcases body_createInstallmentPlan merchant customer token totalAmount numInstallments
      intervalLedgers expiryLedger with ⟨e, he, hbody⟩ | ⟨-, total, -, hbody⟩
    · rw [hbody]
      exact tells_error he fun _ h => h
    · have hfirst := hbody
      rw [hbody]
      refine ⟨hfirst, fun r => ?_⟩
      cases r with
      | error msg => exact tells_error nofun fun _ h => h
      | ok q =>
        intro a
        exact ⟨fun h => ⟨h, rfl⟩, fun h => h.1⟩
  | settleInstallment planId ledger => exact follows_request rfl
  | pausePlan planId ledger now => exact follows_request rfl
  | resumePlan planId ledger => exact follows_request rfl

/-! ### The order of the saves -/

section Serial

variable {w₀ w : World} {h : PlanHist} {pid : ℕ} {o : Op} {r : o.Ret} {a : Result}
  {p q : InstallmentPaymentPlan}

/-- The requests in the list are those that have stored a plan, and they have left the plans as if
one had run after another (the last one first). -/
structure Serial (w₀ : World) (h : PlanHist) (order : List (ℕ × Call × Result)) : Prop where
  nodup : (order.map Prod.fst).Nodup
  runs : Runs system w₀ (order.map Prod.snd) h.world
  mem_iff : ∀ pid c a, (pid, c, a) ∈ order ↔
    .start pid c ∈ h.trace ∧ Stored c (log pid h.trace) a

/-- A call that has done nothing has stored nothing. -/
theorem not_stored_nil (c : Call) (a : Result) : ¬ Stored c [] a := fun h => h

/-- A request that stored nothing changes nothing. -/
theorem Serial.unstored {order : List (ℕ × Call × Result)} (hs : Serial w₀ h order)
    (hd : Disciplined Next (fun c a L => Tells c a L) h) (hstart : .start pid c ∈ h.trace)
    (hold : ∀ a, ¬ Stored c (log pid h.trace) a)
    (hnew : ∀ a, ¬ Stored c (⟨o, r⟩ :: log pid h.trace) a) :
    Serial w₀ (h.push (.did pid o r h.world) h.world) order := by
  refine ⟨hs.nodup, hs.runs, fun i c' a => ?_⟩
  have hstarts : .start i c' ∈ (h.push (.did pid o r h.world) h.world).trace ↔
      .start i c' ∈ h.trace := by simp
  rw [hs.mem_iff, hstarts, Hist.push_trace]
  refine and_congr_right fun hi => ?_
  by_cases hpid : i = pid
  · subst hpid
    obtain rfl := hd.start_unique i c c' hstart hi
    rw [log_did_self]
    exact iff_of_false (hold a) (hnew a)
  · rw [log_cons_of_ne fun heq => hpid heq.symm]

/-- A request that stores a plan comes last. -/
theorem Serial.stored {order : List (ℕ × Call × Result)} (hs : Serial w₀ h order)
    (hd : Disciplined Next (fun c a L => Tells c a L) h) (hstart : .start pid c ∈ h.trace)
    (hold : ∀ a, ¬ Stored c (log pid h.trace) a)
    (hnew : ∀ a', Stored c (⟨o, r⟩ :: log pid h.trace) a' ↔ a' = a)
    (halone : Alone exec pid (system.body c) h.world a w) :
    Serial w₀ (h.push (.did pid o r h.world) w) ((pid, c, a) :: order) := by
  have hfresh : ∀ c' a', (pid, c', a') ∉ order := by
    intro c' a' hmem
    obtain ⟨hstart', hstored⟩ := (hs.mem_iff pid c' a').mp hmem
    obtain rfl := hd.start_unique pid c c' hstart hstart'
    exact hold a' hstored
  refine ⟨?_, .call pid hs.runs halone, fun i c' a' => ?_⟩
  · refine List.nodup_cons.mpr ⟨fun hmem => ?_, hs.nodup⟩
    obtain ⟨⟨_, c', a'⟩, hentry, rfl⟩ := List.mem_map.mp hmem
    exact hfresh c' a' hentry
  · have hstarts : .start i c' ∈ (h.push (.did pid o r h.world) w).trace ↔
        .start i c' ∈ h.trace := by simp
    rw [List.mem_cons, hstarts, Hist.push_trace]
    by_cases hpid : i = pid
    · subst hpid
      rw [log_did_self]
      constructor
      · rintro (heq | hmem)
        · cases heq
          exact ⟨hstart, (hnew a).mpr rfl⟩
        · exact absurd hmem (hfresh c' a')
      · rintro ⟨hstart', hstored⟩
        obtain rfl := hd.start_unique i c c' hstart hstart'
        rw [(hnew a').mp hstored]
        exact .inl rfl
    · rw [log_cons_of_ne fun heq => hpid heq.symm, hs.mem_iff]
      exact or_iff_right fun heq => hpid (Prod.mk.inj heq).1

/-- An event that performs nothing changes nothing. -/
theorem Serial.idle {order : List (ℕ × Call × Result)} {e : Event Op.Ret World Call Result}
    (hs : Serial w₀ h order) (hd : Disciplined Next (fun c a L => Tells c a L) h)
    (hd' : Disciplined Next (fun c a L => Tells c a L) (h.push e h.world))
    (he : ∀ pid es, log pid (e :: es) = log pid es) : Serial w₀ (h.push e h.world) order := by
  refine ⟨hs.nodup, hs.runs, fun i c a => ?_⟩
  rw [hs.mem_iff, Hist.push_trace, he]
  refine and_congr_left fun hstored => ⟨List.mem_cons_of_mem _, fun hstart => ?_⟩
  -- a call that has stored a plan had started before
  have hacted : ∃ e' ∈ h.trace, e'.pid = i := by
    by_contra hnone
    rw [log_eq_nil fun e' he' heq => hnone ⟨e', he', heq⟩] at hstored
    exact not_stored_nil c a hstored
  obtain ⟨e', hmem, rfl⟩ := hacted
  obtain ⟨c', hstart'⟩ := hd.start_mem e' hmem
  rwa [hd'.start_unique e'.pid c c' hstart (List.mem_cons_of_mem _ hstart')]

/-- A request that reads the plan `p` goes on as `perform` says. -/
theorem alone_of_perform (hcall : c.target = some (id, decide)) (hrow : w₀.plans.row id = some p)
    (h : Alone exec pid ((perform (decide p) ()).bind fun x => .ret x.1) w₀ a w) :
    Alone exec pid (system.body c) w₀ a w := by
  have hbody : system.body c = (request id decide ()).bind fun x => .ret x.1 :=
    congrArg (fun m : Service InstallmentPaymentPlan => (m ()).bind fun x => .ret x.1)
      (body_of_target hcall)
  have hfound : exec (.findOne id) pid .done w₀ = some (.ok (some p), w₀) := by
    rw [exec, hrow]
  rw [hbody]
  exact .op .done hfound h

/-- A request whose copy is up to date saves what it would have saved alone. -/
theorem alone_of_save {choice : Choice} (hcall : c.target = some (id, decide))
    (hrow : w₀.plans.row id = some p)
    (hexec : exec (.save q) pid choice w₀ = some (.ok q, w)) :
    (decide p = .store q → Alone exec pid (system.body c) w₀ (.ok q) w) ∧
      (decide p = .expire q → Alone exec pid (system.body c) w₀ (.error planExpired) w) := by
  constructor
  · intro hstore
    refine alone_of_perform hcall hrow ?_
    rw [hstore]
    exact .op choice hexec (.ret _ _)
  · intro hexpire
    refine alone_of_perform hcall hrow ?_
    rw [hexpire]
    exact .op choice hexec (.ret _ _)

theorem nil_of_next_findOne {L : Log Op.Ret} (h : Next c L (.findOne id)) : L = [] := by
  cases L with
  | nil => rfl
  | cons e L =>
    unfold Next at h
    split at h <;> simp_all

theorem of_next_insert {L : Log Op.Ret} (h : Next c L (.insert p)) : L = [] ∧
    system.body c = .op (.insert p) fun r => .ret (r.mapError .error) := by
  unfold Next at h
  split at h
  · simp_all
  · next heq =>
    cases heq
    exact ⟨rfl, h⟩
  · simp_all
  · cases h

theorem of_next_save {L : Log Op.Ret} (h : Next c L (.save q)) : ∃ id p decide,
    L = [⟨.findOne id, .ok (some p)⟩] ∧ c.target = some (id, decide) ∧
      (decide p = .store q ∨ decide p = .expire q) := by
  unfold Next at h
  split at h
  · simp_all
  · simp_all
  · next id p q' heq =>
    cases heq
    obtain ⟨decide, hcall, hdecide⟩ := h
    exact ⟨id, p, decide, rfl, hcall, hdecide⟩
  · cases h

/-- A save that fails stores nothing. -/
theorem not_stored_error {msg : String} {L : Log Op.Ret} :
    ¬ Stored c (⟨.save q, .error msg⟩ :: L) a := by
  intro h
  unfold Stored at h
  split at h
  · next heq => cases heq
  · next heq => cases heq
  · exact h

/-- **The step**: every event keeps the order of the saves. -/
theorem Serial.step {h h' : PlanHist} (hs : ∃ order, Serial w₀ h order)
    (hd : Disciplined Next (fun c a L => Tells c a L) h)
    (hd' : Disciplined Next (fun c a L => Tells c a L) h') (hstep : HistStep system Next h h')
    (hok : NoStaleSave h h') : ∃ order, Serial w₀ h' order := by
  obtain ⟨order, hs⟩ := hs
  cases hstep with
  | idle e he hlive => exact ⟨order, hs.idle hd hd' he⟩
  | did pid c o choice r w hstart hnext hexec hlive =>
    generalize hlog : log pid h.trace = L at hnext
    cases o with
    | findOne id =>
      obtain ⟨rfl, -⟩ := exec_findOne hexec
      obtain rfl := nil_of_next_findOne hnext
      refine ⟨order, hs.unstored hd hstart ?_ ?_⟩ <;> rw [hlog]
      · exact not_stored_nil c
      · exact fun _ hstored => hstored
    | insert plan =>
      obtain ⟨rfl, hbody⟩ := of_next_insert hnext
      rcases exec_insert hexec with ⟨rfl, msg, rfl⟩ | ⟨rfl, rfl⟩
      · refine ⟨order, hs.unstored hd hstart ?_ ?_⟩ <;> rw [hlog]
        · exact not_stored_nil c
        · exact fun _ hstored => hstored
      · refine ⟨_, hs.stored (a := .ok (h.world.plans.insert plan).1) hd hstart ?_ ?_ ?_⟩
        · rw [hlog]
          exact not_stored_nil c
        · rw [hlog]
          exact fun _ => Iff.rfl
        · rw [hbody]
          exact .op choice hexec (.ret _ _)
    | save q =>
      obtain ⟨id, p, decide, rfl, hcall, hdecide⟩ := of_next_save hnext
      have hrow : h.world.plans.row id = some p := by
        refine hok ⟨.findOne id, .ok (some p)⟩ ?_
        rw [hlog]
        exact List.mem_cons_self
      have hold : ∀ a, ¬ Stored c (log pid h.trace) a := by
        rw [hlog]
        exact fun _ hstored => hstored
      rcases exec_save hexec with ⟨rfl, msg, rfl⟩ | ⟨rfl, rfl⟩
      · exact ⟨order, hs.unstored hd hstart hold fun _ => not_stored_error⟩
      · obtain ⟨hstore, hexpire⟩ := alone_of_save hcall hrow hexec
        rcases hdecide with hdecide | hdecide
        · refine ⟨_, hs.stored hd hstart hold (fun _ => ?_) (hstore hdecide)⟩
          rw [hlog]
          exact stored_iff_of_store hcall hdecide
        · refine ⟨_, hs.stored hd hstart hold (fun _ => ?_) (hexpire hdecide)⟩
          rw [hlog]
          exact stored_iff_of_expire hcall hdecide

/-- In a run without a stale save the requests have taken effect one after another, and none was
broken off. -/
theorem serial_of_reachable {s : PlanState}
    (hr : system.ReachableWhen NoStaleSave (.init w₀) s) :
    (∃ order, Serial w₀ s.hist order) ∧ ∀ pid, .crashed pid ∉ s.hist.trace := by
  refine hist_invariant (I := fun h => (∃ order, Serial w₀ h order) ∧
    ∀ pid, .crashed pid ∉ h.trace) follows_next ⟨⟨[], ?_⟩, fun _ => List.not_mem_nil⟩ ?_ hr
  · exact ⟨List.nodup_nil, .nil, fun pid c a => iff_of_false List.not_mem_nil fun hstart =>
      absurd hstart.1 List.not_mem_nil⟩
  · intro h h' hd hd' hs hstep hok
    refine ⟨Serial.step hs.1 hd hd' hstep hok, ?_⟩
    cases hstep with
    | idle e he hlive =>
      intro pid hmem
      rcases List.mem_cons.mp hmem with heq | hold
      · subst heq
        exact hok
      · exact hs.2 pid hold
    | did pid c o choice r w hstart hnext hexec hlive =>
      intro i hmem
      exact hs.2 i ((List.mem_cons.mp hmem).resolve_left nofun)

/-- Once no request is in flight, those that have stored a plan are those that have returned with
a result that says so. -/
theorem Serial.lists {s : PlanState} {order : List (ℕ × Call × Result)}
    (hs : Serial w₀ s.hist order) (hl : System.Lifecycle s) (hquiet : s.Quiet)
    (hd : Disciplined Next (fun c a L => Tells c a L) s.hist)
    (hcrash : ∀ pid, .crashed pid ∉ s.hist.trace) : Lists tookEffect s.hist order := by
  refine ⟨hs.nodup, fun pid c a => ?_⟩
  rw [hs.mem_iff]
  refine and_congr_right fun hstart => ⟨fun hstored => ?_, fun ⟨hreturned, htook⟩ => ?_⟩
  · obtain ⟨e, he, hend, rfl⟩ := hl.ended pid (hl.lt_started _ hstart) (hquiet pid)
    cases e with
    | start p c' => cases hend
    | did p o r w => cases hend
    | crashed p => exact absurd he (hcrash p)
    | returned p a' =>
      obtain ⟨rfl, htook⟩ := (hd.returned p c a' hstart he a).mp hstored
      exact ⟨he, htook⟩
  · exact (hd.returned pid c a hstart hreturned a).mpr ⟨rfl, htook⟩

end Serial

/-! ### Counting instalments -/

section Count

variable {w₀ w w' : World} {p₀ p q : InstallmentPaymentPlan} {a : Result} {ledger : ℤ}
  {calls : List (Call × Result)}

@[simp] theorem currentInstallment_settled (p : InstallmentPaymentPlan) :
    p.settled.currentInstallment = p.currentInstallment + 1 := by
  unfold InstallmentPaymentPlan.settled
  simp only
  split_ifs <;> rfl

/-- A request that fails settles nothing. -/
theorem settles_error (e : Exc) : settles id (c, .error e) = false := by
  cases c <;> rfl

/-- A request that goes through settles an instalment, or leaves their number alone. -/
theorem currentInstallment_of_store (hcall : c.target = some (id, decide))
    (h : decide p = .store q) :
    q.currentInstallment = p.currentInstallment + (settles id (c, .ok q)).toNat := by
  cases c with
  | createInstallmentPlan => cases hcall
  | settleInstallment planId ledger =>
    cases hcall
    obtain ⟨-, -, -, rfl⟩ := decideSettle_store h
    simp [settles]
  | pausePlan planId ledger now =>
    cases hcall
    obtain ⟨-, -, -, rfl⟩ := decidePause_store h
    simp [settles]
  | resumePlan planId ledger =>
    cases hcall
    obtain ⟨-, -, rfl⟩ := decideResume_store h
    simp [settles, InstallmentPaymentPlan.resumed]

/-- A request on another plan settles nothing of this one. -/
theorem settles_of_ne {i : Uuid} (hcall : c.target = some (i, decide)) (hne : id ≠ i) :
    settles id (c, a) = false := by
  cases c with
  | createInstallmentPlan => cases hcall
  | settleInstallment planId ledger =>
    cases hcall
    cases a with
    | error e => rfl
    | ok q => exact decide_eq_false (Ne.symm hne)
  | pausePlan planId ledger now => rfl
  | resumePlan planId ledger => rfl

/-- **One call** settles at most one instalment. -/
theorem currentInstallment_of_comes (h : Comes c w a w') (hrow : w.plans.row id = some p) :
    ∃ p', w'.plans.row id = some p' ∧
      p'.currentInstallment = p.currentInstallment + (settles id (c, a)).toNat := by
  cases h with
  | refused e =>
    rw [settles_error]
    exact ⟨p, hrow, (add_zero _).symm⟩
  | created amounts hcall hnum stored hstored =>
    subst hcall hstored
    exact ⟨p, w.plans.row_insert_of_row _ hrow, (add_zero _).symm⟩
  | @stored i decide p₁ q hcall hrow₁ hq =>
    have hput := row_stored hcall hrow₁ (.inl hq) id
    by_cases hi : id = i
    · subst hi
      obtain rfl : p₁ = p := Option.some.inj (hrow₁.symm.trans hrow)
      exact ⟨q, hput.trans (if_pos rfl), currentInstallment_of_store hcall hq⟩
    · rw [settles_of_ne hcall hi]
      exact ⟨p, hput.trans ((if_neg hi).trans hrow), (add_zero _).symm⟩
  | @expired i decide p₁ q hcall hrow₁ hq =>
    rw [settles_error]
    rcases row_of_refused (.expired hcall hrow₁ hq) hrow with hsame | ⟨-, hexpired⟩
    · exact ⟨p, hsame, (add_zero _).symm⟩
    · exact ⟨_, hexpired, (add_zero _).symm⟩

/-- **A sequential run** settles as many instalments as calls have settled one. -/
theorem currentInstallment_of_runs (h : Runs system w₀ calls w)
    (hrow : w₀.plans.row id = some p₀) : ∃ p, w.plans.row id = some p ∧
      p.currentInstallment = p₀.currentInstallment + calls.countP (settles id) := by
  refine h.rule (I := fun calls w => ∃ p, w.plans.row id = some p ∧
    p.currentInstallment = p₀.currentInstallment + calls.countP (settles id))
      ⟨p₀, hrow, (add_zero _).symm⟩ ?_
  rintro calls w₁ pid c a w₂ - ⟨p, hp, hcount⟩ halone
  obtain ⟨p', hp', hsettles⟩ := currentInstallment_of_comes (comes_of_alone halone) hp
  refine ⟨p', hp', ?_⟩
  rw [hsettles, hcount, List.countP_cons]
  cases settles id (c, a) <;> simp [add_assoc]

/-- What settles an instalment has gone through. -/
theorem isOk_of_settles {x : Call × Result} (h : settles id x = true) : isOk x.2 = true := by
  obtain ⟨c, a⟩ := x
  cases a with
  | ok q => rfl
  | error e =>
    rw [settles_error] at h
    cases h

/-- However the requests are listed, as many of them have settled an instalment. -/
theorem countP_settles_of_lists {h : PlanHist} {order order' : List (ℕ × Call × Result)}
    (hlists : Lists tookEffect h order) (hlists' : Lists isOk h order') :
    (order.map Prod.snd).countP (settles id) = (order'.map Prod.snd).countP (settles id) := by
  have hperm : (order.filter (settles id ∘ Prod.snd)).Perm
      (order'.filter (settles id ∘ Prod.snd)) := by
    refine (List.perm_ext_iff_of_nodup (hlists.nodup.of_map.filter _)
      (hlists'.nodup.of_map.filter _)).mpr ?_
    rintro ⟨pid, c, a⟩
    rw [List.mem_filter, List.mem_filter, hlists.mem_iff, hlists'.mem_iff]
    refine and_congr_left fun hsettles => and_congr_right fun _ => and_congr_right fun _ => ?_
    have hok : isOk a = true := isOk_of_settles hsettles
    refine iff_of_true ?_ hok
    cases a with
    | ok q => rfl
    | error e => cases hok
  rw [List.countP_map, List.countP_map, List.countP_eq_length_filter, List.countP_eq_length_filter]
  exact hperm.length_eq

end Count

/-! ### No update is lost -/

/-- **No update is lost** as long as no request saves a stale copy: the requests that have gone
through, and those that have stored that the plan is expired, leave the plans as if one had run
after another. -/
theorem noLostUpdates_of_noStaleSave {w₀ : World} {s : PlanState}
    (hr : system.ReachableWhen NoStaleSave (.init w₀) s) : NoLostUpdates tookEffect w₀ s := by
  obtain ⟨⟨order, hserial⟩, hcrash⟩ := serial_of_reachable hr
  have hl : System.Lifecycle s := (hr.rule (J := fun _ => True) trivial
    (fun _ _ _ _ _ _ _ => trivial)).1
  have hd := disciplined_of_reachable follows_next hr
  refine ⟨fun hquiet => ⟨order, hserial.lists hl hquiet hd hcrash, hserial.runs⟩,
    fun hquiet order' id p₀ p hlists' hrow hrow' => ?_⟩
  obtain ⟨p', hp', hcount⟩ := currentInstallment_of_runs hserial.runs hrow
  obtain rfl : p' = p := Option.some.inj (hp'.symm.trans hrow')
  rw [hcount, countP_settles_of_lists (hserial.lists hl hquiet hd hcrash) hlists']

/-! ### Two settlements, and an expiry -/

namespace Sample

/-- Every request has ended. -/
def ended (s : PlanState) : Bool :=
  s.hist.trace.all fun e => s.hist.trace.any fun e' => e'.isEnd && e'.pid == e.pid

theorem quiet_of_ended {ok : PlanHist → PlanHist → Prop} {w₀ : World} {s : PlanState}
    (hr : system.ReachableWhen ok (.init w₀) s) (h : ended s = true) : s.Quiet :=
  System.quiet_of_ended hr h

/-- Request `pid` has started as `c`. -/
def startedAs (pid : ℕ) (c : Call) (s : PlanState) : Bool :=
  s.hist.trace.any fun
    | .start i c' => i = pid ∧ c' = c
    | _ => false

/-- Request `pid` has returned with the plan `q`. -/
def returnedWith (pid : ℕ) (q : InstallmentPaymentPlan) (s : PlanState) : Bool :=
  s.hist.trace.any fun
    | .returned i (.ok q') => i = pid ∧ q' = q
    | _ => false

/-- A settlement and then a pause, each from the copy that the other has left. -/
def orderly : List (Move Choice Call) :=
  [.start (.settleInstallment 0 0), .start (.pausePlan 0 5 0), .run 0 .done, .run 0 .done,
    .run 1 .done, .finish 0, .run 1 .done, .finish 1]

/-- Two settlements that both read the plan before either has saved it. -/
def overlapping : List (Move Choice Call) :=
  [.start (.settleInstallment 0 0), .start (.settleInstallment 0 0), .run 0 .done, .run 1 .done,
    .run 0 .done, .run 1 .done, .finish 0, .finish 1]

/-- A settlement after the expiry ledger. -/
def expiring : List (Move Choice Call) :=
  [.start (.settleInstallment 0 1001), .run 0 .done, .run 0 .done, .finish 0]

theorem start_mem_of_startedAs {pid : ℕ} {c : Call} {s : PlanState}
    (h : startedAs pid c s = true) : .start pid c ∈ s.hist.trace := by
  obtain ⟨e, he, heq⟩ := List.any_eq_true.mp h
  split at heq
  · obtain ⟨rfl, rfl⟩ := of_decide_eq_true heq
    exact he
  · cases heq

theorem returned_mem_of_returnedWith {pid : ℕ} {q : InstallmentPaymentPlan} {s : PlanState}
    (h : returnedWith pid q s = true) : .returned pid (.ok q) ∈ s.hist.trace := by
  obtain ⟨e, he, heq⟩ := List.any_eq_true.mp h
  split at heq
  · obtain ⟨rfl, rfl⟩ := of_decide_eq_true heq
    exact he
  · cases heq

/-- Both settlements have returned with the same plan. -/
def lost (s : PlanState) : Bool :=
  ended s && startedAs 0 (.settleInstallment 0 0) s && startedAs 1 (.settleInstallment 0 0) s &&
    returnedWith 0 plan.settled s && returnedWith 1 plan.settled s &&
      s.hist.world.plans.row 0 = some plan.settled

/-- No sequential order of two settlements settles one instalment. -/
theorem not_noLostUpdates_of_lost {keep : Result → Bool} {s : PlanState}
    (hkeep : ∀ q, keep (.ok q) = true) (hr : system.ReachableWhen Unbroken (.init plans) s)
    (hlost : lost s = true) : ¬ NoLostUpdates keep plans s := by
  simp only [lost, Bool.and_eq_true, decide_eq_true_eq] at hlost
  obtain ⟨⟨⟨⟨⟨hended, hstart₀⟩, hstart₁⟩, hreturned₀⟩, hreturned₁⟩, hrow⟩ := hlost
  intro hno
  obtain ⟨order, hlists, hruns⟩ := hno.serial (quiet_of_ended hr hended)
  have hrow₀ : (World.plans plans).row 0 = some plan := rfl
  obtain ⟨p, hp, hcount⟩ := currentInstallment_of_runs hruns hrow₀
  have hone : p.currentInstallment = 1 := by
    obtain rfl : p = plan.settled := Option.some.inj (hp.symm.trans hrow)
    rfl
  have htwo : 2 ≤ (order.map Prod.snd).countP (settles 0) := by
    rw [List.countP_map]
    have hsub : [(0, Call.settleInstallment 0 0, (.ok plan.settled : Result)),
        (1, .settleInstallment 0 0, .ok plan.settled)] ⊆ order := by
      intro x hx
      rcases List.mem_cons.mp hx with rfl | hx
      · exact (hlists.mem_iff _ _ _).mpr ⟨start_mem_of_startedAs hstart₀,
          returned_mem_of_returnedWith hreturned₀, hkeep _⟩
      · obtain rfl := List.mem_singleton.mp hx
        exact (hlists.mem_iff _ _ _).mpr ⟨start_mem_of_startedAs hstart₁,
          returned_mem_of_returnedWith hreturned₁, hkeep _⟩
    exact (List.subperm_of_subset (by simp) hsub).countP_le (settles 0 ∘ Prod.snd)
  have hzero : plan.currentInstallment = 0 := rfl
  omega

/-- The settlement is refused, and the plan is stored as expired. -/
def expired (s : PlanState) : Bool :=
  ended s && (s.hist.trace.all fun
    | .returned _ a => !isOk a
    | _ => true) && s.hist.world.plans.row 0 ≠ some plan

/-- No sequential order of no requests expires a plan. -/
theorem not_noLostUpdates_of_expired {ok : PlanHist → PlanHist → Prop} {s : PlanState}
    (hr : system.ReachableWhen ok (.init plans) s) (hexpired : expired s = true) :
    ¬ NoLostUpdates isOk plans s := by
  simp only [expired, Bool.and_eq_true, decide_eq_true_eq] at hexpired
  obtain ⟨⟨hended, hnone⟩, hrow⟩ := hexpired
  intro hno
  obtain ⟨order, hlists, hruns⟩ := hno.serial (quiet_of_ended hr hended)
  cases order with
  | nil =>
    rw [hruns.eq_of_nil] at hrow
    exact hrow rfl
  | cons x order =>
    obtain ⟨pid, c, a⟩ := x
    obtain ⟨-, hreturned, hok⟩ := (hlists.mem_iff pid c a).mp List.mem_cons_self
    have hrefused := List.all_eq_true.mp hnone _ hreturned
    simp only [hok] at hrefused
    cases hrefused

end Sample

/-- A settlement, and a pause that begins before it has returned. -/
theorem noLostUpdates_sample : ∃ s, system.ReachableWhen NoStaleSave (.init Sample.plans) s ∧
    Sample.ended s = true ∧ NoLostUpdates tookEffect Sample.plans s := by
  obtain ⟨s, hr, hended⟩ := System.exists_of_replay system NoStaleSave (.init Sample.plans)
    Sample.orderly Sample.ended (by decide +kernel)
  exact ⟨s, hr, hended, noLostUpdates_of_noStaleSave hr⟩

/-- Two settlements at the same time lose one, and an expiry is not a request that goes through. -/
theorem not_noLostUpdates :
    (¬ ∀ w₀ s, system.ReachableWhen Unbroken (.init w₀) s → NoLostUpdates isOk w₀ s) ∧
    (¬ ∀ w₀ s, system.ReachableWhen Unbroken (.init w₀) s → NoLostUpdates tookEffect w₀ s) ∧
    ¬ ∀ w₀ s, system.ReachableWhen NoStaleSave (.init w₀) s → NoLostUpdates isOk w₀ s := by
  obtain ⟨s, hr, hlost⟩ := System.exists_of_replay system Unbroken (.init Sample.plans)
    Sample.overlapping Sample.lost (by decide +kernel)
  obtain ⟨s', hr', hexpired⟩ := System.exists_of_replay system NoStaleSave (.init Sample.plans)
    Sample.expiring Sample.expired (by decide +kernel)
  refine ⟨fun hall => ?_, fun hall => ?_, fun hall => ?_⟩
  · exact Sample.not_noLostUpdates_of_lost (fun _ => rfl) hr hlost (hall _ s hr)
  · exact Sample.not_noLostUpdates_of_lost (fun _ => rfl) hr hlost (hall _ s hr)
  · exact Sample.not_noLostUpdates_of_expired hr' hexpired (hall _ s' hr')

end Ahjoor.Payments
