import Ahjoor.Async.Contract
import Ahjoor.Members.Footprint

/-!
# Calls that load memberships and save them

Departures, suspensions and reinstatements load memberships and save them again outside any
transaction; a removal loads one and deletes it. Whether they keep a contract comes down to what
the contract grants to single statements.
-/

namespace Ahjoor.Members

open Async

/-- The operation needs no lock and no transaction, and inserts and saves nothing. -/
def Op.harmless : Op → Bool
  | .db (.write (.removeMember _)) => true
  | .db (.write _) => false
  | .db _ | .notify _ | .deployRoscaContract _ | .dispatchEvent _ => true
  | _ => false

theorem harmless_of_isRead (q : Query) (hq : q.isRead = true) : (Op.db q).harmless = true := by
  cases q with
  | write x => cases hq
  | _ => rfl

/-- What a contract grants to calls that load memberships and save them: `J` and what is known of
the key and the user of a loaded membership withstand the others, and the operations of the calls
are within the contract. -/
structure Grants (missing : OnMissing) (pid : ℕ) (C : Contract Op.Ret World) (J : World → Prop)
    (Loaded : Uuid → Uuid → World → Prop) : Prop where
  rely : ∀ {w w'}, J w → C.rely w w' → J w'
  loaded_rely : ∀ {id userId w w'}, Loaded id userId w → C.rely w w' → Loaded id userId w'
  loaded_guarantee : ∀ {id userId w w'}, Loaded id userId w → C.guarantee w w' →
    Loaded id userId w'
  load : ∀ {w m}, J w → m ∈ w.tables.members → Loaded m.id m.userId w
  harmless : ∀ {L o w}, o.harmless = true → J w → C.asserts L o w ∧
    (C.expects L o w → ∀ choice r w', exec missing o pid choice w = some (r, w') →
      C.guarantee w w' ∧ J w')
  save : ∀ {L m w}, J w → Loaded m.id m.userId w → C.asserts L (.db (.write (.saveMember m))) w ∧
    (C.expects L (.db (.write (.saveMember m))) w → ∀ choice r w',
      exec missing (.db (.write (.saveMember m))) pid choice w = some (r, w') →
        C.guarantee w w' ∧ J w')

variable {missing : OnMissing} {pid : ℕ} {C : Contract Op.Ret World} {J : World → Prop}
  {Loaded : Uuid → Uuid → World → Prop} {w : World} {L : Log Op.Ret} {α β : Type}

/-- The call ends where `J` holds. -/
abbrev EndsIn (J : World → Prop) {α : Type} : α → Unit → Log Op.Ret → World → Prop :=
  fun _ _ _ w => J w

namespace Grants

variable (hC : Grants missing pid C J Loaded)
include hC

theorem meets_harmless {m : Service α} (hm : Routine.Uses (fun o => o.harmless = true) m)
    (hw : J w) : Meets (exec missing) pid C m (EndsIn J) (EndsIn J) () L w :=
  (Meets.of_uses (C := C) (J := J) hm (fun _ _ hw h => hC.rely hw h)
    (fun _ _ _ ho hw => hC.harmless ho hw) hw).mono (fun _ _ _ _ h => h.2) fun _ _ _ _ h => h.2

/-- What is harmless, and then something else. -/
theorem meets_harmless_then {m : Service α} {f : α → Service β}
    (hm : Routine.Uses (fun o => o.harmless = true) m) (hw : J w)
    (hf : ∀ a L w, J w → Meets (exec missing) pid C (f a) (EndsIn J) (EndsIn J) () L w) :
    Meets (exec missing) pid C (m >>= f) (EndsIn J) (EndsIn J) () L w :=
  Meets.bind ((hC.meets_harmless hm hw).mono (fun a _ L w hw => hf a L w hw) fun _ _ _ _ h => h)

/-- Loading memberships. -/
theorem meets_load {q : Query} (hq : q.isRead = true)
    {Q : q.Ret → Unit → Log Op.Ret → World → Prop} (members : q.Ret → List Member)
    (hmembers : ∀ d a, q.read missing d = .ok a → ∀ m ∈ members a, m ∈ d.members) (hw : J w)
    (hok : ∀ a L w, J w → (∀ m ∈ members a, Loaded m.id m.userId w) → Q a () L w) :
    Meets (exec missing) pid C (db q) Q (EndsIn J) () L w := by
  refine Meets.call fun w₁ hrely => ?_
  have hw₁ := hC.rely hw hrely
  obtain ⟨hasserts, hnext⟩ := hC.harmless (L := L) (harmless_of_isRead q hq) hw₁
  refine ⟨hasserts, fun hexpects choice r w' hexec => ?_⟩
  obtain ⟨hguarantee, hw'⟩ := hnext hexpects choice r w' hexec
  refine ⟨hguarantee, fun w₂ hrely₂ => ?_⟩
  have hw₂ := hC.rely hw' hrely₂
  cases r with
  | error e => exact hw₂
  | ok a =>
    refine hok a _ w₂ hw₂ fun m hm => ?_
    rcases exec_db hexec with ⟨-, e, he⟩ | ⟨-, -, hr⟩
    · cases he
    · have hread : q.read missing w₁.tables = .ok a :=
        (hr.resolve_right fun ⟨e, he⟩ => by cases he).symm
      have hloaded := hC.load hw₁ (hmembers _ a hread m hm)
      exact hC.loaded_rely (hC.loaded_guarantee hloaded hguarantee) hrely₂

/-- Saving a loaded membership. -/
theorem meets_save {Q : Unit → Unit → Log Op.Ret → World → Prop} {member : Member}
    {l : List Member} (hw : J w) (hmember : Loaded member.id member.userId w)
    (hmembers : ∀ m ∈ l, Loaded m.id m.userId w)
    (hok : ∀ L w, J w → (∀ m ∈ l, Loaded m.id m.userId w) → Q () () L w) :
    Meets (exec missing) pid C (db (.write (.saveMember member))) Q (EndsIn J) () L w := by
  refine Meets.call fun w₁ hrely => ?_
  obtain ⟨hasserts, hnext⟩ := hC.save (L := L) (hC.rely hw hrely) (hC.loaded_rely hmember hrely)
  refine ⟨hasserts, fun hexpects choice r w' hexec => ?_⟩
  obtain ⟨hguarantee, hw'⟩ := hnext hexpects choice r w' hexec
  refine ⟨hguarantee, fun w₂ hrely₂ => ?_⟩
  have hw₂ := hC.rely hw' hrely₂
  cases r with
  | error e => exact hw₂
  | ok a =>
    refine hok _ w₂ hw₂ fun m hm => ?_
    have hloaded := hC.loaded_rely (hmembers m hm) hrely
    exact hC.loaded_rely (hC.loaded_guarantee hloaded hguarantee) hrely₂

/-! ### The calls -/

theorem meets_removeMember {userId : Uuid} (hw : J w) :
    Meets (exec missing) pid C (removeMember userId) (EndsIn J) (EndsIn J) () L w :=
  hC.meets_harmless
    (uses_removeMember (P := fun o => o.harmless = true) harmless_of_isRead (fun _ => rfl) userId) hw

/-- The members that are left move up. -/
theorem meets_resequence {departing : Option ℤ} {members : List Member} (hw : J w)
    (hmembers : ∀ m ∈ members, Loaded m.id m.userId w) :
    Meets (exec missing) pid C (resequence departing members) (EndsIn J) (EndsIn J) () L w := by
  induction members generalizing L w with
  | nil => exact Meets.pure fun w' h => hC.rely hw h
  | cons member members ih =>
    have hrest : ∀ m ∈ members, Loaded m.id m.userId w := fun m hm =>
      hmembers m (List.mem_cons_of_mem _ hm)
    unfold resequence
    split
    · refine Meets.bind (hC.meets_save hw ?_ hrest fun L w hw hmembers => ih hw hmembers)
      exact hmembers member List.mem_cons_self
    · exact ih hw hrest

omit hC in
theorem members_of_findMember {userId : Uuid} (d : Tables) (a : Option Member)
    (h : (Query.findMember userId).read missing d = .ok a) : ∀ m ∈ a.toList, m ∈ d.members := by
  intro m hm
  exact List.mem_of_find?_eq_some ((Except.ok.inj h).trans (Option.mem_toList.mp hm))

theorem meets_leaveGroup {userId : Uuid} (hw : J w) :
    Meets (exec missing) pid C (leaveGroup userId) (EndsIn J) (EndsIn J) () L w := by
  refine hC.meets_harmless_then (uses_db rfl) hw fun found L w hw => ?_
  refine hC.meets_harmless_then (Routine.uses_valueOr found _) hw fun group L w hw => ?_
  refine hC.meets_harmless_then (Routine.uses_throwWhen _ _) hw fun _ L w hw => ?_
  refine hC.meets_harmless_then (uses_db rfl) hw fun found L w hw => ?_
  refine hC.meets_harmless_then (Routine.uses_valueOr found _) hw fun membership L w hw => ?_
  refine hC.meets_harmless_then (uses_db rfl) hw fun _ L w hw => ?_
  refine Meets.bind (hC.meets_load (q := .findMembers) rfl (fun members : List Member => members)
    (fun d members h m hm => ?_) hw fun remainingMembers L w hw hmembers => ?_)
  · have hperm := List.perm_insertionSort
      (fun a b : Member => payoutOrderLe a.payoutOrder b.payoutOrder = true) d.members
    rw [← Except.ok.inj h] at hm
    exact hperm.mem_iff.mp hm
  refine Meets.bind ((hC.meets_resequence hw hmembers).mono (fun _ _ L w hw => ?_)
    fun _ _ _ _ h => h)
  exact hC.meets_harmless (uses_notify rfl) hw

omit hC in
theorem uses_asAdmin_harmless (requestingUserId : Uuid) (message : String) :
    Routine.Uses (fun o => o.harmless = true) (asAdmin requestingUserId message) :=
  uses_asAdmin (P := fun o => o.harmless = true) harmless_of_isRead requestingUserId message

theorem meets_suspendMember {targetUserId requestingUserId : Uuid} {reason : String} (hw : J w) :
    Meets (exec missing) pid C (suspendMember targetUserId requestingUserId reason) (EndsIn J)
      (EndsIn J) () L w := by
  refine hC.meets_harmless_then (Routine.uses_throwWhen _ _) hw fun _ L w hw => ?_
  refine hC.meets_harmless_then (uses_asAdmin_harmless _ _) hw fun group L w hw => ?_
  refine Meets.bind (hC.meets_load (q := .findMember targetUserId) rfl Option.toList
    members_of_findMember hw fun found L w hw hloaded => ?_)
  refine Meets.bind (Meets.valueOr (fun member hfound w₁ h₁ => ?_) fun _ w' h => hC.rely hw h)
  have hmember := hC.loaded_rely (hloaded member (Option.mem_toList.mpr hfound)) h₁
  replace hw := hC.rely hw h₁
  split
  · exact Meets.pure fun w' h => hC.rely hw h
  · refine Meets.bind (hC.meets_save (l := []) hw hmember
      (fun m hm => absurd hm List.not_mem_nil) fun L w hw _ => ?_)
    exact hC.meets_harmless (uses_notify rfl) hw

theorem meets_reinstateMember {targetUserId requestingUserId : Uuid} (hw : J w) :
    Meets (exec missing) pid C (reinstateMember targetUserId requestingUserId) (EndsIn J) (EndsIn J)
      () L w := by
  refine hC.meets_harmless_then (uses_asAdmin_harmless _ _) hw fun group L w hw => ?_
  refine Meets.bind (hC.meets_load (q := .findMember targetUserId) rfl Option.toList
    members_of_findMember hw fun found L w hw hloaded => ?_)
  refine Meets.bind (Meets.valueOr (fun member hfound w₁ h₁ => ?_) fun _ w' h => hC.rely hw h)
  have hmember := hC.loaded_rely (hloaded member (Option.mem_toList.mpr hfound)) h₁
  refine Meets.bind (hC.meets_save (l := []) (hC.rely hw h₁) hmember
    (fun m hm => absurd hm List.not_mem_nil) fun L w hw _ => ?_)
  exact hC.meets_harmless (uses_notify rfl) hw

/-- A call that ends with a reply. -/
theorem meets_reply {m : Service α} {f : α → Reply}
    (hm : Meets (exec missing) pid C m (EndsIn J) (EndsIn J) () L w) :
    Meets (exec missing) pid C (m >>= fun a => pure (f a)) (EndsIn J) (EndsIn J) () L w :=
  Meets.bind (hm.mono (fun _ _ _ _ hw => Meets.pure fun _ h => hC.rely hw h) fun _ _ _ _ h => h)

end Grants

/-! ### Runs of calls on the memberships -/

/-- A call on the memberships, or the database itself. -/
def Call.onMembers : Call → Bool
  | .addMember _ _ | .removeMember _ | .leaveGroup _ | .suspendMember _ _ _
  | .reinstateMember _ _ | .admitFromWaitlist _ | .dropSession _ => true
  | .joinWaitlist _ _ | .leaveWaitlist _ | .activateGroup _ _ => false

/-- Only calls on the memberships are started. -/
def CallsOnMembers (_ h' : MembersHist) : Prop :=
  match h'.trace with
  | .start _ c :: _ => c.onMembers = true
  | _ => True

instance : DecidableRel CallsOnMembers := fun h h' => by
  unfold CallsOnMembers
  rcases h'.trace with _ | ⟨_ | _ | _ | _, _⟩ <;> infer_instance

/-- **The calls on the memberships keep a contract** that grants loads and saves, if the
transactions of additions and admissions and the end of a session do. -/
theorem Grants.meets_onMembers {maxWaitlist : ℤ} (hC : Grants missing pid C J Loaded)
    (hadd : ∀ userId walletAddress L w, J w → Meets (exec missing) pid C
      (transaction (insertMember userId walletAddress)) (EndsIn J) (EndsIn J) () L w)
    (hadmission : ∀ maxToAdmit L w, J w → Meets (exec missing) pid C (admitFromWaitlist maxToAdmit)
      (EndsIn J) (EndsIn J) () L w)
    (hdrop : ∀ p L w, J w → Meets (exec missing) pid C
      (Routine.call (.dropSession p) fun _ => .ok .done : Service Reply) (EndsIn J) (EndsIn J) () L w)
    {c : Call} (hc : c.onMembers = true) (hw : J w) :
    Meets (exec missing) pid C (c.body maxWaitlist) (EndsIn J) (EndsIn J) () L w := by
  cases c with
  | addMember userId walletAddress =>
    refine hC.meets_reply (f := fun _ => .done) (Meets.tryCatch ?_)
    refine (hadd userId walletAddress L w hw).mono (fun _ _ _ _ h => h) fun e _ L w hw => ?_
    cases e <;> exact Meets.throw fun w' h => hC.rely hw h
  | removeMember userId =>
    exact hC.meets_reply (f := fun _ => .done) (hC.meets_removeMember hw)
  | leaveGroup userId => exact hC.meets_reply (f := fun _ => .done) (hC.meets_leaveGroup hw)
  | suspendMember targetUserId requestingUserId reason =>
    exact hC.meets_reply (f := fun _ => .done) (hC.meets_suspendMember hw)
  | reinstateMember targetUserId requestingUserId =>
    exact hC.meets_reply (f := fun _ => .done) (hC.meets_reinstateMember hw)
  | admitFromWaitlist maxToAdmit =>
    exact hC.meets_reply (f := fun userIds => .admitted userIds) (hadmission maxToAdmit L w hw)
  | dropSession p => exact hdrop p L w hw
  | joinWaitlist userId walletAddress => cases hc
  | leaveWaitlist userId => cases hc
  | activateGroup adminWallet random => cases hc

end Ahjoor.Members
