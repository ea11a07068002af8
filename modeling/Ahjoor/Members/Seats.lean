import Ahjoor.Members.Locking
import Ahjoor.Members.Permutations
import Ahjoor.Members.Places

/-!
# Seats

Additions, admissions and activations keep the terms of the group, never make it larger than its
terms say, and give no payout order beyond the number of its members. **Whoever inserts holds the
lock of the group** from the count to the commit, and what an activation saves meanwhile changes
payout orders, but neither the number of the members nor the terms.

Nobody leaves in these runs, so the keys of the memberships only grow, and a membership that was
loaded can be saved.
-/

namespace Ahjoor.Members

open Async

/-! ### Terms -/

/-- The columns of the group that the services on members read and never change. -/
structure Terms where
  minMembers : ℤ
  maxMembers : ℤ
  deriving DecidableEq, Repr

def GroupRow.terms (g : GroupRow) : Terms := ⟨g.minMembers, g.maxMembers⟩

/-- The terms of the group, if it has been created. -/
def Tables.terms (d : Tables) : Option Terms := d.group.map GroupRow.terms

/-- The members are within the terms of their group, and the payout orders are within the
members. -/
structure Seated (d : Tables) : Prop where
  empty : d.terms = none → d.members = []
  within : ∀ T, d.terms = some T → (d.members.length : ℤ) ≤ T.maxMembers
  orders : ∀ m ∈ d.members, ∀ o, m.payoutOrder = some o → 0 ≤ o ∧ o < d.members.length

variable {missing : OnMissing} {T : Terms} {d d' : Tables} {xs : List Write} {k k' next : ℤ}

theorem Seated.of_members (hd : Seated d) (hterms : d'.terms = d.terms)
    (hmembers : d'.members = d.members) : Seated d' := by
  refine ⟨?_, ?_, ?_⟩ <;> rw [hmembers]
  · exact hterms ▸ hd.empty
  · exact hterms ▸ hd.within
  · exact hd.orders

/-- Saving a membership with a payout order within the members. -/
theorem Seated.saveMember (hd : Seated d) {member : Member} (hmember : member.id ∈ d.ids)
    (horder : ∀ o, member.payoutOrder = some o → 0 ≤ o ∧ o < d.members.length) :
    Seated (d.commit missing [.saveMember member]) := by
  have hmembers : (d.commit missing [.saveMember member]).members =
      d.members.map fun m => if m.id = member.id then member else m := if_pos hmember
  have hterms : (d.commit missing [.saveMember member]).terms = d.terms := rfl
  refine ⟨fun h => ?_, fun T h => ?_, fun m hm => ?_⟩
  · rw [hmembers, hd.empty (hterms ▸ h), List.map_nil]
  · rw [hmembers, List.length_map]
    exact hd.within T (hterms ▸ h)
  · rw [hmembers, List.length_map]
    obtain ⟨m', hm', rfl⟩ := List.mem_map.mp (hmembers ▸ hm)
    split
    · exact horder
    · exact hd.orders m' hm'

/-- A new member may get the payout order behind the last one. -/
theorem Seated.nextPayoutOrder (hd : Seated d) :
    0 ≤ nextPayoutOrder (d.members.filterMap (·.payoutOrder)).max? ∧
      nextPayoutOrder (d.members.filterMap (·.payoutOrder)).max? ≤ d.members.length := by
  cases hmax : (d.members.filterMap (·.payoutOrder)).max? with
  | none => exact ⟨le_rfl, Int.natCast_nonneg _⟩
  | some o =>
    obtain ⟨m, hm, ho⟩ := List.mem_filterMap.mp (List.max?_eq_some_iff.mp hmax).1
    obtain ⟨hpos, hlt⟩ := hd.orders m hm o ho
    exact ⟨Int.le_add_one hpos, hlt⟩

/-! ### Manners -/

/-- The members stay seated, nobody leaves, and the terms stay once there is a group. -/
structure Staying (d d' : Tables) : Prop where
  seated : Seated d → Seated d'
  ids : d.ids <+: d'.ids
  terms : ∀ T, d.terms = some T → d'.terms = some T

theorem Staying.refl (d : Tables) : Staying d d := ⟨id, List.prefix_rfl, fun _ h => h⟩

/-- What calls owe each other: nobody leaves, and while one holds the lock nobody is seated. -/
def seatManners : Manners where
  offers d d' := Staying d d' ∧ d'.terms = d.terms
  bears := Staying
  spares d d' := d'.ids = d.ids
  bears_of_offers h := h.1
  offers_refl d := ⟨.refl d, rfl⟩
  spares_refl _ := rfl
  bears_trans h h' := ⟨fun hd => h'.seated (h.seated hd), h.ids.trans h'.ids,
    fun T hT => h'.terms T (h.terms T hT)⟩
  spares_trans h h' := h'.trans h

theorem offers_of_terms (hseated : Seated d → Seated d') (hids : d.ids <+: d'.ids)
    (hterms : d'.terms = d.terms) : seatManners.offers d d' :=
  ⟨⟨hseated, hids, fun _ hT => hterms.trans hT⟩, hterms⟩

theorem length_of_ids (h : d'.ids = d.ids) : d'.members.length = d.members.length := by
  have hlength := congrArg List.length h
  rwa [Tables.ids, Tables.ids, List.length_map, List.length_map] at hlength

/-- What leaves the members and the terms alone is permitted. -/
theorem permits_of_members {K : Tables → Prop} {x : Write}
    (hmembers : ∀ d : Tables, (d.commit missing [x]).members = d.members)
    (hterms : ∀ d : Tables, K d → (d.commit missing [x]).terms = d.terms) :
    seatManners.Permits missing K (.db (.write x)) := by
  intro d hd
  have hids : (d.commit missing [x]).ids = d.ids := congrArg (List.map Member.id) (hmembers d)
  refine ⟨offers_of_terms (fun h => h.of_members (hterms d hd) (hmembers d)) ?_ (hterms d hd), hids⟩
  rw [hids]

/-! ### What a transaction may write -/

/-- How many memberships are inserted. -/
def inserts (xs : List Write) : ℕ := (xs.filterMap Write.insertedOrder).length

theorem inserts_concat (xs : List Write) (x : Write) :
    inserts (xs ++ [x]) = inserts xs + inserts [x] := by
  rw [inserts, List.filterMap_append, List.length_append, inserts, inserts]

theorem inserts_insertMember (xs : List Write) (member : Member) :
    inserts (xs ++ [.insertMember member]) = inserts xs + 1 :=
  inserts_concat ..

theorem inserts_saveEntry (xs : List Write) (entry : WaitlistEntry) :
    inserts (xs ++ [.saveEntry entry]) = inserts xs :=
  inserts_concat ..

/-- After the writes there are `k` seats left, and those that are inserted have payout orders
within the members. -/
structure Vacancy (T : Terms) (k next : ℤ) (xs : List Write) (d : Tables) : Prop where
  terms : d.terms = some T
  takesIn : ∀ x ∈ xs, x.takesIn = true
  room : (d.members.length : ℤ) + inserts xs + k ≤ T.maxMembers
  next : 0 ≤ next ∧ next ≤ d.members.length
  orders : ∀ o, some o ∈ xs.filterMap Write.insertedOrder →
    0 ≤ o ∧ o < d.members.length + inserts xs

theorem withstands_vacancy (T : Terms) (k next : ℤ) (xs : List Write) :
    seatManners.Withstands (Vacancy T k next xs) := by
  intro d d' hbears hspares h
  have hlength := length_of_ids hspares
  refine ⟨hbears.terms T h.terms, h.takesIn, ?_, ?_, ?_⟩ <;> rw [hlength]
  · exact h.room
  · exact h.next
  · exact h.orders

theorem Vacancy.of_nil (hterms : d.terms = some T) (hroom : (d.members.length : ℤ) + k ≤ T.maxMembers)
    (hnext : 0 ≤ next ∧ next ≤ d.members.length) : Vacancy T k next [] d := by
  refine ⟨hterms, fun x hx => absurd hx List.not_mem_nil, ?_, hnext, fun o ho => ?_⟩
  · have hnone : ((inserts [] : ℕ) : ℤ) = 0 := rfl
    omega
  · exact absurd ho List.not_mem_nil

theorem Vacancy.insertMember (h : Vacancy T (k + 1) next xs d) {member : Member}
    (horder : ∀ o, member.payoutOrder = some o → 0 ≤ o ∧ o ≤ next + inserts xs) :
    Vacancy T k next (xs ++ [.insertMember member]) d := by
  have hcount := inserts_insertMember xs member
  refine ⟨h.terms, fun x hx => ?_, ?_, h.next, fun o ho => ?_⟩
  · rcases List.mem_append.mp hx with hx | hx
    · exact h.takesIn x hx
    · rw [List.mem_singleton.mp hx]
      rfl
  · have hroom := h.room
    rw [hcount]
    push_cast
    omega
  · have hnext := h.next
    rw [List.filterMap_append, List.mem_append] at ho
    rw [hcount]
    push_cast
    rcases ho with ho | ho
    · have hold := h.orders o ho
      omega
    · have hnew := horder o (List.mem_singleton.mp ho).symm
      omega

theorem Vacancy.saveEntry (h : Vacancy T k next xs d) (entry : WaitlistEntry) :
    Vacancy T k next (xs ++ [.saveEntry entry]) d := by
  have hsame : (xs ++ [Write.saveEntry entry]).filterMap Write.insertedOrder =
      xs.filterMap Write.insertedOrder := by
    rw [List.filterMap_append]
    exact List.append_nil _
  have hcount := inserts_saveEntry xs entry
  refine ⟨h.terms, fun x hx => ?_, hcount ▸ h.room, h.next, ?_⟩
  · rcases List.mem_append.mp hx with hx | hx
    · exact h.takesIn x hx
    · rw [List.mem_singleton.mp hx]
      rfl
  · rw [hsame, hcount]
    exact h.orders

/-- **The writes of a transaction** leave the members seated. -/
theorem Vacancy.seated (h : Vacancy T k next xs d) (hk : 0 ≤ k) (hd : Seated d) :
    Seated (d.commit missing xs) := by
  obtain ⟨new, hmembers, -, horders⟩ := members_view missing d h.takesIn
  have hcount : new.length = inserts xs := by
    rw [inserts, ← horders, List.length_map]
  have hlength : (d.commit missing xs).members.length = d.members.length + inserts xs := by
    change (d.view missing xs).members.length = _
    rw [hmembers, List.length_append, hcount]
  have hterms : (d.commit missing xs).terms = some T := by
    change (d.view missing xs).group.map GroupRow.terms = _
    rw [group_view h.takesIn]
    exact h.terms
  refine ⟨fun hnone => ?_, fun T' hT' => ?_, fun m hm o ho => ?_⟩
  · rw [hterms] at hnone
    cases hnone
  · obtain rfl := Option.some.inj (hterms.symm.trans hT')
    have hroom := h.room
    rw [hlength]
    push_cast
    omega
  · rw [hlength]
    push_cast
    replace hm : m ∈ (d.view missing xs).members := hm
    rw [hmembers, List.mem_append] at hm
    rcases hm with hm | hm
    · have hold := hd.orders m hm o ho
      omega
    · exact h.orders o (horders ▸ List.mem_map.mpr ⟨m, hm, ho⟩)

theorem ids_view (hxs : ∀ x ∈ xs, x.takesIn = true) : d.ids <+: (d.view missing xs).ids := by
  obtain ⟨new, hmembers, -, -⟩ := members_view missing d hxs
  rw [Tables.ids, Tables.ids, hmembers, List.map_append]
  exact List.prefix_append ..

/-- The writes may be committed. -/
def Fits (xs : List Write) (d : Tables) : Prop := ∃ T k next, 0 ≤ k ∧ Vacancy T k next xs d

theorem withstands_fits (xs : List Write) : seatManners.Withstands (Fits xs) := by
  rintro d d' hbears hspares ⟨T, k, next, hk, h⟩
  exact ⟨T, k, next, hk, withstands_vacancy T k next xs hbears hspares h⟩

theorem Vacancy.fits (h : Vacancy T k next xs d) (hk : 0 ≤ k) : Fits xs d := ⟨T, k, next, hk, h⟩

variable (missing) in
/-- **A commit** leaves the members seated. -/
theorem seated_commit (hd : Seated d) (h : xs = [] ∨ Fits xs d) :
    seatManners.offers d (d.commit missing xs) ∧ Seated (d.commit missing xs) := by
  have hoffers : ∀ {ys}, (∀ y ∈ ys, y.takesIn = true) → Seated (d.commit missing ys) →
      seatManners.offers d (d.commit missing ys) := fun hys hseated =>
    offers_of_terms (fun _ => hseated) (ids_view hys)
      (congrArg (Option.map GroupRow.terms) (group_view hys))
  rcases h with rfl | ⟨T, k, next, hk, h⟩
  · have hseated : Seated (d.commit missing []) := hd.of_members rfl rfl
    exact ⟨hoffers (fun x hx => absurd hx List.not_mem_nil) hseated, hseated⟩
  · exact ⟨hoffers h.takesIn (h.seated hk hd), h.seated hk hd⟩

/-! ### Transactions -/

section Transactions

variable {pid : ℕ} {w : World} {L : Log Op.Ret} {α : Type}

theorem seated_of_bears (h : seatManners.bears d d') (hd : Seated d) : Seated d' := h.seated hd

/-- A transaction whose body ends with writes that fit. -/
theorem meets_transaction_seated {body : Service α} (hw : Seated w.tables)
    (hbody : ∀ L w, Unwritten Seated pid w → Meets (exec missing) pid (seatManners.contract pid) body
      (fun _ _ _ w => Committable Seated Fits pid w) (EndsIn fun w => Seated w.tables) () L w) :
    Meets (exec missing) pid (seatManners.contract pid) (transaction body)
      (EndsIn fun w => Seated w.tables) (EndsIn fun w => Seated w.tables) () L w :=
  meets_transaction_holds seated_of_bears withstands_fits (fun _ _ hd h => seated_commit missing hd h)
    (fun _ => rfl) hw hbody

theorem stable_vacancy {w' : World} (hw : Holds Seated (Vacancy T k next xs) pid xs w)
    (h : (seatManners.contract pid).rely w w') : Holds Seated (Vacancy T k next xs) pid xs w' :=
  hw.stable seated_of_bears (withstands_vacancy T k next xs) h

/-- Reading under the lock. -/
theorem meets_read_seated {q : Query} (hq : q.isRead = true)
    {Q : q.Ret → Unit → Log Op.Ret → World → Prop} (room first : q.Ret → ℤ)
    (hw : Holds Seated (Vacancy T k next []) pid [] w)
    (hread : ∀ a d, Seated d → Vacancy T k next [] d → q.read missing (d.view missing []) = .ok a →
      Vacancy T (room a) (first a) [] d)
    (hok : ∀ a L w, Holds Seated (Vacancy T (room a) (first a) []) pid [] w → Q a () L w) :
    Meets (exec missing) pid (seatManners.contract pid) (tx q) Q (EndsIn fun w => Seated w.tables) ()
      L w :=
  meets_tx_read_holds seated_of_bears hq (fun a => Vacancy T (room a) (first a) [])
    (withstands_vacancy T k next []) (fun a => withstands_vacancy T (room a) (first a) []) hw hread hok

/-- Writing under the lock. -/
theorem meets_write_seated {x : Write} {Q : Unit → Unit → Log Op.Ret → World → Prop}
    (hw : Holds Seated (Vacancy T k next xs) pid xs w)
    (hwrite : ∀ d, Vacancy T k next xs d → Vacancy T k' next (xs ++ [x]) d)
    (hok : ∀ L w, Holds Seated (Vacancy T k' next (xs ++ [x])) pid (xs ++ [x]) w → Q () () L w) :
    Meets (exec missing) pid (seatManners.contract pid) (tx (.write x)) Q
      (EndsIn fun w => Seated w.tables) () L w :=
  meets_tx_write_holds seated_of_bears (withstands_vacancy T k next xs)
    (withstands_vacancy T k' next (xs ++ [x])) hw (fun d _ hd => hwrite d hd) hok

/-- What is known of the group when it has been locked. -/
theorem Seated.locked (hd : Seated d) {g : GroupRow} (hg : d.group = some g) :
    Vacancy g.terms 0 0 [] d := by
  have hterms : d.terms = some g.terms := congrArg (Option.map GroupRow.terms) hg
  refine .of_nil hterms ?_ ⟨le_rfl, Int.natCast_nonneg _⟩
  rw [add_zero]
  exact hd.within _ hterms

/-- Counting the members. -/
theorem Vacancy.countMembers (h : Vacancy T 0 0 [] d) {n : ℕ}
    (hn : Query.countMembers.read missing (d.view missing []) = .ok n) :
    Vacancy T (T.maxMembers - n) 0 [] d := by
  obtain rfl : d.members.length = n := Except.ok.inj hn
  exact .of_nil h.terms (by omega) h.next

/-- Reading the last payout order. -/
theorem Vacancy.maxPayoutOrder (h : Vacancy T k 0 [] d) (hd : Seated d) {maxOrder : Option ℤ}
    (hmax : Query.maxPayoutOrder.read missing (d.view missing []) = .ok maxOrder) :
    Vacancy T k (Members.nextPayoutOrder maxOrder) [] d := by
  obtain rfl : (d.members.filterMap (·.payoutOrder)).max? = maxOrder := Except.ok.inj hmax
  refine .of_nil h.terms ?_ hd.nextPayoutOrder
  have hroom := h.room
  have hnone : ((inserts [] : ℕ) : ℤ) = 0 := rfl
  omega

/-- Locking the group. -/
theorem meets_lockGroup_seated {Q : Option GroupRow → Unit → Log Op.Ret → World → Prop}
    (hw : Unwritten Seated pid w) (hnone : ∀ L w, Unwritten Seated pid w → Q none () L w)
    (hsome : ∀ g L w, Holds Seated (Vacancy g.terms 0 0 []) pid [] w → Q (some g) () L w) :
    Meets (exec missing) pid (seatManners.contract pid) lockGroup Q
      (EndsIn fun w => Seated w.tables) () L w :=
  meets_lockGroup_holds seated_of_bears (P := fun g => Vacancy g.terms 0 0 [])
    (fun g => withstands_vacancy g.terms 0 0 []) hw (fun _ _ hd hg => hd.locked hg) hnone hsome

/-- **An addition** counts and inserts under the lock of the group. -/
theorem meets_insertMember_seated {userId : Uuid} {walletAddress : String}
    (hw : Unwritten Seated pid w) :
    Meets (exec missing) pid (seatManners.contract pid) (insertMember userId walletAddress)
      (fun _ _ _ w => Committable Seated Fits pid w) (EndsIn fun w => Seated w.tables) () L w := by
  refine Meets.bind (meets_lockGroup_seated hw (fun L w hw => ?_) fun g L w hw => ?_)
  · exact Meets.bind (Meets.throw fun w' h => h.1.seated hw.sound)
  refine Meets.bind (Meets.pure fun w₁ h₁ => ?_)
  replace hw := stable_vacancy hw h₁
  refine Meets.bind (Meets.throwWhen (fun _ w' h => h.1.seated hw.sound) fun _ w₂ h₂ => ?_)
  replace hw := stable_vacancy hw h₂
  refine Meets.bind (meets_read_seated (q := .countMembers) rfl (fun n : ℕ => g.maxMembers - n)
    (fun _ => 0) hw (fun n d _ hd hn => hd.countMembers hn) fun (n : ℕ) L w hw => ?_)
  refine Meets.bind (Meets.throwWhen (fun _ w' h => h.1.seated hw.sound) fun hfree w₃ h₃ => ?_)
  replace hw := stable_vacancy hw h₃
  have hlt : (n : ℤ) < g.maxMembers := not_le.mp (of_decide_eq_false hfree)
  refine Meets.bind (meets_read_seated rfl (fun _ => 1) (fun _ => 0) hw (fun _ d _ hd _ => ?_)
    fun existing L w hw => ?_)
  · have hroom := hd.room
    exact { hd with room := by omega }
  refine Meets.bind (Meets.throwWhen (fun _ w' h => h.1.seated hw.sound) fun _ w₄ h₄ => ?_)
  replace hw := stable_vacancy hw h₄
  have hinsert : ∀ {payoutOrder : Option ℤ} {next : ℤ} {L : Log Op.Ret} {w : World},
      (∀ o, payoutOrder = some o → o = next) →
      Holds Seated (Vacancy g.terms (0 + 1) next []) pid [] w →
      Meets (exec missing) pid (seatManners.contract pid)
        (tx (.write (.insertMember { id := 0, userId, walletAddress, payoutOrder })))
        (fun _ _ _ w => Committable Seated Fits pid w) (EndsIn fun w => Seated w.tables) () L w := by
    intro payoutOrder next L w horder hw
    refine meets_write_seated hw (fun d hd => hd.insertMember fun o ho => ?_) fun L w hw =>
      hw.committable fun hd => hd.fits le_rfl
    obtain rfl := horder o ho
    exact ⟨hd.next.1, (add_zero o).ge⟩
  cases hstrategy : g.payoutOrderStrategy with
  | sequential =>
    refine Meets.bind (Meets.bind (meets_read_seated (q := .maxPayoutOrder) rfl (fun _ => 1)
      (fun maxOrder : Option ℤ => nextPayoutOrder maxOrder) hw
      (fun maxOrder d hd h hmax => h.maxPayoutOrder hd hmax) fun maxOrder L w hw =>
        Meets.pure fun w₅ h₅ => ?_))
    exact hinsert (fun o ho => (Option.some.inj ho).symm) (stable_vacancy hw h₅)
  | random =>
    exact Meets.bind (Meets.pure fun w₅ h₅ => hinsert (fun o ho => nomatch ho) (stable_vacancy hw h₅))
  | adminDefined =>
    exact Meets.bind (Meets.pure fun w₅ h₅ => hinsert (fun o ho => nomatch ho) (stable_vacancy hw h₅))

/-- The loop over the entries: those that are left have their seats. -/
theorem meets_admitEntries_seated {left : List WaitlistEntry}
    (hw : Holds Seated (Vacancy T left.length next xs) pid xs w) :
    Meets (exec missing) pid (seatManners.contract pid) (admitEntries left (next + inserts xs))
      (fun _ _ _ w => Committable Seated Fits pid w) (EndsIn fun w => Seated w.tables) () L w := by
  induction left generalizing xs L w with
  | nil => exact Meets.pure fun w' h => (stable_vacancy hw h).committable fun hd => hd.fits le_rfl
  | cons entry left ih =>
    rw [List.length_cons, Nat.cast_succ] at hw
    refine Meets.bind (meets_write_seated hw (fun d hd => hd.insertMember fun o ho => ?_)
      fun L w hw => ?_)
    · obtain rfl := Option.some.inj ho
      have hnext := hd.next
      omega
    refine Meets.bind (meets_write_seated hw (fun d hd => hd.saveEntry _) fun L w hw => ?_)
    have hrest := ih (L := L) hw
    have hcount : next + inserts (xs ++ [.insertMember (admittedMember entry (next + inserts xs))] ++
        [.saveEntry { entry with status := .admitted }]) = next + inserts xs + 1 := by
      rw [inserts_saveEntry, inserts_insertMember]
      push_cast
      exact (add_assoc next _ 1).symm
    rw [hcount] at hrest
    refine Meets.bind (hrest.mono (fun _ _ L w hw => Meets.pure fun w' h => ?_) fun _ _ _ _ h => h)
    exact hw.stable seated_of_bears withstands_fits h

/-- **An admission** counts and inserts under the lock of the group. -/
theorem meets_admission_seated {maxToAdmit : Option ℤ} (hw : Unwritten Seated pid w) :
    Meets (exec missing) pid (seatManners.contract pid) (admitFromWaitlistInTransaction maxToAdmit)
      (fun _ _ _ w => Committable Seated Fits pid w) (EndsIn fun w => Seated w.tables) () L w := by
  refine Meets.bind (meets_lockGroup_seated hw (fun L w hw => ?_) fun g L w hw => ?_)
  · exact Meets.pure fun w' h => (hw.stable seated_of_bears h).committable
  refine Meets.bind (meets_read_seated (q := .countMembers) rfl (fun n : ℕ => g.maxMembers - n)
    (fun _ => 0) hw (fun n d _ hd hn => hd.countMembers hn) fun (n : ℕ) L w hw => ?_)
  dsimp only
  split
  · exact Meets.pure fun w' h => (stable_vacancy hw h).committable_nil
  split
  · exact Meets.pure fun w' h => (stable_vacancy hw h).committable_nil
  next hfree hsome =>
  have hlimit : ((admissionLimit (g.maxMembers - n) maxToAdmit).toNat : ℤ) ≤ g.maxMembers - n := by
    cases maxToAdmit with
    | none => simp only [admissionLimit]; omega
    | some maxToAdmit => simp only [admissionLimit]; omega
  refine Meets.bind (meets_lockWaiting_holds seated_of_bears
    (R := fun entries => Vacancy g.terms entries.length 0 []) (withstands_vacancy _ _ _ _)
    (fun entries => withstands_vacancy g.terms entries.length 0 []) hw (fun d _ hd => ?_)
    fun entries L w hw => ?_)
  · have hroom := hd.room
    have hlength : (d.nextWaiting (admissionLimit (g.maxMembers - n) maxToAdmit).toNat).length ≤
        (admissionLimit (g.maxMembers - n) maxToAdmit).toNat := List.length_take_le ..
    exact { hd with room := by omega }
  split
  · exact Meets.pure fun w' h => (stable_vacancy hw h).committable_nil
  refine Meets.bind (meets_read_seated (q := .maxPayoutOrder) rfl (fun _ => (entries.length : ℤ))
    (fun maxOrder : Option ℤ => nextPayoutOrder maxOrder) hw
    (fun maxOrder d hd h hmax => h.maxPayoutOrder hd hmax) fun maxOrder L w hw => ?_)
  have hloop : Meets (exec missing) pid (seatManners.contract pid) (admitEntries entries
      (nextPayoutOrder maxOrder + inserts [])) (fun _ _ _ w => Committable Seated Fits pid w)
      (EndsIn fun w => Seated w.tables) () L w := meets_admitEntries_seated hw
  have hstart : nextPayoutOrder maxOrder + ((inserts [] : ℕ) : ℤ) = nextPayoutOrder maxOrder :=
    add_zero _
  rwa [hstart] at hloop

/-! ### Activations -/

/-- What an activation knows of the tables that it has loaded: the terms, and that the memberships
are still there. -/
structure Loaded (T : Terms) (ids : List Uuid) (d : Tables) : Prop where
  seated : Seated d
  terms : d.terms = some T
  ids : ids <+: d.ids

theorem Loaded.bears {ids : List Uuid} (h : seatManners.bears d d') (hd : Loaded T ids d) :
    Loaded T ids d' :=
  ⟨h.seated hd.seated, h.terms T hd.terms, hd.ids.trans h.ids⟩

/-- Saving a loaded membership with a payout order within those that were loaded. -/
theorem permits_saveMember {ids : List Uuid} {member : Member} (hmember : member.id ∈ ids)
    (horder : ∀ o, member.payoutOrder = some o → 0 ≤ o ∧ o < ids.length) :
    seatManners.Permits missing (Loaded T ids) (.db (.write (.saveMember member))) := by
  intro d hd
  have hpresent : member.id ∈ d.ids := hd.ids.subset hmember
  have hids : (d.commit missing [.saveMember member]).ids = d.ids := ids_saveMember hpresent
  have hlength : ids.length ≤ d.members.length := by
    have hle := hd.ids.length_le
    rwa [Tables.ids, List.length_map] at hle
  refine ⟨offers_of_terms (fun h => h.saveMember hpresent fun o ho => ?_) ?_ rfl, hids⟩
  · have hin := horder o ho
    omega
  · rw [hids]

/-- Saving the group with the terms that were loaded. -/
theorem permits_saveGroup {ids : List Uuid} {group : GroupRow} (hgroup : group.terms = T) :
    seatManners.Permits missing (Loaded T ids) (.db (.write (.saveGroup group))) :=
  permits_of_members (fun _ => rfl) fun _ hd => (congrArg some hgroup).trans hd.terms.symm

/-- The orders that a shuffle assigns are within the members. -/
theorem mem_shuffledIndices {random : ℕ → ℕ} {n : ℕ} {o : ℤ} (h : o ∈ shuffledIndices random n) :
    0 ≤ o ∧ o < n := by
  obtain ⟨i, hi, rfl⟩ := List.mem_map.mp ((perm_shuffledIndices random n).mem_iff.mp h)
  have hlt := List.mem_range.mp hi
  omega

theorem uses_assignPayoutOrders_loaded (strategy : PayoutOrderStrategy) (random : ℕ → ℕ)
    (members : List Member) :
    Routine.Uses (seatManners.Permits missing (Loaded T (members.map (·.id))))
      (assignPayoutOrders strategy random members) := by
  cases strategy with
  | sequential => exact Routine.uses_pure ()
  | random =>
    refine Routine.uses_forEach fun x hx => uses_db (permits_saveMember ?_ fun o ho => ?_)
    · have hmember : x.1.id ∈ members.map (·.id) := List.mem_map_of_mem (List.of_mem_zip hx).1
      exact hmember
    · obtain rfl := Option.some.inj ho
      rw [List.length_map]
      exact mem_shuffledIndices (List.of_mem_zip hx).2
  | adminDefined =>
    exact Routine.uses_bind (Routine.uses_throwWhen _ _) fun _ => Routine.uses_throwWhen _ _

theorem uses_rollBackActivation_loaded {ids : List Uuid} {group : GroupRow}
    (hgroup : group.terms = T) :
    Routine.Uses (seatManners.Permits missing (Loaded T ids)) (rollBackActivation group) := by
  refine Routine.uses_bind (uses_db ?_) fun _ => Routine.uses_throw _
  exact permits_saveGroup hgroup

theorem uses_storeContractAddress_loaded {ids : List Uuid} {group : GroupRow}
    (hgroup : group.terms = T) :
    Routine.Uses (seatManners.Permits missing (Loaded T ids)) (storeContractAddress group) :=
  Routine.uses_bind (uses_db (permits_saveGroup hgroup)) fun _ =>
    Routine.uses_tryCatch (Routine.uses_call trivial) fun _ => Routine.uses_pure ()

/-- **An activation** assigns payout orders within the members that it has loaded. -/
theorem meets_activateGroup_seated {adminWallet : String} {random : ℕ → ℕ} (hw : Seated w.tables) :
    Meets (exec missing) pid (seatManners.contract pid) (activateGroup adminWallet random)
      (EndsIn fun w => Seated w.tables) (EndsIn fun w => Seated w.tables) () L w := by
  refine Meets.bind (Meets.call fun w₁ hrely => ⟨trivial, fun _ choice r w' hexec => ?_⟩)
  have hw₁ := hrely.1.seated hw
  have hread : w' = w₁ ∧ (r = .ok (w₁.tables.group.map fun g => (g, w₁.tables.members)) ∨
      ∃ e, r = .error e) := by
    rcases exec_db hexec with ⟨rfl, he⟩ | ⟨-, rfl, hr⟩
    · exact ⟨rfl, .inr he⟩
    · exact ⟨rfl, hr⟩
  obtain ⟨rfl, hr⟩ := hread
  refine ⟨Manners.guarantee_refl w', fun w₂ hrely₂ => ?_⟩
  rcases hr with rfl | ⟨e, rfl⟩
  swap
  · exact hrely₂.1.seated hw₁
  cases hgroup : w'.tables.group with
  | none => exact Meets.bind (Meets.throw fun w₃ h₃ => h₃.1.seated (hrely₂.1.seated hw₁))
  | some group =>
    have hloaded : Loaded group.terms (w'.tables.members.map (·.id)) w₂.tables :=
      Loaded.bears hrely₂.1 ⟨hw₁, congrArg (Option.map GroupRow.terms) hgroup, List.prefix_rfl⟩
    refine Meets.bind (Meets.pure fun w₃ h₃ => ?_)
    refine (Manners.meets_permitted Loaded.bears ?_ (Loaded.bears h₃.1 hloaded)).mono
      (fun _ _ _ _ h => h.seated) fun _ _ _ _ h => h.seated
    refine Routine.uses_bind (Routine.uses_throwWhen _ _) fun _ => ?_
    refine Routine.uses_bind (Routine.uses_throwWhen _ _) fun _ => ?_
    refine Routine.uses_bind (Routine.uses_throwWhen _ _) fun _ => ?_
    refine Routine.uses_bind (uses_assignPayoutOrders_loaded _ _ _) fun _ => ?_
    refine Routine.uses_bind (uses_db (permits_saveGroup rfl)) fun _ => ?_
    refine Routine.uses_bind (Routine.uses_tryCatch (Routine.uses_call trivial) fun _ =>
      Routine.uses_pure none) fun deployed => ?_
    cases deployed with
    | none =>
      refine uses_rollBackActivation_loaded ?_
      rfl
    | some contractAddress =>
      refine Routine.uses_tryCatch (uses_storeContractAddress_loaded ?_) fun _ =>
        uses_rollBackActivation_loaded ?_
      · rfl
      · rfl

end Transactions

/-! ### The calls -/

/-- **Every call in which nobody leaves keeps the members seated**, whatever the others do meanwhile. -/
theorem meets_seats {maxWaitlist : ℤ} {pid : ℕ} {c : Call} {w : World} {L : Log Op.Ret}
    (hc : c.seats = true) (hw : Seated w.tables) :
    Meets (exec missing) pid (seatManners.contract pid) (c.body maxWaitlist)
      (EndsIn fun w => Seated w.tables) (EndsIn fun w => Seated w.tables) () L w := by
  have hreply : ∀ {α : Type} {m : Service α} {f : α → Reply},
      Meets (exec missing) pid (seatManners.contract pid) m (EndsIn fun w => Seated w.tables)
        (EndsIn fun w => Seated w.tables) () L w →
      Meets (exec missing) pid (seatManners.contract pid) (m >>= fun a => pure (f a))
        (EndsIn fun w => Seated w.tables) (EndsIn fun w => Seated w.tables) () L w := fun hm =>
    Meets.bind (hm.mono (fun _ _ _ _ hw => Meets.pure fun _ h => h.1.seated hw) fun _ _ _ _ h => h)
  have hentries : ∀ {x : Write}, (∀ d, (Tables.commit missing d [x]).members = d.members) →
      (∀ d, (Tables.commit missing d [x]).terms = d.terms) →
      seatManners.Permits missing Seated (.db (.write x)) := fun hmembers hterms =>
    permits_of_members hmembers fun d _ => hterms d
  cases c with
  | addMember userId walletAddress =>
    refine hreply (f := fun _ => .done) (Meets.tryCatch ((meets_transaction_seated hw
      fun L w hw => meets_insertMember_seated hw).mono (fun _ _ _ _ h => h) fun e _ L w hw => ?_))
    cases e <;> exact Meets.throw fun w' h => h.1.seated hw
  | joinWaitlist userId walletAddress =>
    refine hreply (f := fun position => .position position)
      (Manners.meets_permitted seated_of_bears ?_ hw)
    exact uses_joinWaitlist (fun q hq => Manners.permits_of_isRead hq)
      (fun e => hentries (fun _ => rfl) fun _ => rfl) maxWaitlist userId walletAddress
  | leaveWaitlist userId =>
    refine hreply (f := fun _ => .done) (Manners.meets_permitted seated_of_bears ?_ hw)
    exact uses_leaveWaitlist (fun q hq => Manners.permits_of_isRead hq)
      (fun e => hentries (fun _ => rfl) fun _ => rfl)
      (fun p => hentries (fun _ => rfl) fun _ => rfl) userId
  | admitFromWaitlist maxToAdmit =>
    exact hreply (f := fun userIds => .admitted userIds)
      (meets_transaction_seated hw fun L w hw => meets_admission_seated hw)
  | activateGroup adminWallet random =>
    exact hreply (f := fun _ => .done) (meets_activateGroup_seated hw)
  | dropSession p =>
    refine Meets.call fun w₁ hrely => ⟨trivial, fun _ choice r w' hexec => ?_⟩
    obtain rfl := exec_dropSession hexec
    exact ⟨Manners.guarantee_release w₁ p, fun w₂ hrely₂ => hrely₂.1.seated (hrely.1.seated hw)⟩
  | removeMember userId => cases hc
  | leaveGroup userId => cases hc
  | suspendMember targetUserId requestingUserId reason => cases hc
  | reinstateMember targetUserId requestingUserId => cases hc

end Ahjoor.Members
