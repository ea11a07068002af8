import Ahjoor.Members.Direct
import Ahjoor.Members.Orders

/-!
# The queue behind a departure

A member who leaves a waiting group leaves a gap in the payout orders, and those behind it move up.
An order that is missing counts as zero in the comparison: when the departed member has none, the
second member moves onto the place of the first, and when the departed order is below zero, the
members without an order get one. **Otherwise the queue keeps its order** (`keepsQueue_iff`).
-/

namespace Ahjoor.Members

open Async

variable {missing : OnMissing} {pid : ℕ} {w : World} {d d' : Tables} {member : Member}
  {group : GroupRow} {departing : Option ℤ}

/-! ### What is claimed -/

/-- The members other than `member` stay, in the same order. -/
structure KeepsQueue (member : Member) (d d' : Tables) : Prop where
  stay : d'.ids = d.ids.filter (· ≠ member.id)
  distinct : (d'.members.filterMap (·.payoutOrder)).Nodup
  ordered : ∀ a ∈ d.members, ∀ b ∈ d.members, ∀ a' ∈ d'.members, ∀ b' ∈ d'.members,
    a'.id = a.id → b'.id = b.id → ∀ p q, a.payoutOrder = some p → b.payoutOrder = some q → p < q →
      ∃ p' q', a'.payoutOrder = some p' ∧ b'.payoutOrder = some q' ∧ p' < q'
  unordered : ∀ a ∈ d.members, ∀ a' ∈ d'.members, a'.id = a.id → a.payoutOrder = none →
    a'.payoutOrder = none
  consecutive : Consecutive d → Consecutive d'

/-- **The departure keeps the queue**: it comes to its end, and whenever it does, the members who
stay are in the same order. -/
def LeavesInOrder (missing : OnMissing) (pid : ℕ) (member : Member) (w : World) : Prop :=
  (∃ w', Alone (exec missing) pid (leaveGroup member.userId ()) w (.ok (), ()) w') ∧
    ∀ w', Alone (exec missing) pid (leaveGroup member.userId ()) w (.ok (), ()) w' →
      KeepsQueue member w.tables w'.tables

/-- The member may leave: nobody else holds a lock, the group waits, and the orders that there are
are distinct. -/
structure MayLeave (group : GroupRow) (member : Member) (w : World) : Prop where
  idle : Idle w
  keys : w.tables.ids.Nodup
  users : w.tables.users.Nodup
  row : w.tables.group = some group
  pending : group.status = .pending
  isMember : member ∈ w.tables.members
  distinct : (w.tables.members.filterMap (·.payoutOrder)).Nodup

/-- A missing order does not meet the comparison: with an order of its own the departed member is
not below zero, or nobody is without; with none, the first two places are not both taken. -/
def MissingStaysOut (d : Tables) : Option ℤ → Prop
  | some k => 0 ≤ k ∨ none ∉ d.orders
  | none => some 0 ∉ d.orders ∨ some 1 ∉ d.orders

instance (d : Tables) (departing : Option ℤ) : Decidable (MissingStaysOut d departing) :=
  match departing with
  | some k => inferInstanceAs (Decidable (0 ≤ k ∨ none ∉ d.orders))
  | none => inferInstanceAs (Decidable (some 0 ∉ d.orders ∨ some 1 ∉ d.orders))

/-! ### The members who stay -/

/-- A member after the renumbering. -/
def Member.moved (departing : Option ℤ) (m : Member) : Member :=
  { m with payoutOrder := movedUp departing m.payoutOrder }

/-- The members who stay, moved up. -/
def Tables.without (member : Member) (d : Tables) : List Member :=
  (d.members.filter (·.id ≠ member.id)).map (·.moved member.payoutOrder)

theorem mem_without {m : Member} : m ∈ d.without member ↔
    ∃ a ∈ d.members, a.id ≠ member.id ∧ a.moved member.payoutOrder = m := by
  simp only [Tables.without, List.mem_map, List.mem_filter, decide_eq_true_eq, and_assoc]

/-- A member who stays is the one with that key, moved up. -/
theorem payoutOrder_of_mem_without (hkeys : d.ids.Nodup) {a m : Member} (ha : a ∈ d.members)
    (hm : m ∈ d.without member) (hid : m.id = a.id) :
    a.id ≠ member.id ∧ m.payoutOrder = movedUp member.payoutOrder a.payoutOrder := by
  obtain ⟨b, hb, hne, rfl⟩ := mem_without.mp hm
  obtain rfl := List.inj_on_of_nodup_map hkeys hb ha hid
  exact ⟨hne, rfl⟩

theorem mem_without_of_ne {a : Member} (ha : a ∈ d.members) (hne : a.id ≠ member.id) :
    a.moved member.payoutOrder ∈ d.without member :=
  mem_without.mpr ⟨a, ha, hne, rfl⟩

/-! ### One order -/

/-- An order after the renumbering. -/
def movedOrder (departing : Option ℤ) (p : ℤ) : ℤ := if p > departing.getD 0 then p - 1 else p

theorem movedUp_some (departing : Option ℤ) (p : ℤ) :
    movedUp departing (some p) = some (movedOrder departing p) := by
  rw [movedUp, movedOrder, payoutOrderGt, Option.getD_some]
  simp only [decide_eq_true_eq]
  split
  · rfl
  · rfl

/-- Which orders move up without meeting. -/
theorem movedOrder_lt {p q : ℤ} (hlt : p < q) (hp : some p ≠ departing) (hq : some q ≠ departing)
    (hapart : departing = none → p ≠ 0 ∨ q ≠ 1) : movedOrder departing p < movedOrder departing q := by
  cases departing with
  | some k =>
    have hpk : p ≠ k := fun h => hp (congrArg some h)
    have hqk : q ≠ k := fun h => hq (congrArg some h)
    simp only [movedOrder, Option.getD_some]
    split <;> split <;> omega
  | none =>
    have hpq := hapart rfl
    simp only [movedOrder, Option.getD_none]
    split <;> split <;> omega

/-- A missing order stays so, unless the departed one is below zero. -/
theorem movedUp_none (h : ∀ k, departing = some k → 0 ≤ k) : movedUp departing none = none := by
  refine if_neg fun hgt => ?_
  have hlt : (0 : ℤ) > departing.getD 0 := of_decide_eq_true hgt
  cases departing with
  | some k => exact absurd (h k rfl) (not_le.mpr hlt)
  | none => exact lt_irrefl 0 hlt

/-- No other member has the order of the departed one. -/
theorem ne_of_distinct (hdistinct : (d.members.filterMap (·.payoutOrder)).Nodup)
    (hmember : member ∈ d.members) {a : Member} (ha : a ∈ d.members) (hne : a.id ≠ member.id)
    {p : ℤ} (hp : a.payoutOrder = some p) : some p ≠ member.payoutOrder := by
  intro heq
  obtain ⟨before, after, hsplit⟩ := List.append_of_mem hmember
  rw [hsplit, List.filterMap_append, List.filterMap_cons_some heq.symm] at hdistinct
  have hrest : p ∉ before.filterMap (·.payoutOrder) ++ after.filterMap (·.payoutOrder) :=
    (List.nodup_middle.mp hdistinct).notMem
  rw [hsplit, List.mem_append, List.mem_cons] at ha
  refine hrest (List.mem_append.mpr ?_)
  rcases ha with hbefore | rfl | hafter
  · exact .inl (List.mem_filterMap.mpr ⟨a, hbefore, hp⟩)
  · exact absurd rfl hne
  · exact .inr (List.mem_filterMap.mpr ⟨a, hafter, hp⟩)

/-! ### The queue -/

variable {a m : Member}

theorem exists_order_of_mem_orders {p : Option ℤ} (h : p ∈ d.orders) :
    ∃ a ∈ d.members, a.payoutOrder = p := List.mem_map.mp h

/-- With nobody without an order in the way of a departed one below zero, those who have none stay
without. -/
theorem MissingStaysOut.unordered (h : MissingStaysOut d member.payoutOrder) (ha : a ∈ d.members)
    (hnone : a.payoutOrder = none) : movedUp member.payoutOrder none = none := by
  refine movedUp_none fun k hk => ?_
  rw [hk] at h
  exact h.resolve_right fun hnot => hnot (List.mem_map.mpr ⟨a, ha, hnone⟩)

/-- Two orders that move up do not meet. -/
theorem MissingStaysOut.lt (h : MissingStaysOut d member.payoutOrder)
    (hdistinct : (d.members.filterMap (·.payoutOrder)).Nodup) (hmember : member ∈ d.members)
    {a b : Member} (ha : a ∈ d.members) (hb : b ∈ d.members) (hane : a.id ≠ member.id)
    (hbne : b.id ≠ member.id) {p q : ℤ} (hp : a.payoutOrder = some p) (hq : b.payoutOrder = some q)
    (hlt : p < q) :
    movedOrder member.payoutOrder p < movedOrder member.payoutOrder q := by
  refine movedOrder_lt hlt (ne_of_distinct hdistinct hmember ha hane hp)
    (ne_of_distinct hdistinct hmember hb hbne hq) fun hnone => ?_
  rw [hnone] at h
  rcases h with hzero | hone
  · exact .inl fun h0 => hzero (List.mem_map.mpr ⟨a, ha, h0 ▸ hp⟩)
  · exact .inr fun h1 => hone (List.mem_map.mpr ⟨b, hb, h1 ▸ hq⟩)

/-- The orders of those who stay, one by one. -/
theorem filterMap_without (h : MissingStaysOut d member.payoutOrder) :
    (d.without member).filterMap (·.payoutOrder) =
      ((d.members.filter (·.id ≠ member.id)).filterMap (·.payoutOrder)).map
        (movedOrder member.payoutOrder) := by
  rw [Tables.without, List.filterMap_map, List.map_filterMap]
  refine List.filterMap_congr fun a ha => ?_
  have hmem : a ∈ d.members := (List.mem_filter.mp ha).1
  change movedUp member.payoutOrder a.payoutOrder = _
  cases horder : a.payoutOrder with
  | none => exact h.unordered hmem horder
  | some p => exact movedUp_some ..

theorem distinct_without (h : MissingStaysOut d member.payoutOrder)
    (hdistinct : (d.members.filterMap (·.payoutOrder)).Nodup) (hmember : member ∈ d.members) :
    ((d.without member).filterMap (·.payoutOrder)).Nodup := by
  have hstay : ((d.members.filter (·.id ≠ member.id)).filterMap (·.payoutOrder)).Nodup :=
    hdistinct.sublist (List.filter_sublist.filterMap _)
  rw [filterMap_without h]
  refine hstay.map_on fun p hp q hq heq => ?_
  obtain ⟨a, ha, hap⟩ := List.mem_filterMap.mp hp
  obtain ⟨b, hb, hbq⟩ := List.mem_filterMap.mp hq
  obtain ⟨ha, hane⟩ := List.mem_filter.mp ha
  obtain ⟨hb, hbne⟩ := List.mem_filter.mp hb
  have hane := of_decide_eq_true hane
  have hbne := of_decide_eq_true hbne
  rcases lt_trichotomy p q with hlt | heq | hgt
  · exact absurd heq (h.lt hdistinct hmember ha hb hane hbne hap hbq hlt).ne
  · exact heq
  · exact absurd heq (h.lt hdistinct hmember hb ha hbne hane hbq hap hgt).ne'

/-- Whoever leaves a queue without gaps leaves one. -/
theorem Consecutive.without (hd : Consecutive d) (hkeys : d.ids.Nodup) (hmember : member ∈ d.members)
    (hd' : d'.members = d.without member) : Consecutive d' := by
  have hgap : Gap member.payoutOrder (d.commit .ignores [.removeMember member]) :=
    hd.gap hkeys hmember
  have hlength : (d.commit .ignores [.removeMember member]).members.length + 1 = _ :=
    length_removeMember hkeys hmember
  have hlength' : d'.members.length = (d.commit .ignores [.removeMember member]).members.length := by
    rw [hd', Tables.without, List.length_map]
    rfl
  have horders : d'.orders =
      (d.commit .ignores [.removeMember member]).orders.map (movedUp member.payoutOrder) := by
    rw [Tables.orders, hd', Tables.without, List.map_map, Tables.orders, List.map_map]
    rfl
  rw [Consecutive, horders, hlength']
  exact movedUp_perm hgap

/-- **The queue is kept** when a missing order does not meet the comparison. -/
theorem keepsQueue_of_missingStaysOut (h : MissingStaysOut d member.payoutOrder)
    (hkeys : d.ids.Nodup) (hdistinct : (d.members.filterMap (·.payoutOrder)).Nodup)
    (hmember : member ∈ d.members) (hd' : d'.members = d.without member) :
    KeepsQueue member d d' where
  stay := by
    rw [Tables.ids, hd', Tables.without, List.map_map, Tables.ids, List.filter_map]
    rfl
  distinct := hd' ▸ distinct_without h hdistinct hmember
  ordered := by
    intro a ha b hb a' ha' b' hb' hida hidb p q hp hq hlt
    rw [hd'] at ha' hb'
    obtain ⟨hane, ha''⟩ := payoutOrder_of_mem_without hkeys ha ha' hida
    obtain ⟨hbne, hb''⟩ := payoutOrder_of_mem_without hkeys hb hb' hidb
    rw [hp, movedUp_some] at ha''
    rw [hq, movedUp_some] at hb''
    exact ⟨_, _, ha'', hb'', h.lt hdistinct hmember ha hb hane hbne hp hq hlt⟩
  unordered := by
    intro a ha a' ha' hid hnone
    rw [hd'] at ha'
    obtain ⟨-, horder⟩ := payoutOrder_of_mem_without hkeys ha ha' hid
    rw [horder, hnone]
    exact h.unordered ha hnone
  consecutive := fun hd => hd.without hkeys hmember hd'

/-- When the queue is kept, no missing order has met the comparison. -/
theorem missingStaysOut_of_keepsQueue (hkeeps : KeepsQueue member d d') (hkeys : d.ids.Nodup)
    (hmember : member ∈ d.members) (hd' : d'.members = d.without member) :
    MissingStaysOut d member.payoutOrder := by
  -- whoever has another order is another member
  have hother : ∀ a ∈ d.members, a.payoutOrder ≠ member.payoutOrder → a.id ≠ member.id := by
    intro a ha hne hid
    exact hne (congrArg _ (List.inj_on_of_nodup_map hkeys ha hmember hid))
  cases horder : member.payoutOrder with
  | some k =>
    refine or_iff_not_imp_right.mpr fun hnone => not_lt.mp fun hneg => ?_
    obtain ⟨a, ha, hanone⟩ := exists_order_of_mem_orders (not_not.mp hnone)
    have hane : a.id ≠ member.id := hother a ha fun h => by rw [hanone, horder] at h; cases h
    have hmoved : a.moved member.payoutOrder ∈ d'.members := hd' ▸ mem_without_of_ne ha hane
    have hstays : movedUp member.payoutOrder a.payoutOrder = none :=
      hkeeps.unordered a ha _ hmoved rfl hanone
    -- a missing order is behind one below zero
    have hbehind : payoutOrderGt none (some k) = true := decide_eq_true hneg
    rw [hanone, horder, movedUp, if_pos hbehind] at hstays
    cases hstays
  | none =>
    refine or_iff_not_imp_left.mpr fun hzero hone => ?_
    obtain ⟨a, ha, hazero⟩ := exists_order_of_mem_orders (not_not.mp hzero)
    obtain ⟨b, hb, hbone⟩ := exists_order_of_mem_orders hone
    have hane : a.id ≠ member.id := hother a ha fun h => by rw [hazero, horder] at h; cases h
    have hbne : b.id ≠ member.id := hother b hb fun h => by rw [hbone, horder] at h; cases h
    have hamoved : a.moved member.payoutOrder ∈ d'.members := hd' ▸ mem_without_of_ne ha hane
    have hbmoved : b.moved member.payoutOrder ∈ d'.members := hd' ▸ mem_without_of_ne hb hbne
    obtain ⟨p, q, hp, hq, hlt⟩ :=
      hkeeps.ordered a ha b hb _ hamoved _ hbmoved rfl rfl 0 1 hazero hbone zero_lt_one
    have hp' : movedUp member.payoutOrder a.payoutOrder = some p := hp
    have hq' : movedUp member.payoutOrder b.payoutOrder = some q := hq
    -- the second place moves onto the first
    rw [hazero, horder, movedUp_some] at hp'
    rw [hbone, horder, movedUp_some] at hq'
    obtain rfl : 0 = p := Option.some.inj hp'
    obtain rfl : 0 = q := Option.some.inj hq'
    exact lt_irrefl 0 hlt

/-! ### The call -/

/-- **The renumbering**, however its saves end, if it returns. -/
theorem solo_resequence (departing : Option ℤ) (members : List Member) :
    Solo (exec missing) pid (resequence departing members)
      (fun _ _ w' => w'.tables.members =
        (w.tables.view missing (resequenceWrites departing members)).members)
      (fun _ _ _ => True) () w := by
  induction members generalizing w with
  | nil => exact Solo.pure rfl
  | cons member members ih =>
    unfold resequence resequenceWrites
    refine Solo.ite (fun hgt => ?_) fun hle => ?_
    · rw [if_pos hgt]
      refine Solo.bind (solo_db_write (fun _ => ?_) fun _ _ => trivial)
      refine ih.mono (fun _ _ w' hw' => hw'.trans ?_) fun _ _ _ _ => trivial
      let saved : Member := { member with payoutOrder := some (member.payoutOrder.getD 0 - 1) }
      have hsaved : (w.tables.commit missing [.saveMember saved]).members =
          (w.tables.write missing (.saveMember saved)).members := rfl
      refine members_view_congr missing hsaved fun x hx => ?_
      have hids : ∀ m ∈ members, m.id ∈ members.map (·.id) := fun m hm => List.mem_map_of_mem hm
      obtain ⟨saved, rfl, -⟩ := mem_resequenceWrites hids x hx
      exact ⟨saved, rfl⟩
    · rw [if_neg hle]
      exact ih

theorem comes_resequence (hw : Idle w) (departing : Option ℤ) {members : List Member}
    (hmembers : ∀ m ∈ members, m.id ∈ w.tables.ids) :
    Comes (working missing) pid (resequence departing members) (.ok ()) Idle () w := by
  induction members generalizing w with
  | nil => exact Comes.pure hw
  | cons member members ih =>
    obtain ⟨hmember, hrest⟩ := List.forall_mem_cons.mp hmembers
    unfold resequence
    split
    · refine Comes.bind (comes_db_write hw (if_neg fun hnot => hnot.1 hmember)) ?_
      rintro w₁ ⟨hw₁, htables⟩
      refine ih hw₁ fun m hm => ?_
      have hids : w₁.tables.ids = w.tables.ids := by
        rw [htables]
        exact ids_saveMember hmember
      exact hids ▸ hrest m hm
    · exact ih hw hrest

theorem MayLeave.find (h : MayLeave group member w) :
    w.tables.members.find? (·.userId = member.userId) = some member := by
  obtain ⟨before, after, hsplit⟩ := List.append_of_mem h.isMember
  have husers := h.users
  rw [Tables.users, hsplit, List.map_append, List.map_cons, List.nodup_append] at husers
  rw [hsplit]
  refine List.find?_eq_some_iff_append.mpr ⟨decide_eq_true rfl, before, after, rfl, fun m hm => ?_⟩
  simpa using husers.2.2 _ (List.mem_map_of_mem hm) _ List.mem_cons_self

/-- The tables after the deletion. -/
theorem members_resequence_without (hkeys : w.tables.ids.Nodup) {members : List Member}
    (hperm : members.Perm (w.tables.commit missing [.removeMember member]).members) :
    ((w.tables.commit missing [.removeMember member]).view missing
      (resequenceWrites member.payoutOrder members)).members = w.tables.without member := by
  have hrest : (w.tables.commit missing [.removeMember member]).ids.Nodup :=
    hkeys.sublist (List.filter_sublist.map _)
  have hids := hperm.map fun m : Member => m.id
  refine (members_resequence hrest (hids.nodup_iff.mpr hrest)
    fun m hm => hperm.mem_iff.mp hm).trans ?_
  refine List.map_congr_left fun m hm => ?_
  rw [if_pos (hids.mem_iff.mpr (List.mem_map_of_mem hm))]
  rfl

/-- **A departure that returns** leaves the others, moved up. -/
theorem solo_leaveGroup (h : MayLeave group member w) :
    Solo (exec missing) pid (leaveGroup member.userId)
      (fun _ _ w' => w'.tables.members = w.tables.without member) (fun _ _ _ => True) () w := by
  have hgroup : Query.findGroup.read missing w.tables = .ok (some group) := congrArg Except.ok h.row
  have hfind : (Query.findMember member.userId).read missing w.tables = .ok (some member) :=
    congrArg Except.ok h.find
  refine Solo.bind (solo_db_read rfl hgroup (Solo.bind (Solo.pure ?_)) fun _ _ => trivial)
  refine Solo.bind (Solo.throwWhen (fun _ => trivial) fun _ => ?_)
  refine Solo.bind (solo_db_read rfl hfind (Solo.bind (Solo.pure ?_)) fun _ _ => trivial)
  refine Solo.bind (solo_db_write (fun _ => ?_) fun _ _ => trivial)
  refine Solo.bind (solo_db_read rfl rfl ?_ fun _ _ => trivial)
  refine Solo.bind ((solo_resequence member.payoutOrder _).mono (fun _ _ w₁ h₁ => ?_)
    fun _ _ _ _ => trivial)
  have hleft : w₁.tables.members = w.tables.without member :=
    h₁.trans (members_resequence_without h.keys (List.perm_insertionSort ..))
  refine Solo.call fun choice r w₂ hexec => ?_
  cases r with
  | ok a => exact exec_external rfl hexec ▸ hleft
  | error e => trivial

/-- A departure with nothing failing returns. -/
theorem comes_leaveGroup (h : MayLeave group member w) :
    Comes (working missing) pid (leaveGroup member.userId) (.ok ()) (fun _ => True) () w := by
  refine Comes.bind (comes_db_read h.idle rfl (congrArg Except.ok h.row)) ?_
  rintro _ rfl
  refine Comes.bind (R := (w = ·)) (Comes.pure rfl) ?_
  rintro _ rfl
  refine Comes.bind (R := (w = ·)) (Comes.throwWhen (by simp [h.pending]) rfl) ?_
  rintro _ rfl
  refine Comes.bind (comes_db_read h.idle rfl (congrArg Except.ok h.find)) ?_
  rintro _ rfl
  refine Comes.bind (R := (w = ·)) (Comes.pure rfl) ?_
  rintro _ rfl
  refine Comes.bind (comes_db_write h.idle rfl) ?_
  rintro w₁ ⟨hw₁, -⟩
  refine Comes.bind (comes_db_read hw₁ rfl rfl) ?_
  rintro _ rfl
  refine Comes.bind (comes_resequence hw₁ _ fun m hm => ?_) fun w₂ _ => ?_
  · exact List.mem_map_of_mem ((List.perm_insertionSort ..).mem_iff.mp hm)
  · exact Comes.call .done (working_done rfl) trivial

/-- **When a departure keeps the queue.** -/
theorem leavesInOrder_iff (missing : OnMissing) (pid : ℕ) {group : GroupRow} {member : Member}
    {w : World} (h : MayLeave group member w) :
    LeavesInOrder missing pid member w ↔ MissingStaysOut w.tables member.payoutOrder := by
  have hleft : ∀ w', Alone (exec missing) pid (leaveGroup member.userId ()) w (.ok (), ()) w' →
      w'.tables.members = w.tables.without member := fun w' halone =>
    solo_leaveGroup h _ _ _ halone
  have hcomes : Comes (working missing) pid (leaveGroup member.userId) (.ok ()) (fun _ => True) () w :=
    comes_leaveGroup h
  obtain ⟨w₁, halone, -⟩ := hcomes
  have hrun := Alone.of_limited halone
  constructor
  · rintro ⟨-, hkeeps⟩
    exact missingStaysOut_of_keepsQueue (hkeeps w₁ hrun) h.keys h.isMember (hleft w₁ hrun)
  · intro hstays
    exact ⟨⟨w₁, hrun⟩, fun w' halone' =>
      keepsQueue_of_missingStaysOut hstays h.keys h.distinct h.isMember (hleft w' halone')⟩

/-- Three members, two of whom have joined in order and one by an invite. -/
def invited : Tables where
  group := some { id := 0, name := "group", adminWallet := "G0", minMembers := 2, maxMembers := 5 }
  members := [{ id := 0, userId := 0, walletAddress := "G0", payoutOrder := some 0 },
    { id := 1, userId := 1, walletAddress := "G1", payoutOrder := some 1 },
    { id := 2, userId := 2, walletAddress := "G2" }]
  issued := [0, 1, 2]

/-- The first of them leaves. -/
theorem leavesInOrder_sample : LeavesInOrder .ignores 0
    { id := 0, userId := 0, walletAddress := "G0", payoutOrder := some 0 } (started invited) :=
  (leavesInOrder_iff .ignores 0 (w := started invited)
    ⟨⟨rfl, fun _ => rfl⟩, by decide, by decide, rfl, rfl, by decide, by decide⟩).mpr (.inl le_rfl)

/-- The invited one leaves, and the others have one place. -/
theorem not_leavesInOrder : ¬ ∀ (w : World) (group : GroupRow) (member : Member),
    MayLeave group member w → LeavesInOrder .ignores 0 member w := by
  intro hall
  have hkeeps := (hall (started invited) _ { id := 2, userId := 2, walletAddress := "G2" }
    ⟨⟨rfl, fun _ => rfl⟩, by decide, by decide, rfl, rfl, by decide, by decide⟩).2
  obtain ⟨⟨⟨x, ⟨⟩⟩, w'⟩, hreplay, hp⟩ := System.exists_of_any
    (x := (leaveGroup 2 ()).replay (exec .ignores) 0 (List.replicate 6 .done) (started invited))
    (p := fun y => y.1.1.isOk && decide ¬ (y.2.tables.members.filterMap Member.payoutOrder).Nodup)
    (by decide +kernel)
  obtain ⟨hok, htwice⟩ := (Bool.and_eq_true ..).mp hp
  cases x with
  | ok a => exact of_decide_eq_true htwice (hkeeps w' (alone_of_replay hreplay)).distinct
  | error e => cases hok

end Ahjoor.Members
