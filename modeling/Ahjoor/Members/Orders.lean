import Ahjoor.Members.Places

/-!
# Consecutive payout orders

In a group with sequential orders the members take the places from zero on, each place once. An
insertion behind the last place keeps this, and so does the deletion of the last one; the deletion
of another leaves a gap, which is closed when all members behind it have moved up.
-/

namespace Ahjoor.Members

variable {missing : OnMissing} {d d' : Tables}

/-! ### Places -/

/-- The places of `n` members. -/
def places (n : ℕ) : List (Option ℤ) := (List.range n).map fun i : ℕ => some (i : ℤ)

/-- The payout orders of the members. -/
def Tables.orders (d : Tables) : List (Option ℤ) := d.members.map (·.payoutOrder)

/-- The payout orders are a permutation of the places. -/
def Consecutive (d : Tables) : Prop := d.orders.Perm (places d.members.length)

instance (d : Tables) : Decidable (Consecutive d) :=
  inferInstanceAs (Decidable (List.Perm _ _))

theorem places_add (m n : ℕ) :
    places (m + n) = places m ++ (List.range n).map fun i : ℕ => some ((m : ℤ) + i) := by
  rw [places, List.range_add, List.map_append, List.map_map, places]
  refine congrArg _ (List.map_congr_left fun i _ => ?_)
  simp only [Function.comp_apply]
  push_cast
  rfl

theorem places_succ (n : ℕ) : places (n + 1) = places n ++ [some (n : ℤ)] := by
  rw [places, List.range_succ, List.map_append, List.map_singleton, places]

theorem mem_places {n : ℕ} {p : Option ℤ} : p ∈ places n ↔ ∃ i : ℕ, i < n ∧ p = some (i : ℤ) := by
  constructor
  · intro h
    obtain ⟨i, hi, rfl⟩ := List.mem_map.mp h
    exact ⟨i, List.mem_range.mp hi, rfl⟩
  · rintro ⟨i, hi, rfl⟩
    exact List.mem_map.mpr ⟨i, List.mem_range.mpr hi, rfl⟩

theorem Consecutive.of_members (hd : Consecutive d)
    (hmembers : d'.members = d.members) : Consecutive d' := by
  rw [Consecutive, Tables.orders, hmembers]
  exact hd

/-- Every place is taken once. -/
theorem Consecutive.countP_eq_one (hd : Consecutive d) {r : ℤ} (hpos : 0 ≤ r)
    (hlt : r < d.members.length) : d.members.countP (·.payoutOrder = some r) = 1 := by
  have hcount : d.members.countP (·.payoutOrder = some r) = d.orders.count (some r) := by
    rw [Tables.orders, List.count, List.countP_map]
    exact List.countP_congr fun m _ => by simp
  rw [hcount, hd.count_eq]
  refine List.count_eq_one_of_mem ?_ ?_
  · refine List.Nodup.map (fun a b hab => ?_) List.nodup_range
    exact Int.ofNat_inj.mp (Option.some.inj hab)
  · refine mem_places.mpr ⟨r.toNat, ?_, congrArg some ?_⟩ <;> omega

/-- The last place of the members, from which a new one continues. -/
theorem Consecutive.nextPayoutOrder (hd : Consecutive d) :
    nextPayoutOrder (d.members.filterMap (·.payoutOrder)).max? = d.members.length := by
  have hmem : ∀ p : ℤ, p ∈ d.members.filterMap (·.payoutOrder) ↔
      ∃ i : ℕ, i < d.members.length ∧ p = i := by
    intro p
    have hsome : p ∈ d.members.filterMap (·.payoutOrder) ↔ some p ∈ d.orders := by
      rw [List.mem_filterMap, Tables.orders, List.mem_map]
    rw [hsome, hd.mem_iff, mem_places]
    exact exists_congr fun i => and_congr_right fun _ => Option.some_inj
  cases hmax : (d.members.filterMap (·.payoutOrder)).max? with
  | none =>
    have hnil : d.members.filterMap (·.payoutOrder) = [] := List.max?_eq_none_iff.mp hmax
    have hzero : d.members.length = 0 := by
      by_contra hne
      have hin := (hmem 0).mpr ⟨0, by omega, rfl⟩
      rw [hnil] at hin
      cases hin
    rw [hzero]
    rfl
  | some p =>
    obtain ⟨hin, hle⟩ := List.max?_eq_some_iff.mp hmax
    obtain ⟨i, hi, rfl⟩ := (hmem p).mp hin
    have hlast : ((d.members.length - 1 : ℕ) : ℤ) ≤ i :=
      hle _ ((hmem _).mpr ⟨d.members.length - 1, by omega, rfl⟩)
    change (i : ℤ) + 1 = _
    omega

/-! ### Insertions and deletions -/

/-- Insertions behind the last place. -/
theorem Consecutive.takeIn (hd : Consecutive d) {xs : List Write}
    (hxs : ∀ x ∈ xs, x.takesIn = true) {k : ℕ}
    (horders : xs.filterMap Write.insertedOrder =
      (List.range k).map fun i : ℕ => some ((d.members.length : ℤ) + i)) :
    Consecutive (d.commit missing xs) := by
  obtain ⟨new, hnew, -, hneworders⟩ := members_view missing d hxs
  have hmembers : (d.commit missing xs).members = d.members ++ new := hnew
  have hlength : new.length = k := by
    have h := congrArg List.length (hneworders.trans horders)
    rwa [List.length_map, List.length_map, List.length_range] at h
  rw [Consecutive, Tables.orders, hmembers, List.map_append, hneworders, horders,
    List.length_append, hlength, places_add]
  exact hd.append_right _

/-- The members after a deletion. -/
theorem members_removeMember (hkeys : d.ids.Nodup) {member : Member} {before after : List Member}
    (hsplit : d.members = before ++ member :: after) :
    (d.commit missing [.removeMember member]).members = before ++ after := by
  change d.members.filter _ = _
  rw [Tables.ids, hsplit, List.map_append, List.map_cons, List.nodup_append] at hkeys
  obtain ⟨-, hafter, hdisjoint⟩ := hkeys
  rw [hsplit, List.filter_append, List.filter_cons_of_neg (by simp)]
  congr 1
  · refine List.filter_eq_self.mpr fun m hm => ?_
    simpa using hdisjoint m.id (List.mem_map_of_mem hm) member.id List.mem_cons_self
  · refine List.filter_eq_self.mpr fun m hm => ?_
    have hne : m.id ≠ member.id := fun heq =>
      (List.nodup_cons.mp hafter).1 (heq ▸ List.mem_map_of_mem hm)
    simpa using hne

theorem length_removeMember (hkeys : d.ids.Nodup) {member : Member} (hmember : member ∈ d.members) :
    (d.commit missing [.removeMember member]).members.length + 1 = d.members.length := by
  obtain ⟨before, after, hsplit⟩ := List.append_of_mem hmember
  rw [members_removeMember hkeys hsplit, hsplit, List.length_append, List.length_append,
    List.length_cons]
  omega

/-- The places are taken except one. -/
def Gap (place : Option ℤ) (d : Tables) : Prop :=
  (place :: d.orders).Perm (places (d.members.length + 1))

/-- A deletion leaves a gap at the place of the member. -/
theorem Consecutive.gap (hd : Consecutive d) (hkeys : d.ids.Nodup) {member : Member}
    (hmember : member ∈ d.members) :
    Gap member.payoutOrder (d.commit missing [.removeMember member]) := by
  have hlength : (d.commit missing [.removeMember member]).members.length + 1 =
      d.members.length := length_removeMember hkeys hmember
  obtain ⟨before, after, hsplit⟩ := List.append_of_mem hmember
  have hremoved : (d.commit missing [.removeMember member]).members = before ++ after :=
    members_removeMember hkeys hsplit
  rw [hremoved] at hlength
  have horders : (member.payoutOrder :: (before ++ after).map (·.payoutOrder)).Perm d.orders := by
    rw [Tables.orders, hsplit]
    exact (List.perm_middle.map fun m : Member => m.payoutOrder).symm
  rw [Gap, Tables.orders, hremoved, hlength]
  exact horders.trans hd

/-- Nobody is behind the members with this key. -/
def Last (member : Member) (d : Tables) : Prop :=
  ∀ row ∈ d.members, row.id = member.id →
    ∀ m ∈ d.members, payoutOrderLe m.payoutOrder row.payoutOrder = true

instance (member : Member) (d : Tables) : Decidable (Last member d) :=
  inferInstanceAs (Decidable (∀ row ∈ d.members, _ → ∀ m ∈ d.members, _))

theorem commit_removeMember_congr {member row : Member} (h : row.id = member.id) :
    (d.commit missing [.removeMember member]).members =
      (d.commit missing [.removeMember row]).members := by
  change d.members.filter _ = d.members.filter _
  rw [h]

/-- The deletion of the last member. -/
theorem Consecutive.removeLast (hd : Consecutive d) (hkeys : d.ids.Nodup) {member : Member}
    (hlast : Last member d) : Consecutive (d.commit missing [.removeMember member]) := by
  by_cases hin : ∃ row ∈ d.members, row.id = member.id
  · obtain ⟨row, hrow, hid⟩ := hin
    have hgap : Gap row.payoutOrder (d.commit missing [.removeMember row]) := hd.gap hkeys hrow
    rw [Consecutive, Tables.orders, commit_removeMember_congr hid]
    rw [Gap, Tables.orders] at hgap
    have hlength : (d.commit missing [.removeMember row]).members.length + 1 =
        d.members.length := length_removeMember hkeys hrow
    generalize (d.commit missing [.removeMember row]).members = rest at hgap hlength ⊢
    -- the place of the row is the greatest one
    have hplace : row.payoutOrder = some (rest.length : ℤ) := by
      obtain ⟨m, hm, hgreatest⟩ := List.mem_map.mp
        (hd.mem_iff.mpr (mem_places.mpr ⟨rest.length, by omega, rfl⟩))
      obtain ⟨i, hi, hrowplace⟩ := mem_places.mp (hd.mem_iff.mp (List.mem_map_of_mem hrow))
      have hle := hlast row hrow hid m hm
      rw [hgreatest, hrowplace] at hle
      have hle' : (rest.length : ℤ) ≤ i := of_decide_eq_true hle
      rw [hrowplace, Option.some_inj]
      omega
    rw [hplace, places_succ] at hgap
    exact (hgap.trans List.perm_append_comm).cons_inv
  · have hsame : (d.commit missing [.removeMember member]).members = d.members :=
      List.filter_eq_self.mpr fun m hm => decide_eq_true fun heq => hin ⟨m, hm, heq⟩
    rw [Consecutive, Tables.orders, hsame]
    exact hd

/-! ### Renumbering -/

/-- The saves of a renumbering. -/
def resequenceWrites (departing : Option ℤ) : List Member → List Write
  | [] => []
  | member :: members =>
      if payoutOrderGt member.payoutOrder departing then
        .saveMember { member with payoutOrder := some (member.payoutOrder.getD 0 - 1) } ::
          resequenceWrites departing members
      else resequenceWrites departing members

theorem mem_resequenceWrites {departing : Option ℤ} {members : List Member} {ids : List Uuid}
    (hmembers : ∀ m ∈ members, m.id ∈ ids) :
    ∀ x ∈ resequenceWrites departing members,
      ∃ member : Member, x = .saveMember member ∧ member.id ∈ ids := by
  induction members with
  | nil => exact fun x hx => absurd hx List.not_mem_nil
  | cons member members ih =>
    have hrest := ih fun m hm => hmembers m (List.mem_cons_of_mem _ hm)
    unfold resequenceWrites
    split
    · intro x hx
      rcases List.mem_cons.mp hx with rfl | hx
      · exact ⟨_, rfl, hmembers member List.mem_cons_self⟩
      · exact hrest x hx
    · exact hrest

variable (missing) in
/-- A saved or a gapped table is a matter of its members. -/
theorem members_view_congr (hmembers : d'.members = d.members)
    {xs : List Write} (hxs : ∀ x ∈ xs, ∃ member : Member, x = .saveMember member) :
    (d'.view missing xs).members = (d.view missing xs).members := by
  induction xs generalizing d d' with
  | nil => exact hmembers
  | cons x xs ih =>
    refine ih ?_ fun y hy => hxs y (List.mem_cons_of_mem _ hy)
    obtain ⟨member, rfl⟩ := hxs x List.mem_cons_self
    change d'.saved missing member = d.saved missing member
    have hids : d'.ids = d.ids := by rw [Tables.ids, hmembers, Tables.ids]
    unfold Tables.saved
    by_cases hin : member.id ∈ d.ids
    · rw [if_pos hin, if_pos (hids ▸ hin), hmembers]
    · rw [if_neg hin, if_neg (hids ▸ hin), hmembers]

/-- The place of a member after the renumbering. -/
def movedUp (departing order : Option ℤ) : Option ℤ :=
  if payoutOrderGt order departing then some (order.getD 0 - 1) else order

/-- Replacing the entry with a key replaces one entry. -/
theorem map_replace {α κ : Type} [DecidableEq κ] {key : α → κ} {before after : List α} {a a' : α}
    (hkeys : ((before ++ a :: after).map key).Nodup) (hkey : key a' = key a) :
    (before ++ a :: after).map (fun b => if key b = key a' then a' else b) =
      before ++ a' :: after := by
  rw [List.map_append, List.map_cons, List.nodup_append] at hkeys
  obtain ⟨-, hafter, hdisjoint⟩ := hkeys
  have hkeep : ∀ l : List α, (∀ b ∈ l, key b ≠ key a) →
      l.map (fun b => if key b = key a' then a' else b) = l := by
    intro l hl
    refine (List.map_congr_left fun b hb => ?_).trans (List.map_id l)
    rw [if_neg (hkey ▸ hl b hb), id]
  have hbefore : ∀ b ∈ before, key b ≠ key a := fun b hb =>
    hdisjoint _ (List.mem_map_of_mem hb) _ List.mem_cons_self
  have hbehind : ∀ b ∈ after, key b ≠ key a := fun b hb heq =>
    (List.nodup_cons.mp hafter).1 (heq ▸ List.mem_map_of_mem hb)
  rw [List.map_append, List.map_cons, if_pos hkey.symm, hkeep before hbefore, hkeep after hbehind]

/-- A save of a membership that is in the table. -/
theorem members_saveMember {member : Member} (hmember : member.id ∈ d.ids) :
    (d.write missing (.saveMember member)).members =
      d.members.map fun m => if m.id = member.id then member else m := by
  change (if member.id ∈ d.ids then _ else _) = _
  rw [if_pos hmember]

theorem ids_saveMember {member : Member} (hmember : member.id ∈ d.ids) :
    (d.write missing (.saveMember member)).ids = d.ids := by
  rw [Tables.ids, members_saveMember hmember, List.map_map, Tables.ids]
  refine List.map_congr_left fun m _ => ?_
  simp only [Function.comp_apply]
  split
  next h => exact h.symm
  next => rfl

/-- **The whole renumbering** moves those up that are behind the departed member. -/
theorem members_resequence {departing : Option ℤ} {members : List Member}
    (hkeys : d.ids.Nodup) (hnodup : (members.map (·.id)).Nodup)
    (hmembers : ∀ m ∈ members, m ∈ d.members) :
    (d.view missing (resequenceWrites departing members)).members = d.members.map fun m =>
      if m.id ∈ members.map (·.id) then
        { m with payoutOrder := movedUp departing m.payoutOrder }
      else m := by
  induction members generalizing d with
  | nil => exact (List.map_id _).symm
  | cons member members ih =>
    obtain ⟨hfresh, hrest⟩ := List.nodup_cons.mp hnodup
    have hmember := hmembers member List.mem_cons_self
    have hothers : ∀ m ∈ members, m.id ≠ member.id := fun m hm heq =>
      hfresh (List.mem_map.mpr ⟨m, hm, heq⟩)
    unfold resequenceWrites
    split
    next hgt =>
      let saved := { member with payoutOrder := some (member.payoutOrder.getD 0 - 1) }
      have hpresent : saved.id ∈ d.ids := List.mem_map.mpr ⟨member, hmember, rfl⟩
      have hsaved : (d.write missing (.saveMember saved)).members =
          d.members.map fun m => if m.id = saved.id then saved else m := members_saveMember hpresent
      have hstep := ih (d := d.write missing (.saveMember saved))
        (by rwa [ids_saveMember hpresent]) hrest fun m hm => ?_
      · refine hstep.trans ?_
        rw [hsaved, List.map_map]
        refine List.map_congr_left fun m hm => ?_
        simp only [Function.comp_apply]
        by_cases hid : m.id = member.id
        · obtain rfl := List.inj_on_of_nodup_map hkeys hm hmember hid
          rw [if_pos rfl, if_neg hfresh, if_pos (List.mem_map_of_mem List.mem_cons_self), movedUp,
            if_pos hgt]
        · rw [if_neg hid]
          refine if_congr ?_ rfl rfl
          rw [List.map_cons, List.mem_cons, or_iff_right hid]
      · rw [hsaved]
        exact List.mem_map.mpr ⟨m, hmembers m (List.mem_cons_of_mem _ hm), if_neg (hothers m hm)⟩
    next hle =>
      refine (ih hkeys hrest fun m hm => hmembers m (List.mem_cons_of_mem _ hm)).trans ?_
      refine List.map_congr_left fun m hm => ?_
      by_cases hid : m.id = member.id
      · obtain rfl := List.inj_on_of_nodup_map hkeys hm hmember hid
        rw [if_neg hfresh, if_pos (List.mem_map_of_mem List.mem_cons_self), movedUp, if_neg hle]
      · refine if_congr ?_ rfl rfl
        rw [List.map_cons, List.mem_cons, or_iff_right hid]

/-- Moving up what is behind a place. -/
theorem movedUp_perm {place : Option ℤ} {orders : List (Option ℤ)} {n : ℕ}
    (h : (place :: orders).Perm (places (n + 1))) :
    (orders.map (movedUp place)).Perm (places n) := by
  obtain ⟨j, hj, rfl⟩ := mem_places.mp (h.mem_iff.mp List.mem_cons_self)
  obtain ⟨k, rfl⟩ := Nat.exists_eq_add_of_le (Nat.lt_succ_iff.mp hj)
  have hsplit : places (j + k + 1) = places j ++ some (j : ℤ) ::
      (List.range k).map fun i : ℕ => some ((j : ℤ) + i + 1) := by
    rw [add_assoc, places_add, List.range_succ_eq_map, List.map_cons, List.map_map]
    congr 2
  rw [hsplit] at h
  have hrest := (h.trans List.perm_middle).cons_inv
  refine (hrest.map _).trans (List.Perm.of_eq ?_)
  rw [List.map_append, List.map_map, places_add]
  congr 1
  · refine (List.map_congr_left fun p hp => ?_).trans (List.map_id _)
    obtain ⟨i, hi, rfl⟩ := mem_places.mp hp
    exact if_neg (by simp [payoutOrderGt]; omega)
  · refine List.map_congr_left fun i _ => ?_
    have hgt : payoutOrderGt (some ((j : ℤ) + i + 1)) (some (j : ℤ)) = true :=
      decide_eq_true (by simp only [Option.getD_some]; omega)
    rw [Function.comp_apply, movedUp, if_pos hgt, Option.getD_some, add_sub_cancel_right]

/-- **The renumbering closes the gap.** -/
theorem Gap.resequence {departing : Option ℤ} (hd : Gap departing d) (hkeys : d.ids.Nodup)
    {members : List Member} (hmembers : members.Perm d.members) :
    Consecutive (d.view missing (resequenceWrites departing members)) := by
  have hids := hmembers.map fun m : Member => m.id
  have hall : (d.view missing (resequenceWrites departing members)).members = d.members.map fun m =>
      if m.id ∈ members.map (·.id) then
        { m with payoutOrder := movedUp departing m.payoutOrder }
      else m :=
    members_resequence hkeys (hids.nodup_iff.mpr hkeys) fun m hm => hmembers.mem_iff.mp hm
  have horders : (d.view missing (resequenceWrites departing members)).orders =
      d.orders.map (movedUp departing) := by
    rw [Tables.orders, hall, List.map_map, Tables.orders, List.map_map]
    refine List.map_congr_left fun m hm => ?_
    simp only [Function.comp_apply]
    rw [if_pos (hids.mem_iff.mpr (List.mem_map_of_mem hm))]
  rw [Consecutive, horders, hall, List.length_map]
  exact movedUp_perm hd

end Ahjoor.Members
