import Ahjoor.Members.Positions

/-!
# Places of a group

What the writes do to the number of memberships and to their users. A transaction that has counted
the memberships under the lock of the group keeps its places: until it ends, the others can only
remove memberships or change the columns of some.

The log of the committed transactions tells which of them has admitted an entry of the waitlist.
-/

namespace Ahjoor.Members

variable {missing : OnMissing} {d d' d₀ : Tables}

/-! ### Well-formed memberships -/

/-- The keys of the memberships with their users. -/
def Tables.holders (d : Tables) : List (Uuid × Uuid) := d.members.map fun m => (m.id, m.userId)

/-- Every key belongs to the user for whom it was handed out. -/
def Owned (d : Tables) : Prop := ∀ m ∈ d.members, d.issued[m.id]? = some m.userId

instance (d : Tables) : Decidable (Owned d) :=
  inferInstanceAs (Decidable (∀ m ∈ d.members, _))

/-- The memberships fit into the group, no user has two, and the keys are with their users. -/
structure Sound (d : Tables) : Prop where
  within : ∀ g, d.group = some g → (d.members.length : ℤ) ≤ g.maxMembers
  users_nodup : d.users.Nodup
  owned : Owned d

/-- Keys stay with the users for whom they were handed out. -/
theorem getElem?_of_prefixed {xs ys : List Uuid} (h : xs <+: ys) {id userId : Uuid}
    (hid : xs[id]? = some userId) : ys[id]? = some userId := by
  obtain ⟨later, rfl⟩ := h
  obtain ⟨hlt, -⟩ := List.getElem?_eq_some_iff.mp hid
  rw [List.getElem?_append_left hlt, hid]

/-- What others can do to the tables while the group is locked: remove memberships, and change
columns other than the key and the user. -/
structure Shrinks (d d' : Tables) : Prop where
  group : d'.group = d.group
  waitlist : d'.waitlist = d.waitlist
  issued : d'.issued = d.issued
  holders : d'.holders.Sublist d.holders

theorem Shrinks.refl (d : Tables) : Shrinks d d := ⟨rfl, rfl, rfl, .refl _⟩

theorem Shrinks.trans {d₁ d₂ d₃ : Tables} (h : Shrinks d₁ d₂) (h' : Shrinks d₂ d₃) :
    Shrinks d₁ d₃ :=
  ⟨h'.group.trans h.group, h'.waitlist.trans h.waitlist, h'.issued.trans h.issued,
    h'.holders.trans h.holders⟩

theorem Shrinks.length_le (h : Shrinks d d') : d'.members.length ≤ d.members.length := by
  have hlength := h.holders.length_le
  rwa [Tables.holders, Tables.holders, List.length_map, List.length_map] at hlength

theorem users_eq_holders (d : Tables) : d.users = d.holders.map Prod.snd := by
  rw [Tables.users, Tables.holders, List.map_map]
  rfl

theorem Shrinks.sound (h : Shrinks d d') (hd : Sound d) : Sound d' where
  within g hg := by
    have hle := hd.within g (h.group ▸ hg)
    have hlength := h.length_le
    omega
  users_nodup := by
    rw [users_eq_holders]
    exact (users_eq_holders d ▸ hd.users_nodup).sublist (h.holders.map _)
  owned m hm := by
    have hmem : (m.id, m.userId) ∈ d'.holders := List.mem_map_of_mem hm
    obtain ⟨m', hm', heq⟩ := List.mem_map.mp (h.holders.subset hmem)
    obtain ⟨hid, huser⟩ := Prod.mk.inj heq
    rw [h.issued, ← hid, ← huser]
    exact hd.owned m' hm'

/-! ### Single statements -/

variable (missing) in
theorem Shrinks.removeMember (d : Tables) (member : Member) :
    Shrinks d (d.write missing (.removeMember member)) :=
  ⟨rfl, rfl, rfl, List.filter_sublist.map _⟩

/-- Saving a membership that was loaded before changes neither keys nor users. -/
theorem holders_saveMember (hd : Owned d) {member : Member}
    (hmember : d.issued[member.id]? = some member.userId)
    (hpresent : missing = .ignores ∨ member.id ∈ d.ids) :
    (d.write missing (.saveMember member)).holders = d.holders := by
  change (d.saved missing member).map _ = _
  unfold Tables.saved
  split
  · rw [List.map_map]
    refine List.map_congr_left fun m hm => ?_
    simp only [Function.comp_apply]
    split
    next hid =>
      have howned := hd m hm
      rw [hid, hmember] at howned
      rw [hid, Option.some.inj howned]
    next => rfl
  next habsent =>
    obtain rfl := hpresent.resolve_right habsent
    rfl

theorem Shrinks.saveMember (hd : Sound d) {member : Member}
    (hmember : d.issued[member.id]? = some member.userId) :
    Shrinks d (d.write .ignores (.saveMember member)) :=
  ⟨rfl, rfl, rfl, (holders_saveMember hd.owned hmember (.inl rfl)).symm ▸ .refl _⟩

theorem Owned.insertMember (hd : Owned d) (member : Member) :
    Owned (d.write missing (.insertMember member)) := by
  intro m hm
  change (d.issued ++ [_])[m.id]? = _
  rcases List.mem_append.mp hm with hm | hm
  · have howned := hd m hm
    obtain ⟨hlt, -⟩ := List.getElem?_eq_some_iff.mp howned
    rw [List.getElem?_append_left hlt, howned]
  · rw [List.mem_singleton.mp hm]
    exact List.getElem?_concat_length ..

/-- A new member takes a place. -/
theorem Sound.insertMember (hd : Sound d) {member : Member} (huser : member.userId ∉ d.users)
    (hroom : ∀ g, d.group = some g → (d.members.length : ℤ) < g.maxMembers) :
    Sound (d.write missing (.insertMember member)) where
  within g hg := by
    have hlt := hroom g hg
    change ((d.members ++ [_]).length : ℤ) ≤ _
    rw [List.length_append, List.length_singleton]
    omega
  users_nodup := by
    change ((d.members ++ [_]).map _).Nodup
    rw [List.map_append, List.map_singleton, List.nodup_append]
    refine ⟨hd.users_nodup, List.nodup_singleton _, fun u hu u' hu' heq => ?_⟩
    rw [List.mem_singleton.mp hu'] at heq
    exact huser (heq ▸ hu)
  owned := hd.owned.insertMember member

/-! ### What an admitting or adding transaction writes -/

/-- The write inserts a membership, or updates an entry of the waitlist. -/
def Write.takesIn : Write → Bool
  | .insertMember _ | .saveEntry _ => true
  | .saveMember _ | .removeMember _ | .insertEntry _ | .closeGap _ | .saveGroup _ => false

theorem Shrinks.write (h : Shrinks d d') {x : Write} (hx : x.takesIn = true) :
    Shrinks (d.write missing x) (d'.write missing x) := by
  cases x with
  | insertMember member =>
    refine ⟨h.group, h.waitlist, congrArg (· ++ [_]) h.issued, ?_⟩
    change ((d'.members ++ [_]).map _).Sublist ((d.members ++ [_]).map _)
    rw [List.map_append, List.map_append, List.map_singleton, List.map_singleton, h.issued]
    exact h.holders.append (.refl _)
  | saveEntry entry =>
    refine ⟨h.group, ?_, h.issued, h.holders⟩
    change d'.waitlist.map _ = d.waitlist.map _
    rw [h.waitlist]
  | saveMember m => cases hx
  | removeMember m => cases hx
  | insertEntry e => cases hx
  | closeGap p => cases hx
  | saveGroup g => cases hx

theorem Shrinks.view (h : Shrinks d d') {xs : List Write} (hxs : ∀ x ∈ xs, x.takesIn = true) :
    Shrinks (d.view missing xs) (d'.view missing xs) := by
  induction xs generalizing d d' with
  | nil => exact h
  | cons x xs ih =>
    exact ih (h.write (hxs x List.mem_cons_self)) fun y hy => hxs y (List.mem_cons_of_mem _ hy)

theorem group_view {xs : List Write} (hxs : ∀ x ∈ xs, x.takesIn = true) :
    (d.view missing xs).group = d.group := by
  induction xs generalizing d with
  | nil => rfl
  | cons x xs ih =>
    refine (ih fun y hy => hxs y (List.mem_cons_of_mem _ hy)).trans ?_
    have hx := hxs x List.mem_cons_self
    cases x with
    | insertMember m => rfl
    | saveEntry e => rfl
    | saveMember m => cases hx
    | removeMember m => cases hx
    | insertEntry e => cases hx
    | closeGap p => cases hx
    | saveGroup g => cases hx

variable (missing) in
theorem issued_write (d : Tables) (x : Write) : d.issued <+: (d.write missing x).issued := by
  cases x with
  | insertMember m => exact List.prefix_append ..
  | _ => exact List.prefix_rfl

variable (missing) in
theorem issued_view (d : Tables) (xs : List Write) : d.issued <+: (d.view missing xs).issued := by
  induction xs generalizing d with
  | nil => exact List.prefix_rfl
  | cons x xs ih => exact (issued_write missing d x).trans (ih _)

theorem view_concat (missing : OnMissing) (d : Tables) (xs : List Write) (x : Write) :
    d.view missing (xs ++ [x]) = (d.view missing xs).write missing x :=
  List.foldl_concat ..

/-- The payout order with which a write inserts a membership. -/
def Write.insertedOrder : Write → Option (Option ℤ)
  | .insertMember member => some member.payoutOrder
  | _ => none

variable (missing d) in
/-- The members after a transaction that only takes members in. -/
theorem members_view {xs : List Write} (hxs : ∀ x ∈ xs, x.takesIn = true) :
    ∃ new, (d.view missing xs).members = d.members ++ new ∧
      new.map (·.userId) = xs.filterMap Write.insertedUser ∧
      new.map (·.payoutOrder) = xs.filterMap Write.insertedOrder := by
  induction xs generalizing d with
  | nil => exact ⟨[], (List.append_nil _).symm, rfl, rfl⟩
  | cons x xs ih =>
    obtain ⟨new, hnew, husers, horders⟩ := ih (d.write missing x) fun y hy =>
      hxs y (List.mem_cons_of_mem _ hy)
    have hx := hxs x List.mem_cons_self
    cases x with
    | insertMember member =>
      refine ⟨{ member with id := d.issued.length } :: new, ?_,
        congrArg (member.userId :: ·) husers, congrArg (member.payoutOrder :: ·) horders⟩
      exact hnew.trans (List.append_assoc ..)
    | saveEntry entry => exact ⟨new, hnew, husers, horders⟩
    | _ => cases hx

theorem takesIn_admissionWrites (entries : List WaitlistEntry) (n : ℤ) :
    ∀ x ∈ admissionWrites entries n, x.takesIn = true := by
  induction entries generalizing n with
  | nil => exact fun x hx => absurd hx List.not_mem_nil
  | cons entry entries ih =>
    intro x hx
    rcases List.mem_cons.mp hx with rfl | hx
    · rfl
    rcases List.mem_cons.mp hx with rfl | hx
    · rfl
    exact ih (n + 1) x hx

/-! ### Admissions in the log -/

/-- The write admits an entry. -/
def Write.admits (id : Uuid) : Write → Bool
  | .saveEntry entry => entry.id = id ∧ entry.status = .admitted
  | _ => false

/-- The transaction admits an entry. -/
def Admits (id : Uuid) (xs : List Write) : Prop := ∃ x ∈ xs, x.admits id = true

instance (id : Uuid) (xs : List Write) : Decidable (Admits id xs) :=
  inferInstanceAs (Decidable (∃ x ∈ xs, _))

/-- Every entry that is admitted was so at first, or one transaction has admitted it, and this
transaction has inserted one membership for its user. -/
def AdmittedOnce (d₀ d : Tables) : Prop :=
  ∀ e ∈ d.waitlist, e.status = .admitted → e ∈ d₀.waitlist ∨
    ∃ xs, d.log.filter (Admits e.id) = [xs] ∧ (xs.filterMap Write.insertedUser).count e.userId = 1

/-- The keys and the users of a waitlist are distinct. -/
structure Distinct (d : Tables) : Prop where
  ids : (d.waitlist.map (·.id)).Nodup
  users : (d.waitlist.map (·.userId)).Nodup

/-- The log explains the admissions since `d₀`. -/
structure Recorded (d₀ d : Tables) : Prop where
  distinct : Distinct d
  waiting : ∀ e ∈ d.waiting, ∀ xs ∈ d.log, ¬ Admits e.id xs
  admitted : AdmittedOnce d₀ d

theorem not_admits_of_spares {xs : List Write} (hxs : ∀ x ∈ xs, x.sparesWaitlist = true)
    (id : Uuid) : ¬ Admits id xs := by
  rintro ⟨x, hx, hadmits⟩
  have hspares := hxs x hx
  cases x with
  | saveEntry entry => cases hspares
  | _ => cases hadmits

/-- A transaction that spares the waitlist admits nobody. -/
theorem Recorded.spared (hd : Recorded d₀ d) {xs : List Write}
    (hxs : ∀ x ∈ xs, x.sparesWaitlist = true) : Recorded d₀ (d.commit missing xs) := by
  have hwaitlist : (d.commit missing xs).waitlist = d.waitlist := (waitlist_view missing d hxs).1
  refine ⟨⟨hwaitlist ▸ hd.distinct.ids, hwaitlist ▸ hd.distinct.users⟩, fun e he ys hys => ?_,
    fun e he hstatus => ?_⟩
  · rw [waiting_of_waitlist hwaitlist] at he
    rcases List.mem_cons.mp hys with rfl | hys
    · exact not_admits_of_spares hxs e.id
    · exact hd.waiting e he ys hys
  · rcases hd.admitted e (hwaitlist ▸ he) hstatus with hold | ⟨ys, hys, hcount⟩
    · exact .inl hold
    · refine .inr ⟨ys, ?_, hcount⟩
      change (xs :: d.log).filter _ = _
      rwa [List.filter_cons_of_neg (by simpa using not_admits_of_spares hxs e.id)]

theorem admits_admissionWrites {id : Uuid} {entries : List WaitlistEntry} {n : ℤ} :
    Admits id (admissionWrites entries n) ↔ id ∈ entries.map (·.id) := by
  induction entries generalizing n with
  | nil => exact iff_of_false (fun ⟨x, hx, _⟩ => List.not_mem_nil hx) List.not_mem_nil
  | cons entry entries ih =>
    have hrest := ih (n := n + 1)
    rw [List.map_cons, List.mem_cons, ← hrest]
    constructor
    · rintro ⟨x, hx, hadmits⟩
      rcases List.mem_cons.mp hx with rfl | hx
      · cases hadmits
      rcases List.mem_cons.mp hx with rfl | hx
      · exact .inl (of_decide_eq_true hadmits).1.symm
      · exact .inr ⟨x, hx, hadmits⟩
    · rintro (rfl | ⟨x, hx, hadmits⟩)
      · exact ⟨_, List.mem_cons_of_mem _ List.mem_cons_self, decide_eq_true ⟨rfl, rfl⟩⟩
      · exact ⟨x, List.mem_cons_of_mem _ (List.mem_cons_of_mem _ hx), hadmits⟩

/-- The waitlist after an admission: the entries that it has admitted, and the others. -/
theorem mem_waitlist_admission {entries : List WaitlistEntry} {n : ℤ} {e : WaitlistEntry}
    (he : e ∈ (d.view missing (admissionWrites entries n)).waitlist) :
    (e ∈ d.waitlist ∧ e.id ∉ entries.map (·.id)) ∨
      ∃ entry ∈ entries, e = { entry with status := .admitted } := by
  induction entries generalizing d n with
  | nil => exact .inl ⟨he, List.not_mem_nil⟩
  | cons entry entries ih =>
    rcases ih (d := (d.write missing (.insertMember (admittedMember entry n))).write missing
      (.saveEntry { entry with status := .admitted })) (n := n + 1) he with
        ⟨hmem, hid⟩ | ⟨entry', hentry', rfl⟩
    · obtain ⟨e', he', rfl⟩ := List.mem_map.mp hmem
      split
      next => exact .inr ⟨entry, List.mem_cons_self, rfl⟩
      next hne =>
        rw [if_neg hne] at hid
        refine .inl ⟨he', fun hmem => ?_⟩
        rcases List.mem_cons.mp hmem with heq | hmem
        · exact hne heq
        · exact hid hmem
    · exact .inr ⟨entry', List.mem_cons_of_mem _ hentry', rfl⟩

/-- The keys and the users of the waitlist after an admission. -/
theorem applications_admission (hids : (d.waitlist.map (·.id)).Nodup)
    {entries : List WaitlistEntry} (hentries : ∀ e ∈ entries, ∃ e' ∈ d.waitlist, e'.id = e.id ∧
      e'.userId = e.userId) (n : ℤ) :
    (d.view missing (admissionWrites entries n)).waitlist.map (fun e => (e.id, e.userId)) =
      d.waitlist.map fun e => (e.id, e.userId) := by
  induction entries generalizing d n with
  | nil => rfl
  | cons entry entries ih =>
    obtain ⟨e', he', hid, huser⟩ := hentries entry List.mem_cons_self
    have hsame : ((d.write missing (.insertMember (admittedMember entry n))).write missing
        (.saveEntry { entry with status := .admitted })).waitlist.map
          (fun e => (e.id, e.userId)) = d.waitlist.map fun e => (e.id, e.userId) := by
      change (d.waitlist.map _).map _ = _
      rw [List.map_map]
      refine List.map_congr_left fun e he => ?_
      simp only [Function.comp_apply]
      split
      next heq =>
        obtain rfl := List.inj_on_of_nodup_map hids he he' (heq.trans hid.symm)
        exact Prod.ext heq.symm huser.symm
      next => rfl
    have hnext := ih (d := (d.write missing (.insertMember (admittedMember entry n))).write missing
      (.saveEntry { entry with status := .admitted })) ?_ ?_ (n + 1)
    · exact hnext.trans hsame
    · have hfst := congrArg (List.map Prod.fst) hsame
      rw [List.map_map, List.map_map] at hfst
      exact hfst ▸ hids
    · intro e he
      obtain ⟨e₁, he₁, hid₁, huser₁⟩ := hentries e (List.mem_cons_of_mem _ he)
      have hmem : (e₁.id, e₁.userId) ∈ d.waitlist.map fun e => (e.id, e.userId) :=
        List.mem_map_of_mem he₁
      rw [← hsame] at hmem
      obtain ⟨e₂, he₂, heq⟩ := List.mem_map.mp hmem
      obtain ⟨hid₂, huser₂⟩ := Prod.mk.inj heq
      exact ⟨e₂, he₂, hid₂.trans hid₁, huser₂.trans huser₁⟩

/-- Distinctness is a matter of the keys and the users. -/
theorem Distinct.of_applications (hd : Distinct d)
    (h : d'.waitlist.map (fun e => (e.id, e.userId)) = d.waitlist.map fun e => (e.id, e.userId)) :
    Distinct d' := by
  have hids := congrArg (List.map Prod.fst) h
  have husers := congrArg (List.map Prod.snd) h
  rw [List.map_map, List.map_map] at hids husers
  exact ⟨hids ▸ hd.ids, husers ▸ hd.users⟩

/-- **An admission of entries that wait is recorded.** -/
theorem Recorded.admission (hd : Recorded d₀ d) {entries : List WaitlistEntry}
    (hnodup : (entries.map (·.id)).Nodup) (hentries : ∀ e ∈ entries, e ∈ d.waiting) (n : ℤ) :
    Recorded d₀ (d.commit missing (admissionWrites entries n)) := by
  have hmem : ∀ e ∈ entries, e ∈ d.waitlist ∧ e.status = .waiting := fun e he => by
    simpa [Tables.waiting] using hentries e he
  have hsame : (d.view missing (admissionWrites entries n)).waitlist.map (fun e => (e.id, e.userId)) =
      d.waitlist.map fun e => (e.id, e.userId) :=
    applications_admission hd.distinct.ids (fun e he => ⟨e, (hmem e he).1, rfl, rfl⟩) n
  refine ⟨hd.distinct.of_applications hsame, fun e he xs hxs => ?_, fun e he hstatus => ?_⟩
  · replace he : e ∈ (d.view missing (admissionWrites entries n)).waiting := he
    rw [waiting_admission] at he
    obtain ⟨hold, hid⟩ := List.mem_filter.mp he
    rcases List.mem_cons.mp hxs with rfl | hxs
    · rw [admits_admissionWrites]
      exact of_decide_eq_true hid
    · exact hd.waiting e hold xs hxs
  · rcases mem_waitlist_admission he with ⟨hold, hid⟩ | ⟨entry, hentry, rfl⟩
    · rcases hd.admitted e hold hstatus with hfirst | ⟨ys, hys, hcount⟩
      · exact .inl hfirst
      · refine .inr ⟨ys, ?_, hcount⟩
        change (admissionWrites entries n :: d.log).filter _ = _
        rwa [List.filter_cons_of_neg (by simpa [admits_admissionWrites] using hid)]
    · -- it waited before, so no earlier transaction has admitted it
      refine .inr ⟨admissionWrites entries n, ?_, ?_⟩
      · have hnew : Admits entry.id (admissionWrites entries n) :=
          admits_admissionWrites.mpr (List.mem_map_of_mem hentry)
        change (admissionWrites entries n :: d.log).filter (fun xs => Admits entry.id xs) = _
        rw [List.filter_cons_of_pos (by simpa using hnew), List.filter_eq_nil_iff.mpr]
        intro xs hxs hadmits
        exact hd.waiting entry (hentries entry hentry) xs hxs (of_decide_eq_true hadmits)
      · rw [insertedUser_admissionWrites]
        refine List.count_eq_one_of_mem ?_ (List.mem_map_of_mem (f := (·.userId)) hentry)
        refine (List.Nodup.of_map _ hnodup).map_on fun e he e' he' huser => ?_
        exact List.inj_on_of_nodup_map hd.distinct.users (hmem e he).1 (hmem e' he').1 huser

end Ahjoor.Members
