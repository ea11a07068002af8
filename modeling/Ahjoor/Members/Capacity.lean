import Ahjoor.Members.Places
import Ahjoor.Members.Saving

/-!
# Capacity

However the calls on the memberships of a group interleave, the group never has more members than
it may have, and an admission inserts exactly one membership for an entry that it admits. Whoever
inserts holds the lock of the group from the count of the memberships to the commit; what the
others do meanwhile, outside any transaction, removes memberships or changes columns of theirs.
-/

namespace Ahjoor.Members

open Async

/-! ### What is claimed -/

/-- The members are within the capacity and distinct, and every admission since `d₀` has inserted
one membership. -/
structure Capacity (d₀ d : Tables) : Prop where
  within : ∀ g, d.group = some g → (d.members.length : ℤ) ≤ g.maxMembers
  users_nodup : d.users.Nodup
  admitted : AdmittedOnce d₀ d

/-! ### Contracts -/

/-- What the tables satisfy at any time. -/
structure Orderly (d₀ d : Tables) : Prop where
  sound : Sound d
  recorded : Recorded d₀ d

/-- The tables stay orderly, and keys stay with their users. -/
structure Keeps (d₀ d d' : Tables) : Prop where
  orderly : Orderly d₀ d → Orderly d₀ d'
  issued : d.issued <+: d'.issued

theorem Keeps.refl (d₀ d : Tables) : Keeps d₀ d d := ⟨id, List.prefix_rfl⟩

/-- What the others leave to the transaction of `pid`: unless the database has dropped it, it is as
it was, and under the lock of the group memberships are at most removed. -/
def Undisturbed (pid : ℕ) (w w' : World) : Prop :=
  w'.pending pid = none ∨ (w'.pending pid = w.pending pid ∧
    (w.groupHolder = some pid → w'.groupHolder = some pid ∧ Shrinks w.tables w'.tables))

theorem Undisturbed.trans {pid : ℕ} {w₁ w₂ w₃ : World} (h : Undisturbed pid w₁ w₂)
    (h' : Undisturbed pid w₂ w₃) : Undisturbed pid w₁ w₃ := by
  rcases h' with hnone | ⟨hpending', hholder'⟩
  · exact .inl hnone
  rcases h with hnone | ⟨hpending, hholder⟩
  · exact .inl (hpending'.trans hnone)
  refine .inr ⟨hpending'.trans hpending, fun hheld => ?_⟩
  obtain ⟨hheld₂, hshrinks⟩ := hholder hheld
  obtain ⟨hheld₃, hshrinks'⟩ := hholder' hheld₂
  exact ⟨hheld₃, hshrinks.trans hshrinks'⟩

/-- The contract of a call. -/
def memberContract (d₀ : Tables) (pid : ℕ) : Contract Op.Ret World where
  rely w w' := Keeps d₀ w.tables w'.tables ∧ Undisturbed pid w w'
  guarantee w w' := Keeps d₀ w.tables w'.tables ∧ ∀ p, p ≠ pid → Undisturbed p w w'
  expects _ _ _ := True
  asserts _ _ _ := True
  rely_refl _ := ⟨.refl d₀ _, .inr ⟨rfl, fun h => ⟨h, .refl _⟩⟩⟩
  rely_trans h h' := ⟨⟨fun hw => h'.1.orderly (h.1.orderly hw), h.1.issued.trans h'.1.issued⟩,
    h.2.trans h'.2⟩

variable {d₀ : Tables} {pid : ℕ} {w w' : World} {L : Log Op.Ret} {α : Type}

/-- What leaves the tables alone, and the transactions and the lock of the others. -/
theorem guarantee_of_tables (htables : w'.tables = w.tables)
    (hothers : ∀ p, p ≠ pid → w'.pending p = none ∨ (w'.pending p = w.pending p ∧
      (w.groupHolder = some p → w'.groupHolder = some p))) :
    (memberContract d₀ pid).guarantee w w' := by
  refine ⟨htables ▸ .refl d₀ _, fun p hp => ?_⟩
  rcases hothers p hp with hnone | ⟨hpending, hholder⟩
  · exact .inl hnone
  · exact .inr ⟨hpending, fun h => ⟨hholder h, htables ▸ .refl _⟩⟩

theorem guarantee_refl (w : World) : (memberContract d₀ pid).guarantee w w :=
  guarantee_of_tables rfl fun _ _ => .inr ⟨rfl, id⟩

theorem guarantee_hold (w : World) (xs : List Write) :
    (memberContract d₀ pid).guarantee w (w.hold pid xs) :=
  guarantee_of_tables rfl fun _ hp => .inr ⟨Function.update_of_ne hp _ _, id⟩

theorem guarantee_release (w : World) (p : ℕ) :
    (memberContract d₀ pid).guarantee w (w.release p) :=
  guarantee_of_tables rfl fun q _ => kept_release w p q

/-- A statement outside any transaction that others of a locked group can bear. -/
theorem guarantee_shrink {x : Write} (hx : x.sparesWaitlist = true)
    (hshrinks : Orderly d₀ w.tables → Shrinks w.tables (w.tables.write .ignores x))
    (hw : Orderly d₀ w.tables) :
    (memberContract d₀ pid).guarantee w { w with tables := w.tables.commit .ignores [x] } ∧
      Orderly d₀ (w.tables.commit .ignores [x]) := by
  have hcommit : Shrinks w.tables (w.tables.commit .ignores [x]) :=
    ⟨(hshrinks hw).group, (hshrinks hw).waitlist, (hshrinks hw).issued, (hshrinks hw).holders⟩
  have horderly : Orderly d₀ (w.tables.commit .ignores [x]) :=
    ⟨hcommit.sound hw.sound, hw.recorded.spared fun y hy => List.mem_singleton.mp hy ▸ hx⟩
  have hissued : w.tables.issued <+: (w.tables.commit .ignores [x]).issued := by
    rw [hcommit.issued]
  exact ⟨⟨⟨fun _ => horderly, hissued⟩, fun p _ => .inr ⟨rfl, fun h => ⟨h, hcommit⟩⟩⟩, horderly⟩

theorem guarantee_execute {x : Write} (hx : x.sparesWaitlist = true)
    (hshrinks : Orderly d₀ w.tables → Shrinks w.tables (w.tables.write .ignores x))
    (hw : Orderly d₀ w.tables) :
    (memberContract d₀ pid).guarantee w (w.execute .ignores (.write x)) ∧
      Orderly d₀ (w.execute .ignores (.write x)).tables := by
  cases hconflict : w.tables.conflict .ignores x with
  | some constraint =>
    rw [execute_refused hconflict]
    exact ⟨guarantee_refl w, hw⟩
  | none =>
    rw [execute_write hconflict]
    exact guarantee_shrink hx hshrinks hw

/-! ### Outside transactions -/

theorem harmless_step {o : Op} {choice : Choice} {r : o.Ret} (ho : o.harmless = true)
    (hw : Orderly d₀ w.tables) (hexec : exec .ignores o pid choice w = some (r, w')) :
    (memberContract d₀ pid).guarantee w w' ∧ Orderly d₀ w'.tables := by
  have hexternal : o.isExternal = true → (memberContract d₀ pid).guarantee w w' ∧
      Orderly d₀ w'.tables := by
    intro h
    obtain rfl := exec_external h hexec
    exact ⟨guarantee_refl w', hw⟩
  cases o with
  | db q =>
    rcases exec_db hexec with ⟨rfl, -⟩ | ⟨-, rfl, -⟩
    · exact ⟨guarantee_refl w', hw⟩
    cases q with
    | write x =>
      cases x with
      | removeMember member =>
        exact guarantee_execute rfl (fun _ => .removeMember .ignores _ member) hw
      | _ => cases ho
    | _ => exact ⟨guarantee_refl w, hw⟩
  | notify n => exact hexternal rfl
  | deployRoscaContract group => exact hexternal rfl
  | dispatchEvent event => exact hexternal rfl
  | _ => cases ho

/-- What is required of an end of a call. -/
abbrev EndsOrderly (d₀ : Tables) {α : Type} : α → Unit → Log Op.Ret → World → Prop :=
  EndsIn fun w => Orderly d₀ w.tables

/-- The contract grants loads and saves: the key of a loaded membership belongs to its user. -/
theorem grants_memberContract (d₀ : Tables) (pid : ℕ) :
    Grants .ignores pid (memberContract d₀ pid) (fun w => Orderly d₀ w.tables)
      fun id userId w => w.tables.issued[id]? = some userId where
  rely hw h := h.1.orderly hw
  loaded_rely hloaded h := getElem?_of_prefixed h.1.issued hloaded
  loaded_guarantee hloaded h := getElem?_of_prefixed h.1.issued hloaded
  load hw hm := hw.sound.owned _ hm
  harmless ho hw := ⟨trivial, fun _ _ _ _ hexec => harmless_step ho hw hexec⟩
  save hw hloaded := by
    refine ⟨trivial, fun _ choice r w' hexec => ?_⟩
    rcases exec_db hexec with ⟨rfl, -⟩ | ⟨-, rfl, -⟩
    · exact ⟨guarantee_refl w', hw⟩
    · exact guarantee_execute rfl (fun h => .saveMember h.sound hloaded) hw

/-! ### Transactions -/

/-- The transaction of `pid` has written nothing yet. -/
structure Opened (d₀ : Tables) (pid : ℕ) (w : World) : Prop where
  orderly : Orderly d₀ w.tables
  nothing : ∀ xs, w.pending pid = some xs → xs = []

/-- In the group there is room for `k` more members after the writes, and the entries wait. -/
structure Room (g : GroupRow) (k : ℤ) (entries : List WaitlistEntry) (xs : List Write)
    (d : Tables) : Prop where
  group : d.group = some g
  sound : Sound (d.view .ignores xs)
  room : ((d.view .ignores xs).members.length : ℤ) + k ≤ g.maxMembers
  waiting : ∀ e ∈ entries, e ∈ d.waiting
  takesIn : ∀ x ∈ xs, x.takesIn = true

theorem Room.shrinks {g : GroupRow} {k : ℤ} {entries : List WaitlistEntry} {xs : List Write}
    {d d' : Tables} (h : Room g k entries xs d) (hd : Shrinks d d') : Room g k entries xs d' where
  group := hd.group.trans h.group
  sound := (hd.view h.takesIn).sound h.sound
  room := by
    have hview : Shrinks (d.view .ignores xs) (d'.view .ignores xs) := hd.view h.takesIn
    have hle := hview.length_le
    have hroom := h.room
    omega
  waiting e he := by
    rw [waiting_of_waitlist hd.waitlist]
    exact h.waiting e he
  takesIn := h.takesIn

/-- The transaction of `pid`, unless the database has dropped it, holds the lock of the group and
the writes back. -/
structure Locked (d₀ : Tables) (pid : ℕ) (g : GroupRow) (k : ℤ) (entries : List WaitlistEntry)
    (xs : List Write) (w : World) : Prop where
  orderly : Orderly d₀ w.tables
  held : ∀ ys, w.pending pid = some ys →
    ys = xs ∧ w.groupHolder = some pid ∧ Room g k entries xs w.tables

section Transactions

variable {g : GroupRow} {k : ℤ} {entries : List WaitlistEntry} {xs : List Write}

theorem Opened.stable (hw : Opened d₀ pid w) (h : (memberContract d₀ pid).rely w w') :
    Opened d₀ pid w' := by
  refine ⟨h.1.orderly hw.orderly, fun ys hys => ?_⟩
  rcases h.2 with hnone | ⟨hpending, -⟩
  · rw [hnone] at hys
    cases hys
  · exact hw.nothing ys (hpending ▸ hys)

theorem Locked.stable (hw : Locked d₀ pid g k entries xs w)
    (h : (memberContract d₀ pid).rely w w') : Locked d₀ pid g k entries xs w' := by
  refine ⟨h.1.orderly hw.orderly, fun ys hys => ?_⟩
  rcases h.2 with hnone | ⟨hpending, hholder⟩
  · rw [hnone] at hys
    cases hys
  · obtain ⟨hxs, hheld, hroom⟩ := hw.held ys (hpending ▸ hys)
    obtain ⟨hheld', hshrinks⟩ := hholder hheld
    exact ⟨hxs, hheld', hroom.shrinks hshrinks⟩

/-- The transaction of `pid` may be committed: it has written nothing, or under the lock of the
group a new member or an admission. -/
structure Ready (d₀ : Tables) (pid : ℕ) (w : World) : Prop where
  orderly : Orderly d₀ w.tables
  writes : ∀ xs, w.pending pid = some xs → xs = [] ∨
    (w.groupHolder = some pid ∧ Sound (w.tables.view .ignores xs) ∧
      ((∃ m, xs = [.insertMember m]) ∨ ∃ entries n, (entries.map (·.id)).Nodup ∧
        (∀ e ∈ entries, e ∈ w.tables.waiting) ∧ xs = admissionWrites entries n))

theorem Ready.stable (hw : Ready d₀ pid w) (h : (memberContract d₀ pid).rely w w') :
    Ready d₀ pid w' := by
  refine ⟨h.1.orderly hw.orderly, fun ys hys => ?_⟩
  rcases h.2 with hnone | ⟨hpending, hholder⟩
  · rw [hnone] at hys
    cases hys
  rcases hw.writes ys (hpending ▸ hys) with hnil | ⟨hheld, hsound, hcases⟩
  · exact .inl hnil
  obtain ⟨hheld', hshrinks⟩ := hholder hheld
  refine .inr ⟨hheld', ?_, ?_⟩
  · refine (hshrinks.view ?_).sound hsound
    rcases hcases with ⟨m, rfl⟩ | ⟨entries, n, -, -, rfl⟩
    · exact fun x hx => List.mem_singleton.mp hx ▸ rfl
    · exact takesIn_admissionWrites entries n
  · rw [waiting_of_waitlist hshrinks.waitlist]
    exact hcases

theorem Opened.ready (hw : Opened d₀ pid w) : Ready d₀ pid w :=
  ⟨hw.orderly, fun xs hxs => .inl (hw.nothing xs hxs)⟩

theorem Locked.ready_nil (hw : Locked d₀ pid g k entries [] w) : Ready d₀ pid w :=
  ⟨hw.orderly, fun ys hys => .inl (hw.held ys hys).1⟩

theorem Locked.ready_member {member : Member}
    (hw : Locked d₀ pid g k entries [.insertMember member] w) : Ready d₀ pid w := by
  refine ⟨hw.orderly, fun ys hys => .inr ?_⟩
  obtain ⟨rfl, hheld, hroom⟩ := hw.held ys hys
  exact ⟨hheld, hroom.sound, .inl ⟨member, rfl⟩⟩

theorem Locked.ready_admission {n : ℤ} (hnodup : (entries.map (·.id)).Nodup)
    (hw : Locked d₀ pid g k entries (admissionWrites entries n) w) : Ready d₀ pid w := by
  refine ⟨hw.orderly, fun ys hys => .inr ?_⟩
  obtain ⟨rfl, hheld, hroom⟩ := hw.held ys hys
  exact ⟨hheld, hroom.sound, .inr ⟨entries, n, hnodup, hroom.waiting, rfl⟩⟩

/-- **A commit keeps the tables orderly.** -/
theorem Ready.orderly_commit (hw : Ready d₀ pid w) (hxs : w.pending pid = some xs) :
    Orderly d₀ (w.tables.commit .ignores xs) := by
  have hsound : ∀ {ys}, Sound (w.tables.view .ignores ys) → Sound (w.tables.commit .ignores ys) :=
    fun h => ⟨h.within, h.users_nodup, h.owned⟩
  rcases hw.writes xs hxs with rfl | ⟨-, hview, hcases⟩
  · exact ⟨hsound hw.orderly.sound,
      hw.orderly.recorded.spared fun x hx => absurd hx List.not_mem_nil⟩
  · refine ⟨hsound hview, ?_⟩
    rcases hcases with ⟨m, rfl⟩ | ⟨entries, n, hnodup, hwaiting, rfl⟩
    · exact hw.orderly.recorded.spared fun x hx => List.mem_singleton.mp hx ▸ rfl
    · exact hw.orderly.recorded.admission hnodup hwaiting n

theorem Ready.guarantee_commit (hw : Ready d₀ pid w) (hxs : w.pending pid = some xs) :
    (memberContract d₀ pid).guarantee w (w.commit .ignores pid xs) := by
  refine ⟨⟨fun _ => hw.orderly_commit hxs, issued_view .ignores _ _⟩, fun p hp => .inr ⟨?_, fun hheld => ?_⟩⟩
  · exact Function.update_of_ne hp _ _
  · have hother : w.groupHolder ≠ some pid := fun h => hp (Option.some.inj (hheld.symm.trans h))
    refine ⟨(if_neg hother).trans hheld, ?_⟩
    rcases hw.writes xs hxs with rfl | ⟨hlock, -⟩
    · exact ⟨rfl, rfl, rfl, .refl _⟩
    · exact absurd hlock hother

/-- The lock of the group. -/
theorem meets_lockGroup_places {Q : Option GroupRow → Unit → Log Op.Ret → World → Prop}
    (hw : Opened d₀ pid w) (hnone : ∀ L w, Opened d₀ pid w → Q none () L w)
    (hsome : ∀ g L w, Locked d₀ pid g 0 [] [] w → Q (some g) () L w) :
    Meets (exec .ignores) pid (memberContract d₀ pid) lockGroup Q (EndsOrderly d₀) () L w := by
  refine Meets.call fun w₁ hrely => ⟨trivial, fun _ choice r w' hexec => ?_⟩
  have hw₁ := hw.stable hrely
  rcases exec_lockGroup hexec with ⟨rfl, e, rfl⟩ | ⟨ys, hys, hheld, rfl, rfl⟩
  · exact ⟨guarantee_refl w', fun w₂ hrely₂ => hrely₂.1.orderly hw₁.orderly⟩
  obtain rfl := hw₁.nothing ys hys
  refine ⟨guarantee_of_tables rfl fun p hp => .inr ⟨rfl, fun hholder => ?_⟩, fun w₂ hrely₂ => ?_⟩
  · rw [World.groupHeld, hholder] at hheld
    exact absurd hheld (by simpa using hp)
  · cases hgroup : w₁.tables.group with
    | none =>
      have hopened : Opened d₀ pid (w₁.lockGroup pid) := ⟨hw₁.orderly, hw₁.nothing⟩
      exact hnone _ w₂ (hopened.stable hrely₂)
    | some g =>
      have hlocked : Locked d₀ pid g 0 [] [] (w₁.lockGroup pid) := by
        refine ⟨hw₁.orderly, fun zs hzs => ⟨hw₁.nothing zs hzs, ?_, ?_⟩⟩
        · change (if w₁.tables.group.isSome then some pid else w₁.groupHolder) = _
          rw [hgroup]
          rfl
        · refine ⟨hgroup, hw₁.orderly.sound, ?_, fun e he => absurd he List.not_mem_nil,
            fun x hx => absurd hx List.not_mem_nil⟩
          rw [add_zero]
          exact hw₁.orderly.sound.within g hgroup
      exact hsome g _ w₂ (hlocked.stable hrely₂)

/-- A query inside the transaction. -/
theorem meets_tx_places {q : Query} {Q : q.Ret → Unit → Log Op.Ret → World → Prop}
    (hw : Locked d₀ pid g k entries xs w)
    (room : q.Ret → ℤ) (written : List Write)
    (hroom : ∀ a d, Room g k entries xs d → q.read .ignores (d.view .ignores xs) = .ok a →
      (q.writes .ignores (d.view .ignores xs)).toList = written ∧
        Room g (room a) entries (xs ++ written) d)
    (hok : ∀ a L w, Locked d₀ pid g (room a) entries (xs ++ written) w → Q a () L w) :
    Meets (exec .ignores) pid (memberContract d₀ pid) (tx q) Q (EndsOrderly d₀) () L w := by
  refine Meets.call fun w₁ hrely => ⟨trivial, fun _ choice r w' hexec => ?_⟩
  have hw₁ := hw.stable hrely
  rcases exec_tx hexec with ⟨rfl, e, rfl⟩ | ⟨ys, hys, hr, rfl⟩
  · exact ⟨guarantee_refl w', fun w₂ hrely₂ => hrely₂.1.orderly hw₁.orderly⟩
  obtain ⟨rfl, hlock, hbefore⟩ := hw₁.held ys hys
  refine ⟨guarantee_hold _ _, fun w₂ hrely₂ => ?_⟩
  cases r with
  | error e => exact hrely₂.1.orderly hw₁.orderly
  | ok a =>
    obtain ⟨hwritten, hafter⟩ := hroom a w₁.tables hbefore hr.symm
    have hlocked : Locked d₀ pid g (room a) entries (ys ++ written) (w₁.hold pid (ys ++
        (q.writes .ignores (w₁.tables.view .ignores ys)).toList)) := by
      refine ⟨hw₁.orderly, fun zs hzs => ?_⟩
      rw [pending_hold, Option.some_inj, hwritten] at hzs
      exact ⟨hzs.symm, hlock, hafter⟩
    exact hok a _ w₂ (hlocked.stable hrely₂)

/-- Reading inside the transaction. -/
theorem meets_tx_count {q : Query} (hq : q.isRead = true)
    {Q : q.Ret → Unit → Log Op.Ret → World → Prop} (hw : Locked d₀ pid g k entries xs w)
    (room : q.Ret → ℤ)
    (hroom : ∀ a d, Room g k entries xs d → q.read .ignores (d.view .ignores xs) = .ok a →
      ((d.view .ignores xs).members.length : ℤ) + room a ≤ g.maxMembers)
    (hok : ∀ a L w, Locked d₀ pid g (room a) entries xs w → Q a () L w) :
    Meets (exec .ignores) pid (memberContract d₀ pid) (tx q) Q (EndsOrderly d₀) () L w := by
  refine meets_tx_places hw room [] (fun a d hd ha => ?_) fun a L w hw => ?_
  · rw [writes_of_isRead hq, List.append_nil]
    exact ⟨rfl, hd.group, hd.sound, hroom a d hd ha, hd.waiting, hd.takesIn⟩
  · rw [List.append_nil] at hw
    exact hok a L w hw

/-- A member takes one of the places. -/
theorem meets_tx_insert {member : Member} {Q : Unit → Unit → Log Op.Ret → World → Prop}
    (hw : Locked d₀ pid g (k + 1) entries xs w) (hk : 0 ≤ k)
    (hok : ∀ L w, Locked d₀ pid g k entries (xs ++ [.insertMember member]) w → Q () () L w) :
    Meets (exec .ignores) pid (memberContract d₀ pid) (tx (.write (.insertMember member))) Q
      (EndsOrderly d₀) () L w := by
  refine meets_tx_places hw (fun _ => k) [.insertMember member] (fun a d hd ha => ?_)
    fun _ L w hw => hok L w hw
  have hwritten := writes_of_read_ok ha
  have huser : member.userId ∉ (d.view .ignores xs).users := by
    intro hmem
    rw [Query.writes] at hwritten
    simp [Tables.conflict, hmem] at hwritten
  have hroom := hd.room
  refine ⟨congrArg Option.toList hwritten, hd.group, ?_, ?_, hd.waiting, fun x hx => ?_⟩
  · rw [view_concat]
    refine hd.sound.insertMember huser fun g' hg' => ?_
    rw [group_view hd.takesIn, hd.group] at hg'
    obtain rfl := Option.some.inj hg'
    omega
  · rw [view_concat]
    change (((d.view .ignores xs).members ++ [_]).length : ℤ) + k ≤ _
    rw [List.length_append, List.length_singleton]
    push_cast
    omega
  · rcases List.mem_append.mp hx with hx | hx
    · exact hd.takesIn x hx
    · exact List.mem_singleton.mp hx ▸ rfl

/-- An entry changes its status. -/
theorem meets_tx_saveEntry {entry : WaitlistEntry} {Q : Unit → Unit → Log Op.Ret → World → Prop}
    (hw : Locked d₀ pid g k entries xs w)
    (hok : ∀ L w, Locked d₀ pid g k entries (xs ++ [.saveEntry entry]) w → Q () () L w) :
    Meets (exec .ignores) pid (memberContract d₀ pid) (tx (.write (.saveEntry entry))) Q
      (EndsOrderly d₀) () L w := by
  refine meets_tx_places hw (fun _ => k) [.saveEntry entry] (fun a d hd ha => ?_)
    fun _ L w hw => hok L w hw
  refine ⟨congrArg Option.toList (writes_of_read_ok ha), hd.group, ?_, ?_, hd.waiting, fun x hx => ?_⟩
  · rw [view_concat]
    exact ⟨hd.sound.within, hd.sound.users_nodup, hd.sound.owned⟩
  · rw [view_concat]
    exact hd.room
  · rcases List.mem_append.mp hx with hx | hx
    · exact hd.takesIn x hx
    · exact List.mem_singleton.mp hx ▸ rfl

/-- The lock of entries that wait, at most as many as there are places. -/
theorem meets_lockWaiting_places {limit : ℕ}
    {Q : List WaitlistEntry → Unit → Log Op.Ret → World → Prop} (hw : Locked d₀ pid g k [] [] w)
    (hlimit : (limit : ℤ) ≤ k)
    (hok : ∀ entries L w, (entries.map (·.id)).Nodup →
      Locked d₀ pid g entries.length entries [] w → Q entries () L w) :
    Meets (exec .ignores) pid (memberContract d₀ pid)
      (Routine.call (.lockWaiting limit) fun r => r : Service (List WaitlistEntry)) Q
      (EndsOrderly d₀) () L w := by
  refine Meets.call fun w₁ hrely => ⟨trivial, fun _ choice r w' hexec => ?_⟩
  have hw₁ := hw.stable hrely
  rcases exec_lockWaiting hexec with ⟨rfl, e, rfl⟩ | ⟨ys, hys, -, rfl, rfl⟩
  · exact ⟨guarantee_refl w', fun w₂ hrely₂ => hrely₂.1.orderly hw₁.orderly⟩
  obtain ⟨rfl, hlock, hroom⟩ := hw₁.held ys hys
  refine ⟨guarantee_of_tables rfl fun p _ => .inr ⟨rfl, id⟩, fun w₂ hrely₂ => ?_⟩
  have hperm := List.perm_insertionSort (fun a b : WaitlistEntry => a.position ≤ b.position)
    w₁.tables.waiting
  have hids : (w₁.tables.waiting.map (·.id)).Nodup :=
    hw₁.orderly.recorded.distinct.ids.sublist (List.filter_sublist.map _)
  have hlength : (w₁.tables.nextWaiting limit).length ≤ limit := List.length_take_le ..
  have hlocked : Locked d₀ pid g (w₁.tables.nextWaiting limit).length
      (w₁.tables.nextWaiting limit) [] (w₁.lockEntries pid (w₁.tables.nextWaiting limit)) := by
    refine ⟨hw₁.orderly, fun zs hzs => ⟨(hw₁.held zs hzs).1, hlock, hroom.group, hroom.sound, ?_,
      fun e he => ?_, hroom.takesIn⟩⟩
    · have hle := hroom.room
      change ((w₁.tables.view .ignores []).members.length : ℤ) + _ ≤ _
      omega
    · exact hperm.mem_iff.mp (List.mem_of_mem_take he)
  refine hok (w₁.tables.nextWaiting limit) _ w₂ ?_ (hlocked.stable hrely₂)
  exact ((hperm.map _).nodup_iff.mpr hids).sublist ((List.take_sublist limit _).map _)

/-- A transaction whose body ends ready for the commit. -/
theorem meets_transaction {body : Service α} (hw : Orderly d₀ w.tables)
    (hbody : ∀ L w, Opened d₀ pid w → Meets (exec .ignores) pid (memberContract d₀ pid) body
      (fun _ _ _ w => Ready d₀ pid w) (EndsOrderly d₀) () L w) :
    Meets (exec .ignores) pid (memberContract d₀ pid) (transaction body) (EndsOrderly d₀)
      (EndsOrderly d₀) () L w := by
  have hrollback : ∀ {e : Exc} {L : Log Op.Ret} {w : World}, Orderly d₀ w.tables →
      Meets (exec .ignores) pid (memberContract d₀ pid) (do
        Routine.call .rollbackTransaction fun _ => .ok ()
        throw e : Service α) (EndsOrderly d₀) (EndsOrderly d₀) () L w := by
    intro e L w hw
    refine Meets.bind (Meets.call fun w₁ hrely => ⟨trivial, fun _ choice r w' hexec => ?_⟩)
    have hw₁ := hrely.1.orderly hw
    rcases exec_rollbackTransaction hexec with rfl | rfl
    · exact ⟨guarantee_refl w', fun w₂ hrely₂ => Meets.throw fun w₃ hrely₃ =>
        hrely₃.1.orderly (hrely₂.1.orderly hw₁)⟩
    · exact ⟨guarantee_release _ _, fun w₂ hrely₂ => Meets.throw fun w₃ hrely₃ =>
        hrely₃.1.orderly (hrely₂.1.orderly hw₁)⟩
  refine Meets.bind (Meets.call fun w₁ hrely => ⟨trivial, fun _ choice r w' hexec => ?_⟩)
  have hw₁ := hrely.1.orderly hw
  rcases exec_startTransaction hexec with ⟨rfl, e, rfl⟩ | ⟨rfl, rfl⟩
  · exact ⟨guarantee_refl w', fun w₂ hrely₂ => hrely₂.1.orderly hw₁⟩
  refine ⟨guarantee_hold _ _, fun w₂ hrely₂ => ?_⟩
  have hopened : Opened d₀ pid (w₁.hold pid []) := by
    refine ⟨hw₁, fun ys hys => ?_⟩
    rw [pending_hold] at hys
    exact (Option.some.inj hys).symm
  refine Meets.tryCatch (Meets.bind ((hbody _ w₂ (hopened.stable hrely₂)).mono
    (fun result _ L w hready => ?_) fun _ _ _ _ h => hrollback h))
  refine Meets.bind (Meets.call fun w₃ hrely₃ => ⟨trivial, fun _ choice r w' hexec => ?_⟩)
  have hready₃ : Ready d₀ pid w₃ := hready.stable hrely₃
  rcases exec_commitTransaction hexec with ⟨rfl, e, rfl⟩ | ⟨ys, hys, rfl, hr⟩
  · exact ⟨guarantee_release _ _, fun w₄ hrely₄ => hrollback (hrely₄.1.orderly hready₃.orderly)⟩
  · refine ⟨hready₃.guarantee_commit hys, fun w₄ hrely₄ => ?_⟩
    have hw₄ := hrely₄.1.orderly (hready₃.orderly_commit hys)
    rcases hr with rfl | ⟨e, rfl⟩
    · exact Meets.pure fun w₅ hrely₅ => hrely₅.1.orderly hw₄
    · exact hrollback hw₄

end Transactions

/-! ### The calls -/

section Calls

/-- **An addition** counts and inserts under the lock of the group. -/
theorem meets_insertMember {userId : Uuid} {walletAddress : String} (hw : Opened d₀ pid w) :
    Meets (exec .ignores) pid (memberContract d₀ pid) (insertMember userId walletAddress)
      (fun _ _ _ w => Ready d₀ pid w) (EndsOrderly d₀) () L w := by
  refine Meets.bind (meets_lockGroup_places hw (fun L w hw => ?_) fun g L w hw => ?_)
  · exact Meets.bind (Meets.throw fun w' h => h.1.orderly hw.orderly)
  refine Meets.bind (Meets.pure fun w₁ h₁ => ?_)
  replace hw := hw.stable h₁
  refine Meets.bind (Meets.throwWhen (fun _ w' h => h.1.orderly hw.orderly) fun _ w₂ h₂ => ?_)
  replace hw := hw.stable h₂
  refine Meets.bind (meets_tx_count (q := .countMembers) rfl hw (fun n : ℕ => g.maxMembers - n)
    (fun n d hd hn => ?_) fun (n : ℕ) L w hw => ?_)
  · obtain rfl : (d.view .ignores []).members.length = n := Except.ok.inj hn
    omega
  refine Meets.bind (Meets.throwWhen (fun _ w' h => h.1.orderly hw.orderly) fun hfree w₃ h₃ => ?_)
  replace hw := hw.stable h₃
  have hlt : (n : ℤ) < g.maxMembers := not_le.mp (of_decide_eq_false hfree)
  refine Meets.bind (meets_tx_count rfl hw (fun _ => 1) (fun _ d hd _ => ?_)
    fun existing L w hw => ?_)
  · have hroom := hd.room
    omega
  refine Meets.bind (Meets.throwWhen (fun _ w' h => h.1.orderly hw.orderly) fun _ w₄ h₄ => ?_)
  replace hw := hw.stable h₄
  have hinsert : ∀ {payoutOrder : Option ℤ} {L : Log Op.Ret} {w : World},
      Locked d₀ pid g 1 [] [] w → Meets (exec .ignores) pid (memberContract d₀ pid)
        (tx (.write (.insertMember { id := 0, userId, walletAddress, payoutOrder })))
        (fun _ _ _ w => Ready d₀ pid w) (EndsOrderly d₀) () L w :=
    fun hw => meets_tx_insert (k := 0) hw le_rfl fun L w hw => hw.ready_member
  cases hstrategy : g.payoutOrderStrategy with
  | sequential =>
    refine Meets.bind (Meets.bind (meets_tx_count rfl hw (fun _ => 1) (fun _ d hd _ => hd.room)
      fun maxOrder L w hw => Meets.pure fun w₅ h₅ => hinsert (hw.stable h₅)))
  | random => exact Meets.bind (Meets.pure fun w₅ h₅ => hinsert (hw.stable h₅))
  | adminDefined => exact Meets.bind (Meets.pure fun w₅ h₅ => hinsert (hw.stable h₅))

theorem admissionWrites_concat (done : List WaitlistEntry) (entry : WaitlistEntry) (n : ℤ) :
    admissionWrites (done ++ [entry]) n = admissionWrites done n ++
      [.insertMember (admittedMember entry (n + done.length)),
        .saveEntry { entry with status := .admitted }] := by
  induction done generalizing n with
  | nil => simp [admissionWrites]
  | cons e done ih =>
    simp only [List.cons_append, admissionWrites, ih, List.length_cons]
    push_cast
    rw [show n + 1 + (done.length : ℤ) = n + (done.length + 1) by ring]

/-- The loop over the entries: those that are left have their places. -/
theorem meets_admitEntries_places {g : GroupRow} {n : ℤ} {done left : List WaitlistEntry}
    (hw : Locked d₀ pid g left.length (done ++ left) (admissionWrites done n) w) :
    Meets (exec .ignores) pid (memberContract d₀ pid) (admitEntries left (n + done.length))
      (fun _ _ _ w => Locked d₀ pid g 0 (done ++ left) (admissionWrites (done ++ left) n) w)
      (EndsOrderly d₀) () L w := by
  induction left generalizing done L w with
  | nil =>
    rw [List.append_nil] at hw ⊢
    exact Meets.pure fun w' h => hw.stable h
  | cons entry left ih =>
    rw [List.length_cons, Nat.cast_succ] at hw
    refine Meets.bind (meets_tx_insert hw (Int.natCast_nonneg _) fun L w hw => ?_)
    refine Meets.bind (meets_tx_saveEntry hw fun L w hw => ?_)
    rw [List.append_assoc, List.singleton_append, ← admissionWrites_concat,
      List.append_cons done entry left] at hw
    have hrest := ih (L := L) hw
    rw [List.length_append, List.length_singleton, Nat.cast_add, Nat.cast_one, ← add_assoc] at hrest
    rw [List.append_cons done entry left]
    exact Meets.bind (hrest.mono (fun _ _ L w hw => Meets.pure fun w' h => hw.stable h)
      fun _ _ _ _ h => h)

/-- **An admission** counts and inserts under the lock of the group. -/
theorem meets_admitFromWaitlistInTransaction_places {maxToAdmit : Option ℤ}
    (hw : Opened d₀ pid w) :
    Meets (exec .ignores) pid (memberContract d₀ pid) (admitFromWaitlistInTransaction maxToAdmit)
      (fun _ _ _ w => Ready d₀ pid w) (EndsOrderly d₀) () L w := by
  refine Meets.bind (meets_lockGroup_places hw (fun L w hw => ?_) fun g L w hw => ?_)
  · exact Meets.pure fun w' h => (hw.stable h).ready
  refine Meets.bind (meets_tx_count (q := .countMembers) rfl hw (fun n : ℕ => g.maxMembers - n)
    (fun n d hd hn => ?_) fun (n : ℕ) L w hw => ?_)
  · obtain rfl : (d.view .ignores []).members.length = n := Except.ok.inj hn
    omega
  dsimp only
  split
  · exact Meets.pure fun w' h => (hw.stable h).ready_nil
  split
  · exact Meets.pure fun w' h => (hw.stable h).ready_nil
  next hfree hsome =>
  have hlimit : ((admissionLimit (g.maxMembers - n) maxToAdmit).toNat : ℤ) ≤ g.maxMembers - n := by
    cases maxToAdmit with
    | none => simp only [admissionLimit]; omega
    | some maxToAdmit => simp only [admissionLimit]; omega
  refine Meets.bind (meets_lockWaiting_places hw hlimit fun entries L w hnodup hw => ?_)
  split
  · exact Meets.pure fun w' h => (hw.stable h).ready_nil
  refine Meets.bind (meets_tx_count rfl hw (fun _ => (entries.length : ℤ)) (fun _ d hd _ => hd.room)
    fun maxOrder L w hw => ?_)
  have hstart : Locked d₀ pid g entries.length ([] ++ entries)
      (admissionWrites [] (nextPayoutOrder maxOrder)) w := hw
  have hloop := meets_admitEntries_places (L := L) hstart
  rw [List.length_nil, Nat.cast_zero, add_zero, List.nil_append] at hloop
  exact hloop.mono (fun _ _ L w hw => hw.ready_admission hnodup) fun _ _ _ _ h => h

end Calls

/-! ### Runs -/

variable {maxWaitlist : ℤ}

/-- **Every call on the memberships keeps its contract.** -/
theorem meets_memberContract {c : Call} (hc : c.onMembers = true) (hw : Orderly d₀ w.tables) :
    Meets (exec .ignores) pid (memberContract d₀ pid) (c.body maxWaitlist) (EndsOrderly d₀)
      (EndsOrderly d₀) () L w := by
  refine (grants_memberContract d₀ pid).meets_onMembers (fun userId walletAddress L w hw => ?_)
    (fun maxToAdmit L w hw => ?_) (fun p L w hw => ?_) hc hw
  · exact meets_transaction hw fun L w hw => meets_insertMember hw
  · exact meets_transaction hw fun L w hw => meets_admitFromWaitlistInTransaction_places hw
  · refine Meets.call fun w₁ hrely => ⟨trivial, fun _ choice r w' hexec => ?_⟩
    obtain rfl := exec_dropSession hexec
    exact ⟨guarantee_release w₁ p, fun w₂ hrely₂ => hrely₂.1.orderly (hrely.1.orderly hw)⟩

variable (d₀ maxWaitlist) in
/-- **Calls on the memberships are verified**, however they overlap. -/
theorem verified_onMembers :
    Verified (system .ignores maxWaitlist) CallsOnMembers (fun pid _ => memberContract d₀ pid)
      (fun _ _ _ _ _ => True) (fun w => Orderly d₀ w.tables) fun _ _ => True where
  body h pid c hinv hok := by
    refine (meets_memberContract hok hinv).safe.bind fun x L w _ => ?_
    exact fun _ _ => trivial
  keeps pid c w w' hw hguarantee := hguarantee.1.orderly hw
  respects pid c pid' c' w w' hne _ hguarantee := ⟨hguarantee.1, hguarantee.2 pid hne⟩
  expected _ _ _ _ _ _ _ _ := trivial
  admitted _ _ _ _ _ _ _ _ := ⟨trivial, trivial⟩

/-- **The capacity of a group is kept** in every run of additions, admissions, removals,
departures, suspensions and reinstatements, however they interleave. -/
theorem capacity_of_callsOnMembers (maxWaitlist : ℤ) {d : Tables} (hsound : Sound d)
    (hdistinct : Distinct d) (hlog : d.log = []) {s : MembersState}
    (hs : (system .ignores maxWaitlist).ReachableWhen CallsOnMembers (.init (started d)) s) :
    Capacity d s.hist.world.tables := by
  have hrecorded : Recorded d d := by
    refine ⟨hdistinct, fun e _ xs hxs => ?_, fun e he _ => .inl he⟩
    rw [hlog] at hxs
    exact absurd hxs List.not_mem_nil
  have hstart : Orderly d (started d).tables := ⟨hsound, hrecorded⟩
  obtain ⟨-, hkept⟩ := kept_of_reachable (verified_onMembers d maxWaitlist) hstart hs
  exact ⟨hkept.inv.sound.within, hkept.inv.sound.users_nodup, hkept.inv.recorded.admitted⟩

namespace Sample

/-- A group with one place left, and one user who waits. -/
def onePlace : Tables where
  group := some { id := 0, name := "group", adminWallet := "G0", minMembers := 1, maxMembers := 2 }
  members := [{ id := 0, userId := 0, walletAddress := "G0", payoutOrder := some 0 }]
  waitlist := [{ id := 0, userId := 2, walletAddress := "G2", position := 1 }]
  issued := [0]
  nextEntry := 1

end Sample

/-- An addition takes the place while an admission waits for the lock; when the first member has
been removed, the next admission inserts the user who waits. -/
theorem capacity_sample : ∃ s : MembersState,
    s.hist.world.tables.users = [1, 2] ∧ Capacity Sample.onePlace s.hist.world.tables := by
  obtain ⟨s, hs, husers⟩ := System.exists_of_replay (system .ignores 50) CallsOnMembers
    (.init (started Sample.onePlace))
    (.start (.addMember 1 "G1") :: .start (.admitFromWaitlist none) :: Sample.dones 0 2 ++
      Sample.dones 1 1 ++ Sample.dones 0 5 ++ Sample.dones 1 3 ++ Sample.whole 2 3 (.removeMember 0) ++
      Sample.whole 3 8 (.admitFromWaitlist none))
    (fun s => s.hist.world.tables.users == [1, 2]) (by decide +kernel)
  refine ⟨s, by simpa using husers, capacity_of_callsOnMembers 50 (d := Sample.onePlace)
    ⟨?_, by decide, by decide⟩ ⟨by decide, by decide⟩ rfl hs⟩
  intro g hg
  obtain rfl := Option.some.inj hg
  decide

end Ahjoor.Members
