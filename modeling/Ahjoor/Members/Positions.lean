import Ahjoor.Members.Footprint

/-!
# Positions on the waitlist

What the operations do to the entries that wait. The positions of a fair waitlist count the entries
in the order in which they were inserted, which is the order in which the users joined: a join
goes on counting, and a cancellation followed by the renumbering closes the gap. An admission in
the order of the positions takes those who joined first.
-/

namespace Ahjoor.Members

variable {missing : OnMissing} {d : Tables}

/-! ### Keys -/

/-- The keys of the waitlist are distinct, and have been handed out. -/
structure Keyed (d : Tables) : Prop where
  nodup : (d.waitlist.map (·.id)).Nodup
  lt_nextEntry : ∀ e ∈ d.waitlist, e.id < d.nextEntry

/-- The write changes no entry of the waitlist. -/
def Write.sparesWaitlist : Write → Bool
  | .insertMember _ | .saveMember _ | .removeMember _ | .saveGroup _ => true
  | .insertEntry _ | .saveEntry _ | .closeGap _ => false

variable (missing d) in
theorem waitlist_write {x : Write} (hx : x.sparesWaitlist = true) :
    (d.write missing x).waitlist = d.waitlist ∧ (d.write missing x).nextEntry = d.nextEntry := by
  cases x with
  | insertMember m => exact ⟨rfl, rfl⟩
  | saveMember m => exact ⟨rfl, rfl⟩
  | removeMember m => exact ⟨rfl, rfl⟩
  | saveGroup g => exact ⟨rfl, rfl⟩
  | insertEntry e => cases hx
  | saveEntry e => cases hx
  | closeGap p => cases hx

variable (missing d) in
theorem waitlist_view {xs : List Write} (hxs : ∀ x ∈ xs, x.sparesWaitlist = true) :
    (d.view missing xs).waitlist = d.waitlist ∧ (d.view missing xs).nextEntry = d.nextEntry := by
  induction xs generalizing d with
  | nil => exact ⟨rfl, rfl⟩
  | cons x xs ih =>
    obtain ⟨h, hnext⟩ := ih (d.write missing x) fun y hy => hxs y (List.mem_cons_of_mem _ hy)
    obtain ⟨h', hnext'⟩ := waitlist_write missing d (hxs x List.mem_cons_self)
    exact ⟨h.trans h', hnext.trans hnext'⟩

/-- A key is in the waitlist once. -/
theorem Keyed.eq_of_id (hd : Keyed d) {e e' : WaitlistEntry} (he : e ∈ d.waitlist)
    (he' : e' ∈ d.waitlist) (h : e.id = e'.id) : e = e' :=
  List.inj_on_of_nodup_map hd.nodup he he' h

theorem ids_saveEntry (entry : WaitlistEntry) :
    (d.write missing (.saveEntry entry)).waitlist.map (·.id) = d.waitlist.map (·.id) := by
  change (d.waitlist.map _).map _ = _
  rw [List.map_map]
  refine List.map_congr_left fun e _ => ?_
  simp only [Function.comp_apply]
  split
  next h => exact h.symm
  next => rfl

theorem ids_closeGap (position : ℤ) :
    (d.write missing (.closeGap position)).waitlist.map (·.id) = d.waitlist.map (·.id) := by
  change (d.waitlist.map _).map _ = _
  rw [List.map_map]
  refine List.map_congr_left fun e _ => ?_
  simp only [Function.comp_apply]
  split <;> rfl

/-- Writing keeps the keys distinct. -/
theorem Keyed.write (hd : Keyed d) (x : Write) : Keyed (d.write missing x) := by
  have hsame : ∀ {d' : Tables}, d'.waitlist.map (·.id) = d.waitlist.map (·.id) →
      d'.nextEntry = d.nextEntry → Keyed d' := by
    intro d' hids hnext
    refine ⟨hids ▸ hd.nodup, fun e he => ?_⟩
    obtain ⟨e', he', hid⟩ := List.mem_map.mp (hids ▸ List.mem_map_of_mem he)
    rw [hnext, ← hid]
    exact hd.lt_nextEntry e' he'
  cases x with
  | insertEntry entry =>
    refine ⟨?_, fun e he => ?_⟩
    · change ((d.waitlist ++ [_]).map _).Nodup
      rw [List.map_append, List.map_singleton, List.nodup_append]
      refine ⟨hd.nodup, List.nodup_singleton _, fun i hi j hj hij => ?_⟩
      obtain ⟨e, he, rfl⟩ := List.mem_map.mp hi
      have hlt := hd.lt_nextEntry e he
      rw [hij, List.mem_singleton.mp hj] at hlt
      exact lt_irrefl _ hlt
    · change e.id < d.nextEntry + 1
      rcases List.mem_append.mp he with he | he
      · exact Nat.lt_succ_of_lt (hd.lt_nextEntry e he)
      · rw [List.mem_singleton.mp he]
        exact Nat.lt_succ_self _
  | saveEntry entry => exact hsame (ids_saveEntry entry) rfl
  | closeGap position => exact hsame (ids_closeGap position) rfl
  | insertMember m => exact hsame rfl rfl
  | saveMember m => exact hsame rfl rfl
  | removeMember m => exact hsame rfl rfl
  | saveGroup g => exact hsame rfl rfl

theorem Keyed.view (hd : Keyed d) (xs : List Write) : Keyed (d.view missing xs) := by
  induction xs generalizing d with
  | nil => exact hd
  | cons x xs ih => exact ih (hd.write x)

theorem Keyed.commit (hd : Keyed d) (xs : List Write) : Keyed (d.commit missing xs) :=
  ⟨(hd.view xs).nodup, (hd.view xs).lt_nextEntry⟩

/-! ### Who waits -/

/-- Saving an entry that does not wait takes it out of those that wait. -/
theorem waiting_saveEntry {entry : WaitlistEntry} (h : entry.status ≠ .waiting) :
    (d.write missing (.saveEntry entry)).waiting = d.waiting.filter (·.id ≠ entry.id) := by
  change (d.waitlist.map _).filter _ = (d.waitlist.filter _).filter _
  induction d.waitlist with
  | nil => rfl
  | cons e es ih =>
    by_cases hid : e.id = entry.id
    · by_cases hstatus : e.status = .waiting <;> simp [hid, h, hstatus, ih]
    · by_cases hstatus : e.status = .waiting <;> simp [hid, hstatus, ih]

/-- The renumbering moves those up that wait behind the position. -/
theorem waiting_closeGap (position : ℤ) :
    (d.write missing (.closeGap position)).waiting = d.waiting.map fun e =>
      if position < e.position then { e with position := e.position - 1 } else e := by
  change (d.waitlist.map _).filter _ = (d.waitlist.filter _).map _
  induction d.waitlist with
  | nil => rfl
  | cons e es ih =>
    by_cases hstatus : e.status = .waiting
    · by_cases hlt : position < e.position <;> simp [hstatus, hlt, ih]
    · simp [hstatus, ih]

theorem waiting_insertEntry {entry : WaitlistEntry} (h : entry.status = .waiting) :
    (d.write missing (.insertEntry entry)).waiting =
      d.waiting ++ [{ entry with id := d.nextEntry }] := by
  change (d.waitlist ++ [_]).filter _ = _
  rw [List.filter_append]
  simp [h, Tables.waiting]

theorem waiting_of_waitlist {d' : Tables} (h : d'.waitlist = d.waitlist) : d'.waiting = d.waiting := by
  rw [Tables.waiting, h, Tables.waiting]

/-! ### Fair waitlists -/

/-- The positions of `k` entries in order. -/
def upTo (k : ℕ) : List ℤ := (List.range k).map fun i : ℕ => (i : ℤ) + 1

/-- The positions of those who wait count them in the order in which they joined. -/
def Fair (d : Tables) : Prop := d.waiting.map (·.position) = upTo d.waiting.length

theorem upTo_succ (k : ℕ) : upTo (k + 1) = upTo k ++ [(k : ℤ) + 1] := by
  rw [upTo, List.range_succ, List.map_append, List.map_singleton, upTo]

theorem Fair.of_waiting {d' : Tables} (hd : Fair d) (h : d'.waiting = d.waiting) : Fair d' := by
  rw [Fair, h]
  exact hd

variable (missing) in
/-- Who joins behind the last one keeps the waitlist fair. -/
theorem Fair.join (hd : Fair d) {entry : WaitlistEntry} (hstatus : entry.status = .waiting)
    (hposition : entry.position = d.waiting.length + 1) :
    Fair (d.write missing (.insertEntry entry)) := by
  rw [Fair, waiting_insertEntry hstatus, List.map_append, List.map_singleton, List.length_append,
    List.length_singleton, upTo_succ, hd]
  simp [hposition]

theorem upTo_add (m n : ℕ) :
    upTo (m + n) = upTo m ++ (List.range n).map fun i : ℕ => (m : ℤ) + 1 + i := by
  rw [upTo, List.range_add, List.map_append, List.map_map, upTo]
  refine congrArg _ (List.map_congr_left fun i _ => ?_)
  simp only [Function.comp_apply]
  push_cast
  ring

theorem length_upTo (k : ℕ) : (upTo k).length = k := by
  rw [upTo, List.length_map, List.length_range]

theorem mem_upTo {k : ℕ} {p : ℤ} : p ∈ upTo k ↔ 1 ≤ p ∧ p ≤ k := by
  constructor
  · intro h
    obtain ⟨i, hi, rfl⟩ := List.mem_map.mp h
    have hlt := List.mem_range.mp hi
    omega
  · rintro ⟨hpos, hle⟩
    refine List.mem_map.mpr ⟨(p - 1).toNat, List.mem_range.mpr ?_, ?_⟩ <;> omega

/-- Positions around an entry of a fair waitlist. -/
theorem Fair.split (hd : Fair d) {before after : List WaitlistEntry} {entry : WaitlistEntry}
    (h : d.waiting = before ++ entry :: after) :
    before.map (·.position) = upTo before.length ∧ entry.position = before.length + 1 ∧
      after.map (·.position) =
        (List.range after.length).map fun i : ℕ => (before.length : ℤ) + 2 + i := by
  have hlength : d.waiting.length = before.length + 1 + after.length := by
    rw [h, List.length_append, List.length_cons]
    omega
  have hmap : (before ++ [entry]).map (·.position) ++ after.map (·.position) =
      upTo (before.length + 1) ++
        (List.range after.length).map fun i : ℕ => ((before.length + 1 : ℕ) : ℤ) + 1 + i := by
    rw [← upTo_add, ← hlength, ← hd, h, ← List.map_append, List.append_assoc, List.singleton_append]
  obtain ⟨hfront, hafter⟩ := List.append_inj hmap (by
    rw [List.length_map, length_upTo, List.length_append, List.length_singleton])
  rw [List.map_append, List.map_singleton, upTo_succ] at hfront
  obtain ⟨hbefore, hentry⟩ := List.append_inj hfront (by rw [List.length_map, length_upTo])
  refine ⟨hbefore, (List.cons.inj hentry).1, hafter.trans (List.map_congr_left fun i _ => ?_)⟩
  push_cast
  ring

/-- Those who wait after a cancellation. -/
theorem waiting_cancel (hk : Keyed d) {before after : List WaitlistEntry} {entry : WaitlistEntry}
    (h : d.waiting = before ++ entry :: after) :
    (d.write missing (.saveEntry { entry with status := .cancelled })).waiting = before ++ after := by
  rw [waiting_saveEntry (by simp), h, List.filter_append, List.filter_cons_of_neg (by simp)]
  have hnodup : (d.waiting.map (·.id)).Nodup := hk.nodup.sublist (List.filter_sublist.map _)
  rw [h, List.map_append, List.map_cons, List.nodup_append] at hnodup
  obtain ⟨-, hafter, hdisjoint⟩ := hnodup
  congr 1
  · refine List.filter_eq_self.mpr fun e he => ?_
    simpa using hdisjoint e.id (List.mem_map_of_mem he) entry.id List.mem_cons_self
  · refine List.filter_eq_self.mpr fun e he => ?_
    have hne : e.id ≠ entry.id := fun heq =>
      (List.nodup_cons.mp hafter).1 (heq ▸ List.mem_map_of_mem he)
    simpa using hne

variable (missing) in
/-- **A cancellation with the renumbering keeps the waitlist fair.** -/
theorem Fair.leave (hd : Fair d) (hk : Keyed d) {entry : WaitlistEntry} (h : entry ∈ d.waiting) :
    Fair ((d.write missing (.saveEntry { entry with status := .cancelled })).write missing
      (.closeGap entry.position)) := by
  obtain ⟨before, after, hsplit⟩ := List.append_of_mem h
  obtain ⟨hbefore, hposition, hafter⟩ := hd.split hsplit
  have hfront : (before.map fun e =>
      if entry.position < e.position then { e with position := e.position - 1 } else e) = before := by
    refine (List.map_congr_left fun e he => if_neg ?_).trans (List.map_id _)
    have hle := (mem_upTo.mp (hbefore ▸ List.mem_map_of_mem he)).2
    omega
  have hback : ((after.map fun e =>
      if entry.position < e.position then { e with position := e.position - 1 } else e).map
        (·.position)) = (List.range after.length).map fun i : ℕ => (before.length : ℤ) + 1 + i := by
    have hdec : ((after.map fun e =>
        if entry.position < e.position then { e with position := e.position - 1 } else e).map
          (·.position)) = (after.map (·.position)).map (· - 1) := by
      rw [List.map_map, List.map_map]
      refine List.map_congr_left fun e he => ?_
      have hmem : e.position ∈ after.map (·.position) := List.mem_map_of_mem he
      rw [hafter] at hmem
      obtain ⟨i, -, hi⟩ := List.mem_map.mp hmem
      have hlt : entry.position < e.position := by omega
      simp only [Function.comp_apply, if_pos hlt]
    rw [hdec, hafter, List.map_map]
    refine List.map_congr_left fun i _ => ?_
    simp only [Function.comp_apply]
    ring
  rw [Fair, waiting_closeGap, waiting_cancel hk hsplit, List.map_append, hfront, List.map_append,
    hback, hbefore, List.length_append, List.length_map, upTo_add]

variable (missing) in
/-- A cancellation at the end of a fair waitlist leaves no gap. -/
theorem Fair.cancel (hd : Fair d) (hk : Keyed d) {entry : WaitlistEntry} (h : entry ∈ d.waiting) :
    Fair (d.write missing (.saveEntry { entry with status := .cancelled })) ∨
      ∃ e ∈ (d.write missing (.saveEntry { entry with status := .cancelled })).waiting,
        entry.position < e.position := by
  obtain ⟨before, after, hsplit⟩ := List.append_of_mem h
  obtain ⟨hbefore, hposition, hafter⟩ := hd.split hsplit
  rw [Fair, waiting_cancel hk hsplit]
  cases after with
  | nil =>
    rw [List.append_nil]
    exact .inl hbefore
  | cons e after =>
    refine .inr ⟨e, List.mem_append_right _ List.mem_cons_self, ?_⟩
    have hmem : e.position ∈ (e :: after).map (·.position) := List.mem_map_of_mem List.mem_cons_self
    rw [hafter] at hmem
    obtain ⟨i, -, hi⟩ := List.mem_map.mp hmem
    omega

/-! ### Admissions -/

/-- The writes of an admission. -/
def admissionWrites : List WaitlistEntry → ℤ → List Write
  | [], _ => []
  | entry :: entries, nextPayoutOrder =>
      .insertMember (admittedMember entry nextPayoutOrder) ::
        .saveEntry { entry with status := .admitted } ::
          admissionWrites entries (nextPayoutOrder + 1)

/-- Those who wait after an admission. -/
theorem waiting_admission (entries : List WaitlistEntry) (n : ℤ) :
    (d.view missing (admissionWrites entries n)).waiting =
      d.waiting.filter (·.id ∉ entries.map (·.id)) := by
  induction entries generalizing d n with
  | nil => simp [admissionWrites, Tables.view]
  | cons entry entries ih =>
    refine (ih (d := (d.write missing (.insertMember (admittedMember entry n))).write missing
      (.saveEntry { entry with status := .admitted })) (n + 1)).trans ?_
    rw [waiting_saveEntry (by simp), List.filter_filter]
    refine List.filter_congr fun e _ => ?_
    rw [List.map_cons, ← Bool.decide_and]
    exact decide_eq_decide.mpr (by rw [List.mem_cons, not_or, and_comm])

theorem insertedUser_admissionWrites (entries : List WaitlistEntry) (n : ℤ) :
    (admissionWrites entries n).filterMap Write.insertedUser = entries.map (·.userId) := by
  induction entries generalizing n with
  | nil => rfl
  | cons entry entries ih =>
    change entry.userId :: (admissionWrites entries (n + 1)).filterMap Write.insertedUser = _
    rw [ih, List.map_cons]

/-- The first entries by position are the first that joined. -/
theorem Fair.nextWaiting (hd : Fair d) (limit : ℕ) : d.nextWaiting limit = d.waiting.take limit := by
  have hpositions : (d.waiting.map (·.position)).Pairwise (· ≤ ·) := by
    rw [hd, upTo, List.pairwise_map]
    refine List.pairwise_lt_range.imp fun hlt => ?_
    omega
  have hsorted : d.waiting.Pairwise fun a b => a.position ≤ b.position :=
    List.pairwise_map.mp hpositions
  rw [Tables.nextWaiting, hsorted.insertionSort_eq]

end Ahjoor.Members
