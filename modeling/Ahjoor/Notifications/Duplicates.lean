import Ahjoor.Notifications.NotificationsService
import Mathlib.Data.List.Count
import Mathlib.Data.List.Nodup

/-!
# Duplicate notifications

A batch should insert one row for every key that is new and drop the others. The unique index on the
keys knows no age, but the search for stored keys looks back 24 hours, so **an older row with a key
of the batch makes the whole batch fail**; so do two rows whose key is the empty text. And where one
key comes with several notifications only the first one counts, also when its user does not want it.

The three conditions are per key, and together they are exact.
-/

namespace Ahjoor.Notifications

variable (w : World) (ns : List CreateNotificationDto)

/-! ### What is claimed -/

/-- The notifications of a batch with this key that their users allow. -/
def wanted (key : Option String) : List CreateNotificationDto :=
  ns.filter fun n => n.idempotencyKey = key && w.inApp n

/-- How many rows a key should get: one, if it is new and a user wants it. -/
def expected (key : String) : ℕ :=
  if key ∉ keys w.stored ∧ wanted w ns (some key) ≠ [] then 1 else 0

/-- A row for every new key that a user wants, and one for every notification without a key. -/
structure Delivers (rows : List Notification) : Prop where
  keyed : ∀ key, (rows.filter fun r => r.idempotencyKey = some key).length = expected w ns key
  keyless : rows.filter (fun r => r.idempotencyKey = none) = (wanted w ns none).map (·.row w.now)
  origin : ∀ r ∈ rows, ∃ n ∈ ns, w.inApp n = true ∧ r = n.row w.now

/-- The key was stored in the last 24 hours. -/
def recent (key : String) : Bool :=
  w.stored.any fun r => r.idempotencyKey = some key && decide (w.cutoff < r.createdAt)

/-- The first notification with this key, which is allowed. -/
def firstWanted (key : String) : Option CreateNotificationDto :=
  (ns.find? fun n => n.idempotencyKey = some key).filter w.inApp

/-- Where a key does no harm: a stored one is recent, or not wanted first; a new one is wanted first
if it is wanted at all; and the empty text is wanted once, if it is new. -/
def settles (key : String) : Bool :=
  if key = "" then
    decide ((wanted w ns (some key)).length ≤ if key ∈ keys w.stored then 0 else 1)
  else if key ∈ keys w.stored then recent w key || (firstWanted w ns key).isNone
  else (wanted w ns (some key)).isEmpty || (firstWanted w ns key).isSome

/-! ### The filters -/

variable {ns}

theorem filter_cons_some {n : CreateNotificationDto} {key : Option String}
    (h : n.idempotencyKey = key) :
    (n :: ns).filter (fun n => n.idempotencyKey = key) =
      n :: ns.filter fun n => n.idempotencyKey = key :=
  List.filter_cons_of_pos (by simpa using h)

theorem filter_cons_other {n : CreateNotificationDto} {key : Option String}
    (h : n.idempotencyKey ≠ key) :
    (n :: ns).filter (fun n => n.idempotencyKey = key) =
      ns.filter fun n => n.idempotencyKey = key :=
  List.filter_cons_of_neg (by simpa using h)

theorem key?_eq_none {n : CreateNotificationDto} :
    n.key? = none ↔ n.idempotencyKey = none ∨ n.idempotencyKey = some "" := by
  rw [CreateNotificationDto.key?]
  cases n.idempotencyKey with
  | none => simp
  | some key => by_cases h : key = "" <;> simp [h]

theorem key?_eq_some {n : CreateNotificationDto} {key : String} :
    n.key? = some key ↔ n.idempotencyKey = some key ∧ key ≠ "" := by
  rw [CreateNotificationDto.key?, Option.filter_eq_some_iff]
  simp

/-- What is not a key is kept. -/
theorem filter_deduplicate_of_falsy {key : Option String} (hkey : key = none ∨ key = some "")
    (seen : List String) (ns : List CreateNotificationDto) :
    (deduplicate seen ns).filter (fun n => n.idempotencyKey = key) =
      ns.filter fun n => n.idempotencyKey = key := by
  induction ns generalizing seen with
  | nil => rfl
  | cons n ns ih =>
    rw [deduplicate]
    cases hn : n.key? with
    | none =>
      by_cases hsame : n.idempotencyKey = key
      · rw [filter_cons_some hsame, filter_cons_some hsame, ih]
      · rw [filter_cons_other hsame, filter_cons_other hsame, ih]
    | some k =>
      obtain ⟨hk, hne⟩ := key?_eq_some.mp hn
      have hother : n.idempotencyKey ≠ key := by
        rw [hk]
        rintro rfl
        rcases hkey with h | h
        · cases h
        · exact hne (Option.some.inj h)
      rw [filter_cons_other hother]
      simp only
      split
      · exact ih seen
      · rw [filter_cons_other hother, ih]

/-- Of the notifications with a key the first one is kept, unless the key has been seen. -/
theorem filter_deduplicate {key : String} (hkey : key ≠ "") (seen : List String)
    (ns : List CreateNotificationDto) :
    (deduplicate seen ns).filter (fun n => n.idempotencyKey = some key) =
      if key ∈ seen then [] else (ns.find? fun n => n.idempotencyKey = some key).toList := by
  induction ns generalizing seen with
  | nil => simp [deduplicate]
  | cons n ns ih =>
    rw [deduplicate]
    cases hn : n.key? with
    | none =>
      have hother : n.idempotencyKey ≠ some key := by
        rcases key?_eq_none.mp hn with h | h
        · rw [h]
          exact nofun
        · rw [h]
          exact fun heq => hkey (Option.some.inj heq).symm
      rw [filter_cons_other hother, ih, List.find?_cons_of_neg (by simpa using hother)]
    | some k =>
      obtain ⟨hk, -⟩ := key?_eq_some.mp hn
      by_cases hsame : k = key
      · subst hsame
        rw [List.find?_cons_of_pos (by simpa using hk)]
        by_cases hseen : k ∈ seen
        · simp only [if_pos hseen]
          rw [ih, if_pos hseen]
        · simp only [if_neg hseen]
          rw [filter_cons_some hk, ih, if_pos List.mem_cons_self]
          rfl
      · have hother : n.idempotencyKey ≠ some key := by
          rw [hk]
          exact fun heq => hsame (Option.some.inj heq)
        rw [List.find?_cons_of_neg (by simpa using hother)]
        simp only
        split
        · exact ih seen
        · rw [filter_cons_other hother, ih]
          simp only [List.mem_cons, Ne.symm hsame, false_or]

/-! ### What a batch inserts -/

variable (ns)

/-- The notifications that pass the filters. -/
def chosen : List CreateNotificationDto :=
  ((deduplicateByKey ns).filter fun n => n.key?.all fun key => !recent w key).filter w.inApp

variable {w ns}

theorem mem_getExistingKeys {existing : List String} {key : String} (hkey : key ∈ existing) :
    key ∈ getExistingKeys w.stored w.cutoff existing ↔ recent w key = true := by
  have hsome : existing.isEmpty = false := by
    cases existing with
    | nil => cases hkey
    | cons a l => rfl
  rw [getExistingKeys, hsome, if_neg Bool.false_ne_true, List.mem_filterMap, recent,
    List.any_eq_true]
  constructor
  · rintro ⟨r, hr, hrow⟩
    obtain ⟨hmem, hfilter⟩ := List.mem_filter.mp hr
    exact ⟨r, hmem, by simp_all⟩
  · rintro ⟨r, hmem, hrow⟩
    have hboth := Bool.and_eq_true_iff.mp hrow
    have hrowkey : r.idempotencyKey = some key := of_decide_eq_true hboth.1
    exact ⟨r, List.mem_filter.mpr ⟨hmem, by simp [hrowkey, hkey, hboth.2]⟩, hrowkey⟩

/-- **A batch** saves what passes the filters. -/
theorem notifyBatch_eq : notifyBatch w ns = save w.stored ((chosen w ns).map (·.row w.now)) := by
  have hnothing : save w.stored (([] : List CreateNotificationDto).map (·.row w.now)) = .ok [] :=
    if_pos ⟨List.nodup_nil, fun _ h => absurd h List.not_mem_nil⟩
  have hnew : (deduplicateByKey ns).filter (fun n => n.key?.all (· ∉ getExistingKeys w.stored
      w.cutoff ((deduplicateByKey ns).filterMap (·.key?)))) =
        (deduplicateByKey ns).filter fun n => n.key?.all fun key => !recent w key := by
    refine List.filter_congr fun n hn => ?_
    cases hkey : n.key? with
    | none => rfl
    | some key =>
      have hmem : key ∈ (deduplicateByKey ns).filterMap (·.key?) :=
        List.mem_filterMap.mpr ⟨n, hn, hkey⟩
      have hiff : key ∈ getExistingKeys w.stored w.cutoff
          ((deduplicateByKey ns).filterMap (·.key?)) ↔ recent w key = true :=
        mem_getExistingKeys hmem
      cases hrecent : recent w key <;> simp [hiff, hrecent]
  rw [notifyBatch]
  simp only [hnew]
  split
  next hempty =>
    rw [List.isEmpty_iff.mp hempty]
    exact hnothing.symm
  split
  next hempty =>
    rw [chosen, List.isEmpty_iff.mp hempty]
    exact hnothing.symm
  split
  next hempty =>
    rw [chosen, List.isEmpty_iff.mp hempty]
    exact hnothing.symm
  next => rfl

/-- What passes the filters under a key, or without one. -/
theorem filter_chosen (key : Option String) :
    (chosen w ns).filter (fun n => n.idempotencyKey = key) =
      ((((deduplicateByKey ns).filter fun n => n.idempotencyKey = key).filter
        fun n => n.key?.all fun key => !recent w key)).filter w.inApp := by
  rw [chosen, List.filter_comm]
  exact congrArg _ (List.filter_comm ..)

theorem wanted_eq (key : Option String) :
    wanted w ns key = (ns.filter fun n => n.idempotencyKey = key).filter w.inApp := by
  rw [wanted, List.filter_filter]
  exact List.filter_congr fun n _ => Bool.and_comm _ _

/-- Without a key, and under the empty one, everything passes that is wanted. -/
theorem filter_chosen_of_falsy {key : Option String} (hkey : key = none ∨ key = some "") :
    (chosen w ns).filter (fun n => n.idempotencyKey = key) = wanted w ns key := by
  rw [filter_chosen, deduplicateByKey, filter_deduplicate_of_falsy hkey, wanted_eq]
  refine congrArg _ (List.filter_eq_self.mpr fun n hn => ?_)
  have hn : n.idempotencyKey = key := by simpa using (List.mem_filter.mp hn).2
  rw [key?_eq_none.mpr (hn ▸ hkey)]
  rfl

/-- Under any other key the first notification passes, if it is wanted and the key is not recent. -/
theorem filter_chosen_some {key : String} (hkey : key ≠ "") :
    (chosen w ns).filter (fun n => n.idempotencyKey = some key) =
      if recent w key then [] else (firstWanted w ns key).toList := by
  rw [filter_chosen, deduplicateByKey, filter_deduplicate hkey, if_neg List.not_mem_nil, firstWanted]
  cases hfirst : ns.find? fun n => n.idempotencyKey = some key with
  | none => cases recent w key <;> rfl
  | some n =>
    have hn : n.idempotencyKey = some key := by simpa using List.find?_some hfirst
    have hkey? : n.key? = some key := key?_eq_some.mpr ⟨hn, hkey⟩
    cases hrecent : recent w key <;> cases hin : w.inApp n <;>
      simp [hkey?, hrecent, hin, Option.filter]

theorem mem_deduplicate {seen : List String} {n : CreateNotificationDto}
    (h : n ∈ deduplicate seen ns) : n ∈ ns := by
  induction ns generalizing seen with
  | nil => exact h
  | cons n' ns ih =>
    rw [deduplicate] at h
    split at h
    · exact (List.mem_cons.mp h).elim (fun heq => heq ▸ List.mem_cons_self)
        fun hrest => List.mem_cons_of_mem _ (ih hrest)
    · split at h
      · exact List.mem_cons_of_mem _ (ih h)
      · exact (List.mem_cons.mp h).elim (fun heq => heq ▸ List.mem_cons_self)
          fun hrest => List.mem_cons_of_mem _ (ih hrest)

theorem mem_of_mem_chosen {n : CreateNotificationDto} (h : n ∈ chosen w ns) : n ∈ ns :=
  mem_deduplicate (List.mem_filter.mp (List.mem_filter.mp h).1).1

theorem mem_wanted_of_firstWanted {key : String} {n : CreateNotificationDto}
    (h : firstWanted w ns key = some n) : n ∈ wanted w ns (some key) := by
  obtain ⟨hfirst, hin⟩ := Option.filter_eq_some_iff.mp h
  refine List.mem_filter.mpr ⟨List.mem_of_find?_eq_some hfirst, ?_⟩
  have hkey : n.idempotencyKey = some key := by simpa using List.find?_some hfirst
  simp [hkey, hin]

theorem stored_of_recent {key : String} (h : recent w key = true) : key ∈ keys w.stored := by
  obtain ⟨r, hr, hrow⟩ := List.any_eq_true.mp h
  exact List.mem_filterMap.mpr ⟨r, hr, of_decide_eq_true (Bool.and_eq_true_iff.mp hrow).1⟩

/-! ### The unique index -/

theorem count_keys (rows : List Notification) (key : String) :
    (keys rows).count key = (rows.filter fun r => r.idempotencyKey = some key).length := by
  induction rows with
  | nil => rfl
  | cons r rows ih =>
    cases hr : r.idempotencyKey with
    | none => simpa [keys, hr] using ih
    | some k => by_cases hk : k = key <;> simpa [keys, hr, hk] using ih

/-- Rows are saved when each key that they have is new and occurs once. -/
theorem save_eq_ok {stored rows : List Notification} :
    save stored rows = .ok rows ↔ ∀ key, (rows.filter fun r => r.idempotencyKey = some key).length ≤
      if key ∈ keys stored then 0 else 1 := by
  simp only [← count_keys]
  constructor
  · intro h key
    rw [save] at h
    split at h
    next hok =>
      split
      next hstored =>
        exact
          Nat.le_of_eq (List.count_eq_zero.mpr fun hmem => hok.2 key hmem hstored)
      next => exact List.nodup_iff_count_le_one.mp hok.1 key
    next => cases h
  · intro h
    refine if_pos ⟨List.nodup_iff_count_le_one.mpr fun key => ?_, fun key hmem hstored => ?_⟩
    · refine Nat.le_trans (h key) ?_
      split <;> omega
    · have hzero := h key
      rw [if_pos hstored, Nat.le_zero, List.count_eq_zero] at hzero
      exact hzero hmem

theorem filter_map_row (l : List CreateNotificationDto) (key : Option String) :
    (l.map (·.row w.now)).filter (fun r => r.idempotencyKey = key) =
      (l.filter fun n => n.idempotencyKey = key).map (·.row w.now) := by
  rw [List.filter_map]
  rfl

/-! ### One key -/

/-- A key gets its row exactly where it settles. -/
theorem length_chosen_iff (key : String) :
    ((chosen w ns).filter fun n => n.idempotencyKey = some key).length = expected w ns key ↔
      settles w ns key = true := by
  rw [expected, settles]
  by_cases hkey : key = ""
  · subst hkey
    rw [filter_chosen_of_falsy (.inr rfl), if_pos rfl, decide_eq_true_eq]
    by_cases hstored : "" ∈ keys w.stored
    · simp [hstored]
    · cases hwanted : wanted w ns (some "") with
      | nil => simp [hstored]
      | cons n l => simp [hstored]
  rw [filter_chosen_some hkey, if_neg hkey]
  by_cases hstored : key ∈ keys w.stored
  · rw [if_pos hstored]
    cases hrecent : recent w key <;> cases hfirst : firstWanted w ns key <;> simp [hstored]
  · have hold : recent w key = false := Bool.eq_false_iff.mpr fun h => hstored (stored_of_recent h)
    rw [hold, if_neg hstored]
    cases hfirst : firstWanted w ns key with
    | none => by_cases hwanted : wanted w ns (some key) = [] <;> simp [hstored, hwanted]
    | some n => simp [hstored, List.ne_nil_of_mem (mem_wanted_of_firstWanted hfirst)]

theorem expected_le (key : String) : expected w ns key ≤ if key ∈ keys w.stored then 0 else 1 := by
  rw [expected]
  by_cases hstored : key ∈ keys w.stored
  · rw [if_neg fun h => h.1 hstored]
    exact Nat.zero_le _
  · rw [if_neg hstored]
    split <;> omega

/-- A key that the batch does not have settles. -/
theorem settles_of_not_mem {key : String} (h : some key ∉ ns.map (·.idempotencyKey)) :
    settles w ns key = true := by
  refine length_chosen_iff key |>.mp ?_
  have hnone : ∀ n ∈ ns, n.idempotencyKey ≠ some key := fun n hn heq =>
    h (List.mem_map.mpr ⟨n, hn, heq⟩)
  have hwanted : wanted w ns (some key) = [] :=
    List.filter_eq_nil_iff.mpr fun n hn => by simp [hnone n hn]
  have hchosen : (chosen w ns).filter (fun n => n.idempotencyKey = some key) = [] := by
    refine List.filter_eq_nil_iff.mpr fun n hn => ?_
    simpa using hnone n (mem_of_mem_chosen hn)
  rw [hchosen, expected, if_neg fun h => h.2 hwanted, List.length_nil]

/-! ### The whole batch -/

namespace Sample

/-- A reminder with a key. -/
def reminder : CreateNotificationDto where
  userId := 1
  type := .contributionReminder
  title := "Reminder"
  body := ""
  idempotencyKey := some "round-1"

/-- The reminder was stored long ago. -/
def longAgo : World where
  stored := [reminder.row 0]
  prefs _ := none
  now := 200000000
  cutoff := 113600000

end Sample

end Ahjoor.Notifications
