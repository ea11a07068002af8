import Ahjoor.Stellar.CongestionMonitor

/-!
# What the congestion monitor reports

`getState_sound`: the percentiles that are reported are **nearest-rank percentiles, rounded to whole
milliseconds**, and zero while there is no latency; and **what is counted was recorded within two
window lengths**.

A monitor counts the newest attempts of the run, up to some attempt, none of which was recorded
before the start of its window (`Counted`). A monitor that is not reset has a window that is no older
than two window lengths, so neither are the attempts.
-/

namespace Ahjoor.Congestion

open NearestRank

variable {cfg : Config} {t : Instants} {m : Monitor} {es : List (Instants × Call)} {clock : ℤ}
  {counted : List Attempt} {window : List ℚ}

/-! ### The report -/

/-- **The percentiles** in a report on the latencies of `window`. -/
structure Ranks (window : List ℚ) (state : CongestionState) : Prop where
  percentiles : window ≠ [] → ∃ p95 p99, IsPercentile (95 / 100) window p95 ∧
    IsPercentile (99 / 100) window p99 ∧ p95 ≤ p99 ∧ state.p95LatencyMs = round p95 ∧
      state.p99LatencyMs = round p99
  whole : window ≠ [] → (∀ x ∈ window, ∃ n : ℤ, x = n) →
    IsPercentile (95 / 100) window (state.p95LatencyMs : ℚ) ∧
      IsPercentile (99 / 100) window (state.p99LatencyMs : ℚ)
  zero : window = [] → state.p95LatencyMs = 0 ∧ state.p99LatencyMs = 0
  le : state.p95LatencyMs ≤ state.p99LatencyMs
  strict : state.isCongestionedStrict = true → state.isCongestioned = true

/-- **The attempts** that a report of `m` at `now` counts, newest first. -/
structure Recent (cfg : Config) (es : List (Instants × Call)) (now : ℤ) (state : CongestionState)
    (window : List ℚ) (counted : List Attempt) : Prop where
  latest : counted <+: attempts es
  total : state.totalAttempts = counted.length
  successful : state.successfulAttempts = (latencies counted).length
  failed : state.failedAttempts = counted.countP (·.latencyMs.isNone)
  window_suffix : window <:+ (latencies counted).reverse
  window_full : window.length = (latencies counted).length ∨ 500 ≤ window.length
  recent : ∀ a ∈ counted, (now : ℚ) - 2 * cfg.windowSizeMs ≤ a.recordedAt ∧ a.recordedAt ≤ now

/-! ### The percentiles -/

section Percentiles

variable {q : ℚ}

/-- **The rank is right** for every number of latencies. -/
theorem isPercentile_ranked (hq : 0 < q) (hq' : q ≤ 1) (h : window ≠ []) :
    IsPercentile q window (ranked q window) := by
  have hlength : window.length ≠ 0 := fun h' => h (List.length_eq_zero_iff.mp h')
  have hplace : place q window.length < (window.insertionSort (· ≤ ·)).length := by
    rw [List.length_insertionSort]
    exact place_lt hq hq' hlength
  refine isPercentile_place hq h (List.pairwise_insertionSort _ _) (List.perm_insertionSort _ _) ?_
  have hranked : ranked q window = (window.insertionSort (· ≤ ·)).getD (place q window.length) 0 := by
    rw [ranked, List.length_insertionSort]
  rw [hranked, List.getD_eq_getElem?_getD, List.getElem?_eq_getElem hplace]
  rfl

/-- **What is calculated** are percentiles, unless there is no latency. -/
theorem isPercentile_calculatePercentiles (h : window ≠ []) :
    IsPercentile (95 / 100) window (calculatePercentiles window).p95 ∧
      IsPercentile (99 / 100) window (calculatePercentiles window).p99 := by
  have hp : calculatePercentiles window = ⟨ranked (95 / 100) window, ranked (99 / 100) window⟩ :=
    if_neg fun h' => h (List.length_eq_zero_iff.mp h')
  rw [hp]
  exact ⟨isPercentile_ranked (by norm_num) (by norm_num) h,
    isPercentile_ranked (by norm_num) (by norm_num) h⟩

/-- **The percentiles grow.** -/
theorem p95_le_p99 : (calculatePercentiles window).p95 ≤ (calculatePercentiles window).p99 := by
  by_cases h : window = []
  · subst h
    exact le_rfl
  · obtain ⟨h95, h99⟩ := isPercentile_calculatePercentiles h
    exact h95.le h99 (by norm_num)

/-- Rounding keeps the order. -/
theorem round_le_round {x y : ℚ} (h : x ≤ y) : round x ≤ round y := by
  rw [round_eq, round_eq]
  exact Int.floor_le_floor (by linarith)

/-- Rounding changes nothing among whole latencies. -/
theorem isPercentile_round {x : ℚ} (h : IsPercentile q window x)
    (hwhole : ∀ x ∈ window, ∃ n : ℤ, x = n) : IsPercentile q window (round x : ℚ) := by
  obtain ⟨n, rfl⟩ := hwhole x h.mem
  rw [round_intCast]
  exact h

end Percentiles

/-- **The percentiles of a report.** -/
theorem ranks_report (done : ℤ) : Ranks m.latencyWindow (report cfg done m) where
  percentiles h := by
    obtain ⟨h95, h99⟩ := isPercentile_calculatePercentiles h
    exact ⟨_, _, h95, h99, p95_le_p99, rfl, rfl⟩
  whole h hwhole := by
    obtain ⟨h95, h99⟩ := isPercentile_calculatePercentiles h
    exact ⟨isPercentile_round h95 hwhole, isPercentile_round h99 hwhole⟩
  zero h := by
    change round (calculatePercentiles m.latencyWindow).p95 = 0 ∧
      round (calculatePercentiles m.latencyWindow).p99 = 0
    rw [h]
    exact ⟨round_zero, round_zero⟩
  le := round_le_round p95_le_p99
  strict h := by
    obtain ⟨hsamples, ⟨_, hp99⟩, herror⟩ := of_decide_eq_true h
    exact decide_eq_true ⟨hsamples, hp99, herror⟩

/-! ### What is counted -/

/-- **A monitor counts** the attempts `counted`, which are the newest ones of the run. -/
structure Counted (es : List (Instants × Call)) (clock : ℤ) (m : Monitor) (counted : List Attempt) :
    Prop where
  latest : counted <+: attempts es
  successful : m.successfulAttempts = (latencies counted).length
  failed : m.failedAttempts = counted.countP (·.latencyMs.isNone)
  window_suffix : m.latencyWindow <:+ (latencies counted).reverse
  window_full : m.latencyWindow.length = (latencies counted).length ∨ 500 ≤ m.latencyWindow.length
  since : ∀ a ∈ counted, m.windowStartTime ≤ a.recordedAt
  until_clock : ∀ a ∈ counted, a.recordedAt ≤ clock
  start_le : m.windowStartTime ≤ clock

/-- A new window counts nothing. -/
theorem counted_reset {now : ℤ} (h : now ≤ clock) : Counted es clock (reset now) [] where
  latest := List.nil_prefix
  successful := rfl
  failed := rfl
  window_suffix := List.suffix_rfl
  window_full := .inl rfl
  since _ ha := absurd ha List.not_mem_nil
  until_clock _ ha := absurd ha List.not_mem_nil
  start_le := h

theorem trim_suffix : trim window <:+ window := by
  rw [trim]
  split
  · exact List.drop_suffix _ _
  · exact List.suffix_rfl

/-- The latencies that are kept are all of them or `500`. -/
theorem length_trim : (trim window).length = window.length ∨ 500 ≤ (trim window).length := by
  rw [trim]
  split
  next hlength =>
    rw [List.length_drop]
    omega
  next => exact .inl rfl

/-- **Cleaning the old samples** leaves no attempt that is older than two window lengths. -/
theorem Counted.cleanOldSamples (cfg : Config) (h : Counted es clock m counted)
    (ht : clock ≤ t.now) : ∃ counted', Counted es t.after (cleanOldSamples cfg t m) counted' ∧
      ∀ a ∈ counted', (t.now : ℚ) - 2 * cfg.windowSizeMs ≤ a.recordedAt ∧ a.recordedAt ≤ t.now := by
  rw [Congestion.cleanOldSamples]
  simp only
  split
  next => exact ⟨[], counted_reset le_rfl, fun a ha => absurd ha List.not_mem_nil⟩
  next hage =>
    refine ⟨counted, ⟨h.latest, h.successful, h.failed, trim_suffix.trans h.window_suffix, ?_, h.since,
      fun a ha => ((h.until_clock a ha).trans ht).trans t.now_le, (h.start_le.trans ht).trans t.now_le⟩,
      fun a ha => ⟨?_, (h.until_clock a ha).trans ht⟩⟩
    · have hfull := h.window_full
      have htrim : (trim m.latencyWindow).length = m.latencyWindow.length ∨
          500 ≤ (trim m.latencyWindow).length := length_trim
      change (trim m.latencyWindow).length = _ ∨ 500 ≤ (trim m.latencyWindow).length
      omega
    · have hsince : (m.windowStartTime : ℚ) ≤ a.recordedAt := by exact_mod_cast h.since a ha
      have hyoung : (t.now : ℚ) - m.windowStartTime ≤ cfg.windowSizeMs * 2 := by
        have hle := not_lt.mp hage
        push_cast at hle
        exact hle
      linarith only [hsince, hyoung]

/-- A clock that has gone on, and calls that record no attempt. -/
theorem Counted.mono {es' : List (Instants × Call)} {clock' : ℤ} (h : Counted es clock m counted)
    (hes : attempts es' = attempts es) (hclock : clock ≤ clock') : Counted es' clock' m counted :=
  { h with
    latest := hes ▸ h.latest
    until_clock := fun a ha => (h.until_clock a ha).trans hclock
    start_le := h.start_le.trans hclock }

/-- **A success is counted**, and its latency is the last one. -/
theorem Counted.success (h : Counted es t.after m counted) (latencyMs : ℚ) :
    Counted ((t, .recordSuccess latencyMs) :: es) t.done
      { m with
        latencyWindow := m.latencyWindow ++ [latencyMs]
        successfulAttempts := m.successfulAttempts + 1 }
      (⟨t.after, some latencyMs⟩ :: counted) where
  latest := List.prefix_cons_inj _ |>.mpr h.latest
  successful := congrArg (· + 1) h.successful
  failed := h.failed
  window_suffix := by
    obtain ⟨older, holder⟩ := h.window_suffix
    refine ⟨older, ?_⟩
    change older ++ (m.latencyWindow ++ [latencyMs]) = (latencyMs :: latencies counted).reverse
    rw [List.reverse_cons, ← holder, List.append_assoc]
  window_full := by
    have hfull := h.window_full
    change (m.latencyWindow ++ [latencyMs]).length = (latencies counted).length + 1 ∨
      500 ≤ (m.latencyWindow ++ [latencyMs]).length
    rw [List.length_append, List.length_singleton]
    omega
  since := List.forall_mem_cons.mpr ⟨h.start_le, h.since⟩
  until_clock := List.forall_mem_cons.mpr
    ⟨t.after_le, fun a ha => (h.until_clock a ha).trans t.after_le⟩
  start_le := h.start_le.trans t.after_le

/-- **A failure is counted.** -/
theorem Counted.failure (h : Counted es t.after m counted) :
    Counted ((t, .recordFailure) :: es) t.done { m with failedAttempts := m.failedAttempts + 1 }
      (⟨t.after, none⟩ :: counted) where
  latest := List.prefix_cons_inj _ |>.mpr h.latest
  successful := h.successful
  failed := by
    rw [List.countP_cons_of_pos rfl]
    exact congrArg (· + 1) h.failed
  window_suffix := h.window_suffix
  window_full := h.window_full
  since := List.forall_mem_cons.mpr ⟨h.start_le, h.since⟩
  until_clock := List.forall_mem_cons.mpr
    ⟨t.after_le, fun a ha => (h.until_clock a ha).trans t.after_le⟩
  start_le := h.start_le.trans t.after_le

/-- **A call** keeps the count. -/
theorem Counted.apply (h : Counted es clock m counted) (ht : clock ≤ t.now) (call : Call) :
    ∃ counted', Counted ((t, call) :: es) t.done (call.apply cfg t m) counted' := by
  obtain ⟨kept, hkept, -⟩ := h.cleanOldSamples cfg ht
  cases call with
  | recordSuccess latencyMs => exact ⟨_, hkept.success latencyMs⟩
  | recordFailure => exact ⟨_, hkept.failure⟩
  | getState => exact ⟨kept, hkept.mono rfl t.after_le⟩
  | reset => exact ⟨[], counted_reset t.after_le⟩

/-- **The count holds along every run.** -/
theorem exists_counted_of_run (h : Run cfg es clock m) : ∃ counted, Counted es clock m counted := by
  induction h with
  | start now => exact ⟨[], counted_reset le_rfl⟩
  | call _ t ht call ih =>
    obtain ⟨counted, hcounted⟩ := ih
    exact hcounted.apply ht call

/-- The attempts are successes and failures. -/
theorem length_latencies_add : (latencies counted).length + counted.countP (·.latencyMs.isNone) =
    counted.length := by
  induction counted with
  | nil => rfl
  | cons a counted ih =>
    obtain ⟨recordedAt, _ | latencyMs⟩ := a
    · change (latencies counted).length + _ = _
      rw [List.countP_cons_of_pos rfl, List.length_cons]
      omega
    · change (latencies counted).length + 1 + _ = _
      rw [List.countP_cons_of_neg (by simp), List.length_cons]
      omega

/-- **What a report counts.** -/
theorem exists_recent (h : Run cfg es clock m) (ht : clock ≤ t.now) : ∃ counted,
    Recent cfg es t.now (getState cfg t m).1 (getState cfg t m).2.latencyWindow counted := by
  obtain ⟨counted, hcounted⟩ := exists_counted_of_run h
  obtain ⟨kept, hkept, hrecent⟩ := hcounted.cleanOldSamples cfg ht
  have htotal : (getState cfg t m).1.totalAttempts = kept.length := by
    change (cleanOldSamples cfg t m).successfulAttempts + (cleanOldSamples cfg t m).failedAttempts = _
    rw [hkept.successful, hkept.failed, length_latencies_add]
  exact ⟨kept, hkept.latest, htotal, hkept.successful, hkept.failed, hkept.window_suffix,
    hkept.window_full, hrecent⟩

/-! ### The report is sound -/

/-- **What `getState` reports**: percentiles of any latencies, at any time, and in every run no
attempt that is older than two window lengths. -/
theorem getState_sound (cfg : Config) (t : Instants) (m : Monitor) :
    Ranks (getState cfg t m).2.latencyWindow (getState cfg t m).1 ∧
      ∀ es clock, Run cfg es clock m → clock ≤ t.now → ∃ counted,
        Recent cfg es t.now (getState cfg t m).1 (getState cfg t m).2.latencyWindow counted :=
  ⟨ranks_report t.done, fun _ _ hrun ht => exists_recent hrun ht⟩

/-- The clock stands still. -/
def Instants.still (now : ℤ) : Instants := ⟨now, now, now, le_rfl, le_rfl⟩

/-- A success and a failure, the one after more than two window lengths. -/
theorem getState_sound_two :
    let before := recordSuccess {} (.still 0) 120 (reset 0)
    let m := recordFailure {} (.still 300000) before
    ∃ counted, Recent {} [(.still 300000, .recordFailure), (.still 0, .recordSuccess 120)] 300001
      (getState {} (.still 300001) m).1 (getState {} (.still 300001) m).2.latencyWindow counted :=
  (getState_sound {} (.still 300001) _).2 _ _
    (.call (.call (.start 0) (.still 0) le_rfl (.recordSuccess 120)) (.still 300000) (by decide)
      .recordFailure) (by decide)

/-- **Not every percentile that is reported is a latency**: none has been recorded, or the only one
is half a millisecond. -/
theorem not_latency :
    let empty := getState {} (.still 0) (reset 0)
    let half := getState {} (.still 0) (recordSuccess {} (.still 0) (1 / 2) (reset 0))
    (empty.2.latencyWindow = [] ∧
        ¬ IsPercentile (95 / 100) empty.2.latencyWindow (empty.1.p95LatencyMs : ℚ)) ∧
      half.2.latencyWindow = [1 / 2] ∧
        ¬ IsPercentile (95 / 100) half.2.latencyWindow (half.1.p95LatencyMs : ℚ) := by
  refine ⟨⟨by decide +kernel, fun h => ?_⟩, by decide +kernel, fun h => ?_⟩
  · have hmem := h.mem
    revert hmem
    decide +kernel
  · have hmem := h.mem
    revert hmem
    decide +kernel

end Ahjoor.Congestion
