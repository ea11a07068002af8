import Ahjoor.Stellar.BalanceMonitorService
import Mathlib.Data.List.Nodup
import Mathlib.Data.List.Chain

/-!
# Balance alerts

What the rounds of the monitor do for one account depends on whether the account is remembered as
low and on what is read of it. As long as an account that is remembered is read in every round, and
not read low while the network is congested, its alerts alternate, and a recovery is announced only
when the balance suffices. Otherwise the account is forgotten, and the next alert says that it is low
again; or its recovery is announced although it is low.
-/

namespace Ahjoor.BalanceMonitor

/-! ### What is claimed -/

/-- The account of an alert. -/
def Alert.accountId : Alert → String
  | low result | recovered result => result.accountId

/-- The alert says that the balance is low. -/
def Alert.isLow : Alert → Bool
  | low _ => true
  | recovered _ => false

/-- The alerts for an account, each with whether it says that the balance is low. -/
def flags (a : String) (alerts : List Alert) : List Bool :=
  (alerts.filter (·.accountId = a)).map Alert.isLow

/-- What is read of an account in a round. -/
def reading (cfg : Config) (round : Round) (a : String) : Option AccountBalanceCheckResult :=
  (results cfg round).find? (·.accountId = a)

/-- The alerts for an account alternate, `LOW` first, and those of a recovery are true. -/
structure Faithful (cfg : Config) (rounds : List Round) (a : String) : Prop where
  alternate : ((false :: flags a ((emitted cfg rounds []).flatMap (·.2))).IsChain (· ≠ ·))
  recovered : ∀ round alerts, (round, alerts) ∈ emitted cfg rounds [] →
    ∀ result, .recovered result ∈ alerts → result.accountId = a →
      reading cfg round a = some result ∧ result.minimumRequired ≤ result.currentBalance

/-- The account, if it is remembered as low, is read in the round, and not read low while the network
is congested. -/
def attends (cfg : Config) (a : String) (round : Round) (previous : List String) : Bool :=
  !decide (a ∈ previous) || (uniqueAccounts cfg round).isEmpty ||
    (reading cfg round a).any fun result => !(result.isLow && round.isNetworkCongested)

/-- Every round attends to the account. -/
def Attended (cfg : Config) (a : String) : List Round → List String → Prop
  | [], _ => True
  | round :: rounds, previous =>
      attends cfg a round previous = true ∧
        Attended cfg a rounds (checkAllBalances cfg round previous).1

/-! ### Sets -/

theorem nodup_add {accounts : List String} (h : accounts.Nodup) (a : String) :
    (add accounts a).Nodup := by
  rw [add]
  split
  · exact h
  next hnot =>
    rw [List.nodup_append_comm]
    exact List.nodup_cons.mpr ⟨hnot, h⟩

theorem mem_add {accounts : List String} {a b : String} :
    b ∈ add accounts a ↔ b ∈ accounts ∨ b = a := by
  rw [add]
  split
  next hmem => exact ⟨.inl, fun h => h.elim id fun heq => heq ▸ hmem⟩
  next => rw [List.mem_append, List.mem_singleton]

theorem nodup_foldl_add {as : List String} {accounts : List String} (h : accounts.Nodup) :
    (as.foldl add accounts).Nodup := by
  induction as generalizing accounts with
  | nil => exact h
  | cons a as ih => exact ih (nodup_add h a)

theorem mem_foldl_add {as : List String} {accounts : List String} {b : String} :
    b ∈ as.foldl add accounts ↔ b ∈ accounts ∨ b ∈ as := by
  induction as generalizing accounts with
  | nil => simp
  | cons a as ih => rw [List.foldl_cons, ih, mem_add, List.mem_cons, or_assoc]

/-! ### Results -/

section Results

variable {cfg : Config} {round : Round} {a : String} {r : AccountBalanceCheckResult}

/-- What a check returns is about its account, and low when it is below the minimum. -/
theorem result_of_run {check : Check} (h : (check.run cfg a).1 = .ok r) :
    r.accountId = a ∧ r.isLow = decide (r.currentBalance < r.minimumRequired) := by
  have hchecked : ∀ state, (checkAccountBalance cfg a check.inner check.loaded state).1 = .ok r →
      r.accountId = a ∧ r.isLow = decide (r.currentBalance < r.minimumRequired) := by
    intro state hr
    rw [checkAccountBalance] at hr
    split at hr
    next account after _ =>
      simp only [result] at hr
      split at hr
      · cases hr
      · obtain rfl := Except.ok.inj hr
        exact ⟨rfl, rfl⟩
    · cases hr
  rw [Check.run, execute] at h
  split at h
  · cases h
  next state _ =>
    split at h
    next r' after hfn =>
      obtain rfl := Except.ok.inj h
      exact hchecked state (congrArg Prod.fst hfn)
    · cases h

theorem mem_results (h : r ∈ results cfg round) :
    r.accountId ∈ uniqueAccounts cfg round ∧
      r.isLow = decide (r.currentBalance < r.minimumRequired) := by
  obtain ⟨a, ha, hr⟩ := List.mem_filterMap.mp h
  have hrun : ((round.checks a).run cfg a).1 = .ok r := by
    cases hcheck : ((round.checks a).run cfg a).1 with
    | ok r' => rw [hcheck] at hr; exact congrArg _ (Option.some.inj hr)
    | error e => rw [hcheck] at hr; cases hr
  obtain ⟨rfl, hlow⟩ := result_of_run hrun
  exact ⟨ha, hlow⟩

/-- An account has one result at most. -/
theorem nodup_results (cfg : Config) (round : Round) :
    ((results cfg round).map (·.accountId)).Nodup := by
  rw [results, List.map_filterMap]
  refine List.Nodup.filterMap (fun a a' b hb hb' => ?_) (nodup_foldl_add List.nodup_nil)
  have hkey : ∀ c, b ∈ (((round.checks c).run cfg c).1.toOption.map (·.accountId)) → b = c := by
    intro c hc
    obtain ⟨r, hr, rfl⟩ := Option.map_eq_some_iff.mp hc
    cases hcheck : ((round.checks c).run cfg c).1 with
    | ok r' =>
      rw [hcheck] at hr
      obtain rfl := Option.some.inj hr
      exact (result_of_run hcheck).1
    | error e => rw [hcheck] at hr; cases hr
  exact (hkey a hb).symm.trans (hkey a' hb')

theorem reading_eq_some (h : reading cfg round a = some r) :
    r ∈ results cfg round ∧ r.accountId = a :=
  ⟨List.mem_of_find?_eq_some h, by simpa using List.find?_some h⟩

/-- The results of an account are what is read of it. -/
theorem filter_results (cfg : Config) (round : Round) (a : String) :
    (results cfg round).filter (·.accountId = a) = (reading cfg round a).toList := by
  have hnodup := nodup_results cfg round
  rw [reading]
  generalize results cfg round = rs at hnodup
  induction rs with
  | nil => rfl
  | cons r rs ih =>
    rw [List.map_cons, List.nodup_cons] at hnodup
    by_cases hr : r.accountId = a
    · have hrest : rs.filter (·.accountId = a) = [] := by
        refine List.filter_eq_nil_iff.mpr fun r' hr' => ?_
        simp only [decide_eq_true_eq]
        exact fun heq => hnodup.1 (List.mem_map.mpr ⟨r', hr', heq.trans hr.symm⟩)
      rw [List.filter_cons_of_pos (by simpa using hr), List.find?_cons_of_pos (by simpa using hr),
        hrest]
      rfl
    · rw [List.filter_cons_of_neg (by simpa using hr), List.find?_cons_of_neg (by simpa using hr)]
      exact ih hnodup.2

end Results

/-! ### One round -/

section Rounds

variable {cfg : Config} {round : Round} {previous : List String} {a : String}

/-- The result makes its account count as low. -/
def counts (congested : Bool) (result : AccountBalanceCheckResult) : Bool :=
  result.isLow && !congested

/-- What the loop over the results comes to. -/
theorem foldl_processResult (congested : Bool) (previous : List String)
    (results : List AccountBalanceCheckResult) (acc : List String × List Alert) :
    results.foldl (processResult congested previous) acc =
      (((results.filter (counts congested)).map (·.accountId)).foldl add acc.1,
        acc.2 ++ ((results.filter (counts congested)).filter
          (·.accountId ∉ previous)).map .low) := by
  induction results generalizing acc with
  | nil => simp
  | cons r rs ih =>
    rw [List.foldl_cons, ih, processResult]
    cases hlow : r.isLow with
    | false => simp [counts, hlow]
    | true =>
      cases congested with
      | true => simp [counts]
      | false => by_cases hmem : r.accountId ∈ previous <;> simp [counts, hlow, hmem]

theorem mem_processBalanceResults {congested : Bool} {results : List AccountBalanceCheckResult} :
    a ∈ (processBalanceResults congested results previous).1 ↔
      ∃ r ∈ results, counts congested r = true ∧ r.accountId = a := by
  simp only [processBalanceResults, foldl_processResult, mem_foldl_add, List.not_mem_nil, false_or,
    List.mem_map, List.mem_filter, and_assoc]

/-- An account is remembered when it is read as low. -/
theorem mem_checkAllBalances (hsome : uniqueAccounts cfg round ≠ []) :
    a ∈ (checkAllBalances cfg round previous).1 ↔
      ∃ r, reading cfg round a = some r ∧ counts round.isNetworkCongested r = true := by
  rw [checkAllBalances, if_neg hsome, mem_processBalanceResults]
  constructor
  · rintro ⟨r, hr, hcounts, rfl⟩
    have hmem : r ∈ (results cfg round).filter (·.accountId = r.accountId) :=
      List.mem_filter.mpr ⟨hr, by simp⟩
    rw [filter_results, Option.mem_toList] at hmem
    exact ⟨r, hmem, hcounts⟩
  · rintro ⟨r, hr, hcounts⟩
    exact ⟨r, (reading_eq_some hr).1, hcounts, (reading_eq_some hr).2⟩

theorem nodup_checkAllBalances (hnodup : previous.Nodup) :
    (checkAllBalances cfg round previous).1.Nodup := by
  rw [checkAllBalances]
  split
  · exact hnodup
  · simp only [processBalanceResults, foldl_processResult]
    exact nodup_foldl_add List.nodup_nil

/-- The alerts of a loop over the results say that an account is low when it is read as low and was
not remembered. -/
theorem flags_low (cfg : Config) (round : Round) (previous : List String) (a : String) :
    flags a ((((results cfg round).filter (counts round.isNetworkCongested)).filter
        (·.accountId ∉ previous)).map .low) =
      (((reading cfg round a).toList.filter (counts round.isNetworkCongested)).filter
        (·.accountId ∉ previous)).map fun _ => true := by
  rw [flags, List.filter_map, List.map_map, ← filter_results, ← List.filter_comm,
    ← List.filter_comm (fun r : AccountBalanceCheckResult => decide (r.accountId = a))]
  rfl

theorem filterMap_one {l : List String} (hnodup : l.Nodup) (a : String) (o : Option Alert) :
    (l.filterMap fun b => if b = a then o else none) = if a ∈ l then o.toList else [] := by
  induction l with
  | nil => rfl
  | cons b l ih =>
    obtain ⟨hnot, hnodup⟩ := List.nodup_cons.mp hnodup
    by_cases hb : b = a
    · subst hb
      rw [List.filterMap_cons, if_pos rfl, ih hnodup, if_neg hnot, if_pos List.mem_cons_self]
      cases o <;> rfl
    · rw [List.filterMap_cons, if_neg hb, ih hnodup]
      simp only [List.mem_cons, Ne.symm hb, false_or]

/-- The recoveries of a round announce an account that was remembered and is not any more, if it is
read. -/
theorem flags_recovered (hnodup : previous.Nodup) (current : List String) :
    flags a (previous.filterMap fun accountId =>
        if accountId ∈ current then none
        else ((results cfg round).find? (·.accountId = accountId)).map .recovered) =
      if a ∈ previous ∧ a ∉ current then (reading cfg round a).toList.map fun _ => false else [] := by
  have hone : ∀ b : String, ((if b ∈ current then none
      else (reading cfg round b).map Alert.recovered).filter (·.accountId = a)) =
        if b = a then
          if a ∈ current then none else (reading cfg round a).map .recovered
        else none := by
    intro b
    by_cases hcurrent : b ∈ current
    · rw [if_pos hcurrent, Option.filter_none]
      split
      next hb => rw [if_pos (hb ▸ hcurrent)]
      next => rfl
    rw [if_neg hcurrent]
    cases hread : reading cfg round b with
    | none =>
      split
      next hb => rw [← hb, if_neg hcurrent, hread]; rfl
      next => rfl
    | some r =>
      have hkey : (Alert.recovered r).accountId = b := (reading_eq_some hread).2
      rw [Option.map_some, Option.filter_some, hkey]
      by_cases hb : b = a
      · rw [if_pos (decide_eq_true hb), if_pos hb, ← hb, if_neg hcurrent, hread]
        rfl
      · rw [if_neg (by simpa using hb), if_neg hb]
  rw [flags, List.filter_filterMap]
  refine (congrArg _ (List.filterMap_congr fun b _ => hone b)).trans ?_
  rw [filterMap_one hnodup]
  by_cases hmem : a ∈ previous
  · by_cases hcurrent : a ∈ current
    · rw [if_pos hmem, if_pos hcurrent, if_neg fun h => h.2 hcurrent]
      rfl
    · rw [if_pos hmem, if_neg hcurrent, if_pos ⟨hmem, hcurrent⟩]
      cases reading cfg round a <;> rfl
  · rw [if_neg hmem, if_neg fun h => hmem h.1]
    rfl

/-- **What a round announces** about an account depends on whether it is remembered and on what is
read of it. -/
theorem flags_checkAllBalances (hnodup : previous.Nodup) (hsome : uniqueAccounts cfg round ≠ []) :
    flags a (checkAllBalances cfg round previous).2 =
      match reading cfg round a with
      | none => []
      | some r =>
          if counts round.isNetworkCongested r then if a ∈ previous then [] else [true]
          else if a ∈ previous then [false] else [] := by
  have hmem : a ∈ (checkAllBalances cfg round previous).1 ↔ _ := mem_checkAllBalances hsome
  rw [checkAllBalances, if_neg hsome] at hmem ⊢
  have hsplit : flags a (processBalanceResults round.isNetworkCongested (results cfg round)
      previous).2 = flags a ((((results cfg round).filter (counts round.isNetworkCongested)).filter
        (·.accountId ∉ previous)).map .low) ++ flags a (previous.filterMap fun accountId =>
          if accountId ∈ (processBalanceResults round.isNetworkCongested (results cfg round)
            previous).1 then none
          else ((results cfg round).find? (·.accountId = accountId)).map .recovered) := by
    simp only [processBalanceResults, foldl_processResult, List.nil_append, flags,
      List.filter_append, List.map_append]
  rw [hsplit, flags_low, flags_recovered hnodup]
  simp only [hmem]
  cases hread : reading cfg round a with
  | none => simp
  | some r =>
    have hkey := (reading_eq_some hread).2
    by_cases hcounts : counts round.isNetworkCongested r = true <;>
      by_cases hprevious : a ∈ previous <;> simp [hcounts, hprevious, hkey]

/-- A recovery is announced for an account that was remembered and is not read as low any more. -/
theorem recovered_checkAllBalances {r : AccountBalanceCheckResult}
    (h : .recovered r ∈ (checkAllBalances cfg round previous).2) :
    r.accountId ∈ previous ∧ reading cfg round r.accountId = some r ∧
      counts round.isNetworkCongested r = false ∧ uniqueAccounts cfg round ≠ [] := by
  rw [checkAllBalances] at h
  split at h
  · exact absurd h List.not_mem_nil
  next hsome =>
    simp only [processBalanceResults, foldl_processResult, List.nil_append, List.mem_append] at h
    rcases h with h | h
    · obtain ⟨r', -, heq⟩ := List.mem_map.mp h
      cases heq
    · obtain ⟨b, hb, h⟩ := List.mem_filterMap.mp h
      split at h
      · cases h
      next hnot =>
        obtain ⟨r', hfind, heq⟩ := Option.map_eq_some_iff.mp h
        obtain rfl := Alert.recovered.inj heq
        have hread : reading cfg round b = some r' := hfind
        obtain ⟨hmem, rfl⟩ := reading_eq_some hread
        refine ⟨hb, hread, Bool.eq_false_iff.mpr fun hcounts => hnot ?_, hsome⟩
        exact mem_foldl_add.mpr (.inr (List.mem_map_of_mem (List.mem_filter.mpr ⟨hmem, hcounts⟩)))

/-! ### Rounds that attend to the account -/

/-- A round says nothing about an account that it goes on remembering or not remembering, and
announces the change otherwise. -/
theorem turns_of_attends (hnodup : previous.Nodup) (h : attends cfg a round previous = true) :
    (flags a (checkAllBalances cfg round previous).2 = [] ∧
        (a ∈ (checkAllBalances cfg round previous).1 ↔ a ∈ previous)) ∨
      (flags a (checkAllBalances cfg round previous).2 =
          [decide (a ∈ (checkAllBalances cfg round previous).1)] ∧
        (a ∈ (checkAllBalances cfg round previous).1 ↔ a ∉ previous)) := by
  by_cases hsome : uniqueAccounts cfg round = []
  · rw [checkAllBalances, if_pos hsome]
    exact .inl ⟨rfl, Iff.rfl⟩
  rw [flags_checkAllBalances hnodup hsome]
  simp only [mem_checkAllBalances hsome]
  simp only [attends, List.isEmpty_eq_false_iff.mpr hsome, Bool.or_false] at h
  cases hread : reading cfg round a with
  | none =>
    have hforgotten : a ∉ previous := by simpa [hread] using h
    exact .inl ⟨rfl, by simp [hforgotten]⟩
  | some r =>
    by_cases hcounts : counts round.isNetworkCongested r = true <;>
      by_cases hprevious : a ∈ previous <;> simp [hcounts, hprevious]

theorem flags_append (as bs : List Alert) : flags a (as ++ bs) = flags a as ++ flags a bs := by
  rw [flags, List.filter_append, List.map_append, flags, flags]

/-- The alerts of one round after another alternate, from what is remembered at first. -/
theorem isChain_emitted {rounds : List Round} (hnodup : previous.Nodup)
    (h : Attended cfg a rounds previous) :
    (decide (a ∈ previous) :: flags a ((emitted cfg rounds previous).flatMap (·.2))).IsChain
      (· ≠ ·) := by
  induction rounds generalizing previous with
  | nil => exact List.isChain_singleton _
  | cons round rounds ih =>
    have hrest := ih (nodup_checkAllBalances hnodup) h.2
    rw [emitted, List.flatMap_cons, flags_append]
    rcases turns_of_attends hnodup h.1 with ⟨hnone, hsame⟩ | ⟨hone, hturn⟩
    · rw [hnone, List.nil_append]
      rwa [decide_eq_decide.mpr hsame] at hrest
    · rw [hone, List.singleton_append, List.isChain_cons_cons]
      refine ⟨fun heq => ?_, hrest⟩
      have hboth := decide_eq_decide.mp heq
      exact not_iff_self (hturn.symm.trans hboth.symm)

/-- A recovery that is announced has been read. -/
theorem recovered_emitted {rounds : List Round} (h : Attended cfg a rounds previous)
    {alerts : List Alert} (hmem : (round, alerts) ∈ emitted cfg rounds previous)
    {r : AccountBalanceCheckResult} (hr : .recovered r ∈ alerts) (hkey : r.accountId = a) :
    reading cfg round a = some r ∧ r.minimumRequired ≤ r.currentBalance := by
  induction rounds generalizing previous with
  | nil => exact absurd hmem List.not_mem_nil
  | cons round' rounds ih =>
    rcases List.mem_cons.mp hmem with heq | hmem
    · obtain ⟨rfl, rfl⟩ := Prod.mk.inj heq
      subst hkey
      obtain ⟨hprevious, hread, hcounts, hsome⟩ := recovered_checkAllBalances hr
      have hattends := h.1
      simp only [attends, hprevious, hread, List.isEmpty_eq_false_iff.mpr hsome] at hattends
      have hhigh : r.isLow = false := by
        cases hlow : r.isLow with
        | false => rfl
        | true =>
          cases hcongested : round.isNetworkCongested <;>
            simp [counts, hlow, hcongested] at hcounts hattends
      rw [(mem_results (reading_eq_some hread).1).2, decide_eq_false_iff_not] at hhigh
      exact ⟨hread, not_lt.mp hhigh⟩
    · exact ih h.2 hmem

/-- **The alerts for an account are faithful** in every sequence of rounds that attend to it. -/
theorem faithful_of_attended (cfg : Config) (a : String) {rounds : List Round}
    (h : Attended cfg a rounds []) : Faithful cfg rounds a where
  alternate := isChain_emitted List.nodup_nil h
  recovered _ _ hmem _ hr hkey := recovered_emitted h hmem hr hkey

end Rounds

namespace Sample

/-- One account. -/
def oneAccount : Config where
  issuerAccount := "G"

/-- A round in which the account has this balance, or cannot be read. -/
def round (balance : Option ℚ) : Round where
  groups := none
  checks _ := {
    outer := ⟨0, ⟨false, 0⟩, 0⟩
    inner := ⟨0, ⟨false, 0⟩, 0⟩
    loaded := match balance with
      | some balance => .ok ⟨some [⟨"native", balance⟩]⟩
      | none => .error "timeout" }
  isNetworkCongested := false

end Sample

/-- An account that is low, has recovered and is low again. -/
theorem faithful_sample :
    flags "G" ((emitted Sample.oneAccount ([some 1, some 9, some 2].map Sample.round) []).flatMap
        (·.2)) = [true, false, true] ∧
      Faithful Sample.oneAccount ([some 1, some 9, some 2].map Sample.round) "G" :=
  ⟨by decide +kernel, faithful_of_attended _ _ (by
    refine ⟨?_, ?_, ?_, trivial⟩ <;> decide +kernel)⟩

/-- An account that could not be read in between is announced as low twice. -/
theorem not_faithful : ¬ ∀ cfg rounds a, Faithful cfg rounds a := by
  intro h
  have halternate := (h Sample.oneAccount ([some 1, none, some 2].map Sample.round) "G").alternate
  revert halternate
  decide +kernel

/-- An account that is read as low while the network is congested is announced as recovered. -/
theorem recovered_while_low : ∃ rounds result,
    .recovered result ∈ (emitted Sample.oneAccount rounds []).flatMap (·.2) ∧
      result.currentBalance < result.minimumRequired := by
  refine ⟨[Sample.round (some 1), { Sample.round (some 1) with isNetworkCongested := true }],
    ⟨"G", 1, 5, true, 0⟩, ?_, ?_⟩ <;> decide +kernel

end Ahjoor.BalanceMonitor
