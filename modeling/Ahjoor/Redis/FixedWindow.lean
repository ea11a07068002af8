import Ahjoor.Redis.Keyspace
import Mathlib

/-!
# Counting in fixed windows

A counter that is created by a hit and expires `ttl` after it. `numbered` gives each hit its number
within its window. However the hits fall, at most `2 * limit - 1` of those in an interval of length
`ttl` have a number up to `limit` (`early_numbered_le`), and a hit with the number `n` has `n` hits
around it in such an interval (`exists_of_mem_numbered`).

`incr_of_holds` connects this to `INCR`.
-/

namespace Redis.FixedWindow

/-- **A window**: its hits so far, and its last moment. -/
structure Window where
  hits : ℕ
  last : ℤ
  deriving DecidableEq

/-- The window after a hit: the one that is still open, or a new one. -/
def hit (ttl now : ℤ) : Option Window → Window
  | none => ⟨1, now + ttl⟩
  | some w => if now ≤ w.last then ⟨w.hits + 1, w.last⟩ else ⟨1, now + ttl⟩

/-- The window after hits at these times (the last one first). -/
def after (ttl : ℤ) : List ℤ → Option Window
  | [] => none
  | now :: times => some (hit ttl now (after ttl times))

/-- The hits, each with its number in its window. -/
def numbered (ttl : ℤ) : List ℤ → List (ℤ × ℕ)
  | [] => []
  | now :: times => (now, (hit ttl now (after ttl times)).hits) :: numbered ttl times

/-- How many hits between `s` and `t` are numbered up to `limit`. -/
def early (limit : ℕ) (s t : ℤ) (hits : List (ℤ × ℕ)) : ℕ :=
  hits.countP fun x => x.2 ≤ limit ∧ s ≤ x.1 ∧ x.1 ≤ t

/-- How many times lie between `s` and `t`. -/
def between (s t : ℤ) (times : List ℤ) : ℕ := times.countP fun x => s ≤ x ∧ x ≤ t

section Numbered

variable {ttl : ℤ} {limit : ℕ} {times : List ℤ} {now s t : ℤ} {n : ℕ} {w : Window}

@[simp]
theorem map_numbered (ttl : ℤ) (times : List ℤ) : (numbered ttl times).map Prod.fst = times := by
  induction times with
  | nil => rfl
  | cons now times ih => rw [numbered, List.map_cons, ih]

theorem fst_mem_of_mem_numbered {x : ℤ × ℕ} (h : x ∈ numbered ttl times) : x.1 ∈ times := by
  rw [← map_numbered ttl times]
  exact List.mem_map_of_mem h

/-- What a hit does to the window. -/
theorem hit_cases (ttl now : ℤ) (o : Option Window) :
    (∃ w, o = some w ∧ now ≤ w.last ∧ hit ttl now o = ⟨w.hits + 1, w.last⟩) ∨
      ((∀ w, o = some w → w.last < now) ∧ hit ttl now o = ⟨1, now + ttl⟩) := by
  cases o with
  | none => exact .inr ⟨nofun, rfl⟩
  | some w =>
    by_cases hopen : now ≤ w.last
    · exact .inl ⟨w, rfl, hopen, if_pos hopen⟩
    · refine .inr ⟨fun w' h => ?_, if_neg hopen⟩
      obtain rfl := Option.some.inj h
      exact not_le.mp hopen

theorem early_cons (limit : ℕ) (s t : ℤ) (x : ℤ × ℕ) (hits : List (ℤ × ℕ)) :
    early limit s t (x :: hits) =
      early limit s t hits + if x.2 ≤ limit ∧ s ≤ x.1 ∧ x.1 ≤ t then 1 else 0 := by
  simp [early, List.countP_cons]

theorem between_cons (s t x : ℤ) (times : List ℤ) :
    between s t (x :: times) = between s t times + if s ≤ x ∧ x ≤ t then 1 else 0 := by
  simp [between, List.countP_cons]

/-- An interval that is cut in two. -/
theorem early_le_add (limit : ℕ) (s t u : ℤ) (hits : List (ℤ × ℕ)) :
    early limit s t hits ≤ early limit s (u - 1) hits + early limit u t hits := by
  induction hits with
  | nil => exact Nat.zero_le _
  | cons x hits ih =>
    simp only [early_cons]
    split_ifs <;> omega

/-- More is counted in a longer interval. -/
theorem early_mono {s' t' : ℤ} {hits : List (ℤ × ℕ)}
    (h : ∀ x ∈ hits, s ≤ x.1 → x.1 ≤ t → s' ≤ x.1 ∧ x.1 ≤ t') :
    early limit s t hits ≤ early limit s' t' hits := by
  refine List.countP_mono_left fun x hx hcounted => ?_
  obtain ⟨hlimit, hs, ht⟩ := of_decide_eq_true hcounted
  exact decide_eq_true ⟨hlimit, h x hx hs ht⟩

/-- **What the hits so far have counted**, where the window is `w`. -/
structure Numbered (ttl : ℤ) (limit : ℕ) (times : List ℤ) (w : Window) : Prop where
  le_last : ∀ x ∈ times, x ≤ w.last
  pos : 1 ≤ w.hits
  /-- this window -/
  here : early limit (w.last - ttl) w.last (numbered ttl times) ≤ min w.hits limit
  /-- this window without the hits at its first moment -/
  later : early limit (w.last - ttl + 1) w.last (numbered ttl times) + 1 ≤ min w.hits limit
  /-- an interval that reaches this window from before it -/
  before : ∀ s, w.last - ttl ≤ s + ttl →
    early limit s (w.last - ttl - 1) (numbered ttl times) + 1 ≤ limit
  atMost : ∀ t, early limit (t - ttl) t (numbered ttl times) + 1 ≤ 2 * limit
  many : w.hits ≤ between (w.last - ttl) w.last times

theorem Numbered.exists_mem (h : Numbered ttl limit times w) :
    ∃ x ∈ times, w.last - ttl ≤ x := by
  obtain ⟨x, hx, hin⟩ := List.countP_pos_iff.mp (h.pos.trans h.many)
  exact ⟨x, hx, (of_decide_eq_true hin).1⟩

/-- What is counted in any interval, once the window and what lies before it are counted. -/
theorem atMost_of_window {hits : List (ℤ × ℕ)} (hlast : ∀ x ∈ hits, x.1 ≤ w.last)
    (hhere : early limit (w.last - ttl) w.last hits ≤ limit)
    (hbefore : ∀ s, w.last - ttl ≤ s + ttl → early limit s (w.last - ttl - 1) hits + 1 ≤ limit)
    (ht : w.last - ttl ≤ t) : early limit (t - ttl) t hits + 1 ≤ 2 * limit := by
  have hcut := early_le_add limit (t - ttl) t (w.last - ttl) hits
  have hpast := hbefore (t - ttl) (by omega)
  have hrest : early limit (w.last - ttl) t hits ≤ early limit (w.last - ttl) w.last hits :=
    early_mono fun x hx hs _ => ⟨hs, hlast x hx⟩
  omega

/-- **A hit in an open window.** -/
theorem Numbered.again (h : Numbered ttl limit times w) (hasc : ∀ x ∈ times, x ≤ now)
    (hopen : now ≤ w.last) (hnumbered : numbered ttl (now :: times) =
      (now, w.hits + 1) :: numbered ttl times) :
    Numbered ttl limit (now :: times) ⟨w.hits + 1, w.last⟩ := by
  obtain ⟨x, hx, hstart⟩ := h.exists_mem
  have hnow := hasc x hx
  have hlast : ∀ x ∈ now :: times, x ≤ w.last := List.forall_mem_cons.mpr ⟨hopen, h.le_last⟩
  have hhere : early limit (w.last - ttl) w.last (numbered ttl (now :: times)) ≤
      min (w.hits + 1) limit := by
    have := h.here
    rw [hnumbered, early_cons]
    split_ifs <;> omega
  have hbefore : ∀ s, w.last - ttl ≤ s + ttl →
      early limit s (w.last - ttl - 1) (numbered ttl (now :: times)) + 1 ≤ limit := by
    intro s hs
    have := h.before s hs
    rw [hnumbered, early_cons, if_neg (by omega)]
    exact this
  constructor
  case le_last => exact hlast
  case pos => exact Nat.le_add_left 1 _
  case here => exact hhere
  case later =>
    have := h.later
    rw [hnumbered, early_cons]
    dsimp only
    split_ifs <;> omega
  case before => exact hbefore
  case atMost =>
    intro t
    by_cases ht : now ≤ t
    · exact atMost_of_window (fun x hx => hlast _ (fst_mem_of_mem_numbered hx))
        (hhere.trans (min_le_right _ _)) hbefore (by omega)
    · rw [hnumbered, early_cons, if_neg (by omega)]
      exact h.atMost t
  case many =>
    have hmany := h.many
    rw [between_cons, if_pos (by dsimp only; omega)]
    exact Nat.succ_le_succ hmany

/-- **The first hit** of a window. -/
theorem numbered_first (hlimit : 1 ≤ limit) (httl : 0 ≤ ttl)
    (h : ∀ w, after ttl times = some w → Numbered ttl limit times w ∧ w.last < now)
    (hnone : after ttl times = none → times = [])
    (hnumbered : numbered ttl (now :: times) = (now, 1) :: numbered ttl times) :
    Numbered ttl limit (now :: times) ⟨1, now + ttl⟩ := by
  -- what was hit before was hit before the last moment of the window before
  have hold : (∀ x ∈ times, x < now) ∧
      (∀ s, now ≤ s + ttl → early limit s (now - 1) (numbered ttl times) + 1 ≤ limit) ∧
      ∀ t, early limit (t - ttl) t (numbered ttl times) + 1 ≤ 2 * limit := by
    cases hafter : after ttl times with
    | none =>
      rw [hnone hafter]
      exact ⟨fun x hx => absurd hx List.not_mem_nil, fun s _ => hlimit, fun t => by
        change 0 + 1 ≤ 2 * limit
        omega⟩
    | some w =>
      obtain ⟨hw, hlast⟩ := h w hafter
      refine ⟨fun x hx => (hw.le_last x hx).trans_lt hlast, fun s hs => ?_, hw.atMost⟩
      have hlater : early limit s (now - 1) (numbered ttl times) ≤
          early limit (w.last - ttl + 1) w.last (numbered ttl times) :=
        early_mono fun x hx hs' _ => ⟨by omega, hw.le_last _ (fst_mem_of_mem_numbered hx)⟩
      have := hw.later
      omega
  obtain ⟨hpast, hbeforeOld, hatMostOld⟩ := hold
  have hlast : ∀ x ∈ now :: times, x ≤ now + ttl :=
    List.forall_mem_cons.mpr ⟨by omega, fun x hx => by have := hpast x hx; omega⟩
  have hnew : ∀ s t, now ≤ s → early limit s t (numbered ttl times) = 0 := by
    refine fun s t hs => List.countP_eq_zero.mpr fun x hx hcounted => ?_
    have := hpast x.1 (fst_mem_of_mem_numbered hx)
    have := (of_decide_eq_true hcounted).2.1
    omega
  have hstart : (⟨1, now + ttl⟩ : Window).last - ttl = now := by simp
  have hhere : early limit now (now + ttl) (numbered ttl (now :: times)) ≤ min 1 limit := by
    rw [hnumbered, early_cons, hnew now _ le_rfl]
    split_ifs <;> omega
  have hbefore : ∀ s, now ≤ s + ttl →
      early limit s (now - 1) (numbered ttl (now :: times)) + 1 ≤ limit := by
    intro s hs
    rw [hnumbered, early_cons, if_neg (by omega)]
    exact hbeforeOld s hs
  constructor
  case le_last => exact hlast
  case pos => exact le_rfl
  case here => rwa [hstart]
  case later =>
    rw [hstart, hnumbered, early_cons, hnew (now + 1) _ (by omega), if_neg (by omega)]
    exact le_min le_rfl hlimit
  case before => rwa [hstart]
  case atMost =>
    intro t
    by_cases ht : now ≤ t
    · refine atMost_of_window (w := ⟨1, now + ttl⟩)
        (fun x hx => hlast _ (fst_mem_of_mem_numbered hx)) ?_ ?_ ?_ <;> rw [hstart]
      · exact hhere.trans (min_le_right _ _)
      · exact hbefore
      · exact ht
    · rw [hnumbered, early_cons, if_neg (by omega)]
      exact hatMostOld t
  case many =>
    rw [hstart, between_cons, if_pos ⟨le_rfl, by simpa using httl⟩]
    exact Nat.le_add_left 1 _

theorem eq_nil_of_after_eq_none (h : after ttl times = none) : times = [] := by
  cases times with
  | nil => rfl
  | cons now times => cases h

/-- A window has been hit. -/
theorem pos_of_after (h : after ttl times = some w) : 1 ≤ w.hits := by
  cases times with
  | nil => cases h
  | cons now times =>
    obtain rfl := Option.some.inj h
    rcases hit_cases ttl now (after ttl times) with ⟨w, -, -, hhit⟩ | ⟨-, hhit⟩ <;> rw [hhit]
    exact Nat.le_add_left 1 _

/-- **However the hits fall**, the window has counted them so. -/
theorem numbered_of_after (hlimit : 1 ≤ limit) (httl : 0 ≤ ttl)
    (hasc : times.Pairwise fun x y => y ≤ x) (h : after ttl times = some w) :
    Numbered ttl limit times w := by
  induction times generalizing w with
  | nil => cases h
  | cons now times ih =>
    obtain ⟨hnow, htail⟩ := List.pairwise_cons.mp hasc
    obtain rfl := Option.some.inj h
    have hnumbered : numbered ttl (now :: times) =
        (now, (hit ttl now (after ttl times)).hits) :: numbered ttl times := rfl
    rcases hit_cases ttl now (after ttl times) with ⟨w, hafter, hopen, hhit⟩ | ⟨hpast, hhit⟩
    · rw [hhit] at hnumbered ⊢
      exact (ih htail hafter).again hnow hopen hnumbered
    · rw [hhit] at hnumbered ⊢
      exact numbered_first hlimit httl (fun w hw => ⟨ih htail hw, hpast w hw⟩)
        eq_nil_of_after_eq_none hnumbered

/-- **At most `2 * limit - 1` early hits** in an interval of the window's length. -/
theorem early_numbered_le (hlimit : 1 ≤ limit) (httl : 0 ≤ ttl)
    (hasc : times.Pairwise fun x y => y ≤ x) (t : ℤ) :
    early limit (t - ttl) t (numbered ttl times) + 1 ≤ 2 * limit := by
  cases hafter : after ttl times with
  | none =>
    rw [eq_nil_of_after_eq_none hafter]
    change 0 + 1 ≤ 2 * limit
    omega
  | some w => exact (numbered_of_after hlimit httl hasc hafter).atMost t

/-- **A hit with a high number** is one of many in an interval of the window's length. -/
theorem exists_of_mem_numbered (httl : 0 ≤ ttl) (hasc : times.Pairwise fun x y => y ≤ x)
    (h : (t, n) ∈ numbered ttl times) :
    ∃ u, u - ttl ≤ t ∧ t ≤ u ∧ n ≤ between (u - ttl) u times := by
  induction times with
  | nil => cases h
  | cons now times ih =>
    rcases List.mem_cons.mp h with heq | h
    · obtain ⟨rfl, rfl⟩ := Prod.mk.inj heq
      have hw := @numbered_of_after ttl 1 (t :: times) _ le_rfl httl hasc rfl
      obtain ⟨x, hx, hstart⟩ := hw.exists_mem
      have hle : x ≤ t := by
        rcases List.mem_cons.mp hx with rfl | hx
        · exact le_rfl
        · exact (List.pairwise_cons.mp hasc).1 x hx
      exact ⟨_, hstart.trans hle, hw.le_last t List.mem_cons_self, hw.many⟩
    · obtain ⟨u, hstart, hu, hn⟩ := ih (List.pairwise_cons.mp hasc).2 h
      exact ⟨u, hstart, hu, hn.trans (List.sublist_cons_self now times).countP_le⟩

end Numbered

/-! ### The counter under a key -/

section Keyspace

variable {s : Keyspace} {key : String} {now : ℤ} {o : Option Window}

/-- What the key of a window holds. -/
def Window.entry (w : Window) : Entry := ⟨.str (toString (w.hits : ℤ)), some w.last⟩

/-- The key holds this window, or nothing. -/
def Holds (s : Keyspace) (key : String) (o : Option Window) : Prop := s key = o.map Window.entry

theorem integer?_toString {n : ℤ} (hlow : -2 ^ 63 ≤ n) (hhigh : n < 2 ^ 63) :
    integer? (toString n) = .ok n := by
  have hparse : (toString n).toInt? = some n := Int.toInt?_repr n
  rw [integer?, hparse]
  exact if_pos ⟨rfl, hlow, hhigh⟩

/-- The number of an overfull counter cannot be read. -/
theorem integer?_error {n : ℤ} (h : ¬(-2 ^ 63 ≤ n ∧ n < 2 ^ 63)) :
    ∃ msg, integer? (toString n) = .error msg := by
  have hparse : (toString n).toInt? = some n := Int.toInt?_repr n
  rw [integer?, hparse]
  exact ⟨_, if_neg fun hn => h hn.2⟩

/-- **What `INCR` does** to a window: it fails on an overfull one and changes nothing, counts a hit
in the open window, or makes a counter that does not expire yet. -/
theorem incr_of_holds (h : Holds s key o) :
    (∃ w msg, o = some w ∧ 2 ^ 63 - 1 ≤ (w.hits : ℤ) ∧ incr now key s = (.error msg, s)) ∨
    (∃ w, o = some w ∧ now ≤ w.last ∧ incr now key s =
      (.ok (w.hits + 1), Function.update s key (some (Window.entry ⟨w.hits + 1, w.last⟩)))) ∨
    ((∀ w, o = some w → w.last < now) ∧
      incr now key s = (.ok 1, Function.update s key (some ⟨.str "1", none⟩))) := by
  have hnew : s.live now key = none →
      incr now key s = (.ok 1, Function.update s key (some ⟨.str "1", none⟩)) := by
    intro hlive
    rw [incr, hlive]
  cases o with
  | none =>
    refine .inr (.inr ⟨nofun, hnew ?_⟩)
    rw [Keyspace.live, h]
    rfl
  | some w =>
    by_cases hopen : now ≤ w.last
    · have hlive : s.live now key = some w.entry := by
        rw [Keyspace.live, h]
        exact Option.filter_eq_some_iff.mpr ⟨rfl, decide_eq_true hopen⟩
      by_cases hrange : (-2 ^ 63 : ℤ) ≤ w.hits ∧ (w.hits : ℤ) < 2 ^ 63
      · have hread := integer?_toString hrange.1 hrange.2
        by_cases hfull : (w.hits : ℤ) = 2 ^ 63 - 1
        · refine .inl ⟨w, "ERR increment or decrement would overflow", rfl, hfull.ge, ?_⟩
          rw [incr, hlive]
          simp only [Window.entry, hread, if_pos hfull]
        · refine .inr (.inl ⟨w, rfl, hopen, ?_⟩)
          rw [incr, hlive]
          simp only [Window.entry, hread, if_neg hfull, Nat.cast_succ]
      · obtain ⟨msg, hmsg⟩ := integer?_error hrange
        refine .inl ⟨w, msg, rfl, by omega, ?_⟩
        rw [incr, hlive]
        simp only [Window.entry, hmsg]
    · refine .inr (.inr ⟨fun w' hw' => ?_, hnew ?_⟩)
      · obtain rfl := Option.some.inj hw'
        exact not_le.mp hopen
      · rw [Keyspace.live, h]
        exact Option.filter_eq_none_iff.mpr fun e he hlive => by
          obtain rfl := Option.some.inj he
          exact hopen (of_decide_eq_true hlive)

/-- The key of a window that has been stored. -/
theorem holds_update (s : Keyspace) (key : String) (w : Window) :
    Holds (Function.update s key (some w.entry)) key (some w) :=
  Function.update_self ..

/-- Setting the expiry of a new counter opens a window. -/
theorem pexpire_new {ttl : ℤ} (httl : 0 < ttl) :
    pexpire now key ttl (Function.update s key (some ⟨.str "1", none⟩)) =
      (.ok true, Function.update s key (some (Window.entry ⟨1, now + ttl⟩))) := by
  have hlive : Keyspace.live (Function.update s key (some ⟨.str "1", none⟩)) now key =
      some ⟨.str "1", none⟩ := by
    rw [live_update_self]
    rfl
  have hone : toString ((1 : ℕ) : ℤ) = "1" := by decide
  rw [pexpire_apply hlive httl, Function.update_idem, Window.entry, hone]

end Keyspace

end Redis.FixedWindow
