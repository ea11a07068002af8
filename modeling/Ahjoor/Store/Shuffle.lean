import Mathlib.Data.List.Nodup
import Mathlib.Data.List.Perm.Lattice
import Mathlib.Order.Nat

/-!
# The shuffle in place

From the last place of a list down, each place is exchanged with a drawn one that does not lie
behind it. The shuffle permutes the list, and when its entries are distinct, each permutation comes
from one sequence of draws.

**The induction is on the number of places**: the first exchange settles the last place, and what
follows shuffles the list in front of it (`shuffle_succ`).
-/

namespace Shuffle

variable {α : Type} {draw draw' : ℕ → ℕ} {l t : List α} {i j n : ℕ}

/-- Exchange two places of a list. -/
def exchange (l : List α) (i j : ℕ) : List α :=
  match l[i]?, l[j]? with
  | some a, some b => (l.set i b).set j a
  | _, _ => l

/-- Shuffle the first `n` places, the last of them first. -/
def shuffle (draw : ℕ → ℕ) : ℕ → List α → List α
  | 0, l => l
  | n + 1, l => shuffle draw n (exchange l n (draw n))

/-- Each of the first `n` places draws itself or a place in front of it. -/
def Draws (n : ℕ) (draw : ℕ → ℕ) : Prop := ∀ i < n, draw i ≤ i

/-! ### Exchanges -/

theorem exchange_eq (hi : i < l.length) (hj : j < l.length) :
    exchange l i j = (l.set i l[j]).set j l[i] := by
  rw [exchange, List.getElem?_eq_getElem hi, List.getElem?_eq_getElem hj]

theorem exchange_self (l : List α) (i : ℕ) : exchange l i i = l := by
  rw [exchange]
  cases h : l[i]? with
  | none => rfl
  | some a =>
    obtain ⟨hi, rfl⟩ := List.getElem?_eq_some_iff.mp h
    simp only [List.set_getElem_self]

/-- An exchange permutes. -/
theorem exchange_perm (l : List α) (i j : ℕ) : (exchange l i j).Perm l := by
  rw [exchange]
  split
  next a b ha hb =>
    obtain ⟨hi, rfl⟩ := List.getElem?_eq_some_iff.mp ha
    obtain ⟨hj, rfl⟩ := List.getElem?_eq_some_iff.mp hb
    exact List.set_set_perm hi hj
  next => exact .refl l

theorem exchange_append (hi : i < l.length) (hj : j < l.length) :
    exchange (l ++ t) i j = exchange l i j ++ t := by
  have hi' : i < (l ++ t).length := by
    rw [List.length_append]
    omega
  have hj' : j < (l ++ t).length := by
    rw [List.length_append]
    omega
  rw [exchange_eq hi hj, exchange_eq hi' hj', List.getElem_append_left hi,
    List.getElem_append_left hj, List.set_append_left i _ hi,
    List.set_append_left j _ (by rwa [List.length_set])]

/-- After an exchange with the last place, it has the drawn entry. -/
theorem exchange_last (hlength : l.length = n + 1) (hj : j ≤ n) :
    ∃ hj' : j < l.length, exchange l n j = (exchange l n j).dropLast ++ [l[j]] := by
  have hn : n < l.length := hlength ▸ n.lt_succ_self
  have hj' : j < l.length := lt_of_le_of_lt hj hn
  have hlast : (exchange l n j)[n]? = some l[j] := by
    rw [exchange_eq hn hj', List.getElem?_set, List.getElem?_set]
    by_cases hjn : j = n
    · subst hjn
      simp [hn]
    · rw [if_neg hjn, if_pos rfl, if_pos hn]
  have hlength' : (exchange l n j).length = n + 1 := (exchange_perm l n j).length_eq.trans hlength
  refine ⟨hj', ?_⟩
  have hne : exchange l n j ≠ [] := List.ne_nil_of_length_eq_add_one hlength'
  have hget : (exchange l n j).getLast hne = l[j] := by
    rw [List.getLast_eq_getElem]
    refine Option.some.inj ((List.getElem?_eq_getElem _).symm.trans ?_)
    rw [hlength', Nat.add_sub_cancel]
    exact hlast
  rw [← hget, List.dropLast_append_getLast hne]

/-! ### The shuffle -/

/-- **The shuffle** permutes. -/
theorem shuffle_perm (draw : ℕ → ℕ) (n : ℕ) (l : List α) : (shuffle draw n l).Perm l := by
  induction n generalizing l with
  | zero => exact .refl l
  | succ n ih => exact (ih _).trans (exchange_perm l n (draw n))

theorem shuffle_congr (h : ∀ i < n, draw i = draw' i) (l : List α) :
    shuffle draw n l = shuffle draw' n l := by
  induction n generalizing l with
  | zero => rfl
  | succ n ih =>
    rw [shuffle, shuffle, h n n.lt_succ_self]
    exact ih (fun i hi => h i (Nat.lt_succ_of_lt hi)) _

theorem Draws.of_succ (h : Draws (n + 1) draw) : Draws n draw :=
  fun i hi => h i (Nat.lt_succ_of_lt hi)

theorem Draws.update (h : Draws n draw) (hj : j ≤ n) :
    Draws (n + 1) (Function.update draw n j) := by
  intro i hi
  rcases Nat.lt_succ_iff_lt_or_eq.mp hi with hlt | rfl
  · rw [Function.update_of_ne (ne_of_lt hlt)]
    exact h i hlt
  · rwa [Function.update_self]

/-- What lies behind the shuffled places stays there. -/
theorem shuffle_append (h : Draws n draw) (hn : n ≤ l.length) :
    shuffle draw n (l ++ t) = shuffle draw n l ++ t := by
  induction n generalizing l with
  | zero => rfl
  | succ n ih =>
    have hj : draw n < l.length := lt_of_le_of_lt (h n n.lt_succ_self) hn
    rw [shuffle, shuffle, exchange_append hn hj, ih h.of_succ]
    rw [(exchange_perm l n (draw n)).length_eq]
    exact Nat.le_of_succ_le hn

/-- **The first exchange settles the last place.** -/
theorem shuffle_succ (h : Draws (n + 1) draw) (hlength : l.length = n + 1) :
    ∃ hj : draw n < l.length, shuffle draw (n + 1) l =
      shuffle draw n (exchange l n (draw n)).dropLast ++ [l[draw n]] := by
  obtain ⟨hj, hlast⟩ := exchange_last hlength (h n n.lt_succ_self)
  have hlength' : (exchange l n (draw n)).length = n + 1 :=
    (exchange_perm l n (draw n)).length_eq.trans hlength
  refine ⟨hj, ?_⟩
  rw [← shuffle_append h.of_succ (by rw [List.length_dropLast]; omega), ← hlast, shuffle]

/-- The rest after the exchange is what is left without the drawn entry. -/
theorem exchange_dropLast_perm (hlength : l.length = n + 1) (hj : j ≤ n) :
    ∃ hj' : j < l.length, ((exchange l n j).dropLast ++ [l[j]]).Perm l := by
  obtain ⟨hj', hlast⟩ := exchange_last hlength hj
  exact ⟨hj', hlast ▸ exchange_perm l n j⟩

theorem nodup_exchange_dropLast (hl : l.Nodup) : (exchange l n j).dropLast.Nodup :=
  ((exchange_perm l n j).nodup_iff.mpr hl).sublist (List.dropLast_sublist _)

theorem length_exchange_dropLast (hlength : l.length = n + 1) :
    (exchange l n j).dropLast.length = n := by
  rw [List.length_dropLast, (exchange_perm l n j).length_eq, hlength, Nat.add_sub_cancel]

/-- **Two sequences of draws** that shuffle distinct entries alike are the same. -/
theorem eq_of_shuffle_eq (h : Draws n draw) (h' : Draws n draw') (hl : l.Nodup)
    (hlength : l.length = n) (heq : shuffle draw n l = shuffle draw' n l) :
    ∀ i < n, draw i = draw' i := by
  induction n generalizing l with
  | zero => exact fun i hi => absurd hi i.not_lt_zero
  | succ n ih =>
    obtain ⟨hj, hshuffle⟩ := shuffle_succ h hlength
    obtain ⟨hj', hshuffle'⟩ := shuffle_succ h' hlength
    rw [hshuffle, hshuffle'] at heq
    obtain ⟨hfront, hlast⟩ := List.append_inj' heq rfl
    have hdraw : draw n = draw' n := (hl.getElem_inj_iff).mp (List.cons.inj hlast).1
    rw [← hdraw] at hfront
    have hrest := ih h.of_succ h'.of_succ (nodup_exchange_dropLast hl)
      (length_exchange_dropLast hlength) hfront
    intro i hi
    rcases Nat.lt_succ_iff_lt_or_eq.mp hi with hlt | rfl
    · exact hrest i hlt
    · exact hdraw

/-- **Every permutation** comes from a sequence of draws. -/
theorem exists_shuffle_eq {r : List α} (hperm : r.Perm l) (hlength : l.length = n) :
    ∃ draw, Draws n draw ∧ shuffle draw n l = r := by
  induction n generalizing l r with
  | zero =>
    rw [List.length_eq_zero_iff] at hlength
    subst hlength
    exact ⟨id, fun i _ => le_rfl, (List.perm_nil.mp hperm).symm⟩
  | succ n ih =>
    have hne : r ≠ [] := List.ne_nil_of_length_eq_add_one (hperm.length_eq.trans hlength)
    -- the last entry of the permutation says what the last place draws
    obtain ⟨j, hj, hget⟩ := List.mem_iff_getElem.mp (hperm.mem_iff.mp (List.getLast_mem hne))
    have hjn : j ≤ n := by omega
    obtain ⟨_, hrest⟩ := exchange_dropLast_perm hlength hjn
    have hfront : r.dropLast.Perm (exchange l n j).dropLast := by
      refine (List.perm_append_right_iff [l[j]]).mp (List.Perm.trans ?_ hrest.symm)
      rw [hget, List.dropLast_append_getLast hne]
      exact hperm
    obtain ⟨draw, hdraws, hshuffle⟩ := ih hfront (length_exchange_dropLast hlength)
    have hdraws' : Draws (n + 1) (Function.update draw n j) := hdraws.update hjn
    obtain ⟨hj', hstep⟩ := shuffle_succ hdraws' hlength
    have hsame : ∀ i < n, Function.update draw n j i = draw i := fun i hi =>
      Function.update_of_ne (ne_of_lt hi) j draw
    have hentry : l[Function.update draw n j n] = r.getLast hne := by
      simp only [Function.update_self, hget]
    refine ⟨Function.update draw n j, hdraws', ?_⟩
    rw [hstep, shuffle_congr hsame, hentry, Function.update_self, hshuffle,
      List.dropLast_append_getLast hne]

end Shuffle
