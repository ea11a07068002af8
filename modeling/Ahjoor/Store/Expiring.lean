import Mathlib.Logic.Function.Basic
import Mathlib.Data.Int.Notation

/-!
# Caches whose entries expire

A cache holds a value under a key together with the moment from which on it is no longer served.
What is served has been stored less than the lifetime of an entry ago; how old the value was when it
was stored is no matter of the cache. So what is known of the entries is a predicate on key, value
and expiry (`Backed`) that each store has to establish, and that every answer hands on.
-/

namespace Store

/-- A value, and the moment from which on it is no longer served. -/
structure Expiring (α : Type) where
  value : α
  expiresAt : ℤ
  deriving DecidableEq

/-- What is cached under each key. -/
abbrev Cache (κ α : Type) := κ → Option (Expiring α)

namespace Cache

variable {κ α : Type}

/-- What the cache answers at a moment. -/
def serve (c : Cache κ α) (k : κ) (now : ℤ) : Option α :=
  (c k).bind fun e => if now < e.expiresAt then some e.value else none

section Updates

variable [DecidableEq κ]

/-- The cache with a value stored for a time. -/
def store (c : Cache κ α) (k : κ) (a : α) (expiresAt : ℤ) : Cache κ α :=
  Function.update c k (some ⟨a, expiresAt⟩)

/-- The cache without an entry for the key. -/
def forget (c : Cache κ α) (k : κ) : Cache κ α := Function.update c k none

end Updates

/-! ### What is known of the entries -/

/-- Every entry is backed by `P`. -/
def Backed (P : κ → α → ℤ → Prop) (c : Cache κ α) : Prop :=
  ∀ k e, c k = some e → P k e.value e.expiresAt

variable {P P' : κ → α → ℤ → Prop} {c : Cache κ α} {k : κ} {a : α} {now expiresAt : ℤ}

theorem backed_empty : Backed P (fun _ => none : Cache κ α) := fun _ _ h => by cases h

theorem Backed.mono (h : c.Backed P) (hP : ∀ k a t, P k a t → P' k a t) : c.Backed P' :=
  fun k e he => hP _ _ _ (h k e he)

/-- **What is served is backed**, and has not expired. -/
theorem Backed.serve (h : c.Backed P) (hs : c.serve k now = some a) :
    ∃ expiresAt, now < expiresAt ∧ P k a expiresAt := by
  obtain ⟨e, he, hfresh⟩ := Option.bind_eq_some_iff.mp hs
  split at hfresh
  · next hlt =>
    cases hfresh
    exact ⟨e.expiresAt, hlt, h k e he⟩
  · cases hfresh

variable [DecidableEq κ]

theorem Backed.store (h : c.Backed P) (hP : P k a expiresAt) :
    Backed P (c.store k a expiresAt) := by
  intro k' e he
  rcases eq_or_ne k' k with rfl | hne
  · obtain rfl : (⟨a, expiresAt⟩ : Expiring α) = e := by simpa [Cache.store] using he
    exact hP
  · exact h k' e (by simpa [Cache.store, hne] using he)

theorem Backed.forget (h : c.Backed P) : Backed P (c.forget k) := by
  intro k' e he
  rcases eq_or_ne k' k with rfl | hne
  · simp [Cache.forget] at he
  · exact h k' e (by simpa [Cache.forget, hne] using he)

end Cache

end Store
