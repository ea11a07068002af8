import Ahjoor.Members.Saving

/-!
# Transactions that hold the lock of the group

Additions and admissions lock the group before they count and insert. What they may expect of each
other has the same shape whatever is to be kept: each call changes the tables in ways that the
others can bear, and **while a transaction holds the lock, the others do less**. Here are the rules
for such transactions; what is borne, and what a transaction knows of the tables under its lock,
are parameters.
-/

namespace Ahjoor.Members

open Async

/-- What the calls do to the tables (`offers`), what each of them can bear of the others at any
time (`bears`), and what the others do while it holds the lock of the group (`spares`). -/
structure Manners where
  offers : Tables → Tables → Prop
  bears : Tables → Tables → Prop
  spares : Tables → Tables → Prop
  bears_of_offers : ∀ {d d'}, offers d d' → bears d d'
  offers_refl : ∀ d, offers d d
  spares_refl : ∀ d, spares d d
  bears_trans : ∀ {d₁ d₂ d₃}, bears d₁ d₂ → bears d₂ d₃ → bears d₁ d₃
  spares_trans : ∀ {d₁ d₂ d₃}, spares d₁ d₂ → spares d₂ d₃ → spares d₁ d₃

namespace Manners

variable (M : Manners)

/-- What the others leave to the transaction of `pid`: unless the database has dropped it, it is as
it was, and it is spared under its lock. -/
def Undisturbed (pid : ℕ) (w w' : World) : Prop :=
  w'.pending pid = none ∨ (w'.pending pid = w.pending pid ∧
    (w.groupHolder = some pid → w'.groupHolder = some pid ∧ M.spares w.tables w'.tables))

variable {M} in
theorem Undisturbed.trans {pid : ℕ} {w₁ w₂ w₃ : World} (h : M.Undisturbed pid w₁ w₂)
    (h' : M.Undisturbed pid w₂ w₃) : M.Undisturbed pid w₁ w₃ := by
  rcases h' with hnone | ⟨hpending', hholder'⟩
  · exact .inl hnone
  rcases h with hnone | ⟨hpending, hholder⟩
  · exact .inl (hpending'.trans hnone)
  refine .inr ⟨hpending'.trans hpending, fun hheld => ?_⟩
  obtain ⟨hheld₂, hspares⟩ := hholder hheld
  obtain ⟨hheld₃, hspares'⟩ := hholder' hheld₂
  exact ⟨hheld₃, M.spares_trans hspares hspares'⟩

/-- The contract of a call. -/
def contract (pid : ℕ) : Contract Op.Ret World where
  rely w w' := M.bears w.tables w'.tables ∧ M.Undisturbed pid w w'
  guarantee w w' := M.offers w.tables w'.tables ∧ ∀ p, p ≠ pid → M.Undisturbed p w w'
  expects _ _ _ := True
  asserts _ _ _ := True
  rely_refl _ := ⟨M.bears_of_offers (M.offers_refl _), .inr ⟨rfl, fun h => ⟨h, M.spares_refl _⟩⟩⟩
  rely_trans h h' := ⟨M.bears_trans h.1 h'.1, h.2.trans h'.2⟩

variable {M} {missing : OnMissing} {pid : ℕ} {w w' : World}

/-- What leaves the tables alone, and the transactions and the lock of the others. -/
theorem guarantee_of_tables (htables : w'.tables = w.tables)
    (hothers : ∀ p, p ≠ pid → w'.pending p = none ∨ (w'.pending p = w.pending p ∧
      (w.groupHolder = some p → w'.groupHolder = some p))) :
    (M.contract pid).guarantee w w' := by
  refine ⟨htables ▸ M.offers_refl _, fun p hp => ?_⟩
  rcases hothers p hp with hnone | ⟨hpending, hholder⟩
  · exact .inl hnone
  · exact .inr ⟨hpending, fun h => ⟨hholder h, htables ▸ M.spares_refl _⟩⟩

theorem guarantee_refl (w : World) : (M.contract pid).guarantee w w :=
  guarantee_of_tables rfl fun _ _ => .inr ⟨rfl, id⟩

theorem guarantee_hold (w : World) (xs : List Write) :
    (M.contract pid).guarantee w (w.hold pid xs) :=
  guarantee_of_tables rfl fun _ hp => .inr ⟨Function.update_of_ne hp _ _, id⟩

theorem guarantee_release (w : World) (p : ℕ) : (M.contract pid).guarantee w (w.release p) :=
  guarantee_of_tables rfl fun q _ => kept_release w p q

theorem guarantee_lockGroup (hheld : w.groupHeld pid = false) :
    (M.contract pid).guarantee w (w.lockGroup pid) := by
  refine guarantee_of_tables rfl fun p hp => .inr ⟨rfl, fun hholder => ?_⟩
  rw [World.groupHeld, hholder] at hheld
  exact absurd hheld (by simpa using hp)

/-- A statement outside any transaction that a transaction under its lock can bear. -/
theorem guarantee_execute {x : Write}
    (hoffers : M.offers w.tables (w.tables.commit missing [x]))
    (hspares : M.spares w.tables (w.tables.commit missing [x])) :
    (M.contract pid).guarantee w (w.execute missing (.write x)) := by
  cases hconflict : w.tables.conflict missing x with
  | some constraint =>
    rw [execute_refused hconflict]
    exact guarantee_refl w
  | none =>
    rw [execute_write hconflict]
    exact ⟨hoffers, fun p _ => .inr ⟨rfl, fun h => ⟨h, hspares⟩⟩⟩

/-- A commit under the lock. -/
theorem guarantee_commit {xs : List Write}
    (hoffers : M.offers w.tables (w.tables.commit missing xs))
    (hspares : w.groupHolder = some pid ∨ M.spares w.tables (w.tables.commit missing xs)) :
    (M.contract pid).guarantee w (w.commit missing pid xs) := by
  refine ⟨hoffers, fun p hp => .inr ⟨Function.update_of_ne hp _ _, fun hheld => ?_⟩⟩
  have hother : w.groupHolder ≠ some pid := fun h => hp (Option.some.inj (hheld.symm.trans h))
  exact ⟨(if_neg hother).trans hheld, hspares.resolve_left hother⟩

variable (M missing) in
/-- The operation is outside any transaction, and what it writes is within the contract where `K`
holds. -/
def Permits (K : Tables → Prop) : Op → Prop
  | .db (.write x) => ∀ d, K d →
      M.offers d (d.commit missing [x]) ∧ M.spares d (d.commit missing [x])
  | .db _ | .notify _ | .deployRoscaContract _ | .dispatchEvent _ => True
  | _ => False

theorem permits_of_isRead {K : Tables → Prop} {q : Query} (hq : q.isRead = true) :
    M.Permits missing K (.db q) := by
  cases q with
  | write x => cases hq
  | _ => trivial

theorem Permits.step {K : Tables → Prop} (hK : ∀ {d d'}, M.bears d d' → K d → K d') {o : Op}
    (ho : M.Permits missing K o) (hw : K w.tables) {choice : Choice} {r : o.Ret}
    (hexec : exec missing o pid choice w = some (r, w')) :
    (M.contract pid).guarantee w w' ∧ K w'.tables := by
  have hexternal : o.isExternal = true → (M.contract pid).guarantee w w' ∧ K w'.tables := by
    intro h
    obtain rfl := exec_external h hexec
    exact ⟨guarantee_refl w', hw⟩
  cases o with
  | db q =>
    rcases exec_db hexec with ⟨rfl, -⟩ | ⟨-, rfl, -⟩
    · exact ⟨guarantee_refl w', hw⟩
    cases q with
    | write x =>
      obtain ⟨hoffers, hspares⟩ := ho w.tables hw
      have hguarantee : (M.contract pid).guarantee w (w.execute missing (.write x)) :=
        guarantee_execute hoffers hspares
      exact ⟨hguarantee, hK (M.bears_of_offers hguarantee.1) hw⟩
    | _ => exact ⟨guarantee_refl w, hw⟩
  | notify n => exact hexternal rfl
  | deployRoscaContract group => exact hexternal rfl
  | dispatchEvent event => exact hexternal rfl
  | _ => exact ho.elim

/-- **Outside transactions**, what is permitted keeps the contract. -/
theorem meets_permitted {K : Tables → Prop} {L : Log Op.Ret} {α : Type} {m : Service α}
    (hK : ∀ {d d'}, M.bears d d' → K d → K d') (hm : Routine.Uses (M.Permits missing K) m)
    (hw : K w.tables) :
    Meets (exec missing) pid (M.contract pid) m (EndsIn fun w => K w.tables)
      (EndsIn fun w => K w.tables) () L w :=
  (Meets.of_uses (C := M.contract pid) (J := fun w => K w.tables) hm (fun _ _ hw h => hK h.1 hw)
    (fun _ _ _ ho hw => ⟨trivial, fun _ _ _ _ hexec => ho.step hK hw hexec⟩) hw).mono
    (fun _ _ _ _ h => h.2) fun _ _ _ _ h => h.2

end Manners

/-! ### What a transaction knows -/

/-- The transaction of `pid` has written nothing yet. -/
structure Unwritten (J : Tables → Prop) (pid : ℕ) (w : World) : Prop where
  sound : J w.tables
  nothing : ∀ xs, w.pending pid = some xs → xs = []

/-- The transaction of `pid`, unless the database has dropped it, holds the lock of the group and
the writes back, and knows `P` of the tables. -/
structure Holds (J P : Tables → Prop) (pid : ℕ) (xs : List Write) (w : World) : Prop where
  sound : J w.tables
  held : ∀ ys, w.pending pid = some ys → ys = xs ∧ w.groupHolder = some pid ∧ P w.tables

/-- The transaction of `pid` may be committed: it has written nothing, or under the lock of the
group what `C` permits. -/
structure Committable (J : Tables → Prop) (C : List Write → Tables → Prop) (pid : ℕ) (w : World) :
    Prop where
  sound : J w.tables
  writes : ∀ xs, w.pending pid = some xs → xs = [] ∨ (w.groupHolder = some pid ∧ C xs w.tables)

section Transactions

variable {M : Manners} {missing : OnMissing} {pid : ℕ} {w w' : World} {L : Log Op.Ret} {α : Type}
  {J P : Tables → Prop} {C : List Write → Tables → Prop} {xs : List Write}

/-- What is known under the lock withstands the others. -/
def Manners.Withstands (M : Manners) (P : Tables → Prop) : Prop :=
  ∀ {d d'}, M.bears d d' → M.spares d d' → P d → P d'

theorem Unwritten.stable (hJ : ∀ {d d'}, M.bears d d' → J d → J d') (hw : Unwritten J pid w)
    (h : (M.contract pid).rely w w') : Unwritten J pid w' := by
  refine ⟨hJ h.1 hw.sound, fun ys hys => ?_⟩
  rcases h.2 with hnone | ⟨hpending, -⟩
  · rw [hnone] at hys
    cases hys
  · exact hw.nothing ys (hpending ▸ hys)

theorem Holds.stable (hJ : ∀ {d d'}, M.bears d d' → J d → J d') (hP : M.Withstands P)
    (hw : Holds J P pid xs w) (h : (M.contract pid).rely w w') : Holds J P pid xs w' := by
  refine ⟨hJ h.1 hw.sound, fun ys hys => ?_⟩
  rcases h.2 with hnone | ⟨hpending, hholder⟩
  · rw [hnone] at hys
    cases hys
  · obtain ⟨hxs, hheld, hknown⟩ := hw.held ys (hpending ▸ hys)
    obtain ⟨hheld', hspares⟩ := hholder hheld
    exact ⟨hxs, hheld', hP h.1 hspares hknown⟩

theorem Committable.stable (hJ : ∀ {d d'}, M.bears d d' → J d → J d')
    (hC : ∀ xs, M.Withstands (C xs)) (hw : Committable J C pid w)
    (h : (M.contract pid).rely w w') : Committable J C pid w' := by
  refine ⟨hJ h.1 hw.sound, fun ys hys => ?_⟩
  rcases h.2 with hnone | ⟨hpending, hholder⟩
  · rw [hnone] at hys
    cases hys
  rcases hw.writes ys (hpending ▸ hys) with hnil | ⟨hheld, hcommits⟩
  · exact .inl hnil
  · obtain ⟨hheld', hspares⟩ := hholder hheld
    exact .inr ⟨hheld', hC ys h.1 hspares hcommits⟩

theorem Unwritten.committable (hw : Unwritten J pid w) : Committable J C pid w :=
  ⟨hw.sound, fun xs hxs => .inl (hw.nothing xs hxs)⟩

theorem Holds.committable (hw : Holds J P pid xs w) (h : ∀ {d}, P d → C xs d) :
    Committable J C pid w := by
  refine ⟨hw.sound, fun ys hys => .inr ?_⟩
  obtain ⟨rfl, hheld, hknown⟩ := hw.held ys hys
  exact ⟨hheld, h hknown⟩

theorem Holds.committable_nil (hw : Holds J P pid [] w) : Committable J C pid w :=
  ⟨hw.sound, fun ys hys => .inl (hw.held ys hys).1⟩

/-! ### Rules -/

variable (hJ : ∀ {d d'}, M.bears d d' → J d → J d')
include hJ

/-- The lock of the group. -/
theorem meets_lockGroup_holds {P : GroupRow → Tables → Prop}
    {Q : Option GroupRow → Unit → Log Op.Ret → World → Prop} (hP : ∀ g, M.Withstands (P g))
    (hw : Unwritten J pid w) (hlock : ∀ g d, J d → d.group = some g → P g d)
    (hnone : ∀ L w, Unwritten J pid w → Q none () L w)
    (hsome : ∀ g L w, Holds J (P g) pid [] w → Q (some g) () L w) :
    Meets (exec missing) pid (M.contract pid) lockGroup Q (EndsIn fun w => J w.tables) () L w := by
  refine Meets.call fun w₁ hrely => ⟨trivial, fun _ choice r w' hexec => ?_⟩
  have hw₁ := hw.stable hJ hrely
  rcases exec_lockGroup hexec with ⟨rfl, e, rfl⟩ | ⟨ys, hys, hheld, rfl, rfl⟩
  · exact ⟨Manners.guarantee_refl w', fun w₂ hrely₂ => hJ hrely₂.1 hw₁.sound⟩
  refine ⟨Manners.guarantee_lockGroup hheld, fun w₂ hrely₂ => ?_⟩
  cases hgroup : w₁.tables.group with
  | none =>
    have hunwritten : Unwritten J pid (w₁.lockGroup pid) := ⟨hw₁.sound, hw₁.nothing⟩
    exact hnone _ w₂ (hunwritten.stable hJ hrely₂)
  | some g =>
    have hholds : Holds J (P g) pid [] (w₁.lockGroup pid) := by
      refine ⟨hw₁.sound, fun zs hzs => ⟨hw₁.nothing zs hzs, ?_, hlock g _ hw₁.sound hgroup⟩⟩
      change (if w₁.tables.group.isSome then some pid else w₁.groupHolder) = _
      rw [hgroup]
      rfl
    exact hsome g _ w₂ (hholds.stable hJ (hP g) hrely₂)

/-- A query inside the transaction. -/
theorem meets_tx_holds {q : Query} {Q : q.Ret → Unit → Log Op.Ret → World → Prop}
    (R : q.Ret → Tables → Prop) (written : List Write) (hP : M.Withstands P)
    (hR : ∀ a, M.Withstands (R a)) (hw : Holds J P pid xs w)
    (hquery : ∀ a d, J d → P d → q.read missing (d.view missing xs) = .ok a →
      (q.writes missing (d.view missing xs)).toList = written ∧ R a d)
    (hok : ∀ a L w, Holds J (R a) pid (xs ++ written) w → Q a () L w) :
    Meets (exec missing) pid (M.contract pid) (tx q) Q (EndsIn fun w => J w.tables) () L w := by
  refine Meets.call fun w₁ hrely => ⟨trivial, fun _ choice r w' hexec => ?_⟩
  have hw₁ := hw.stable hJ hP hrely
  rcases exec_tx hexec with ⟨rfl, e, rfl⟩ | ⟨ys, hys, hr, rfl⟩
  · exact ⟨Manners.guarantee_refl w', fun w₂ hrely₂ => hJ hrely₂.1 hw₁.sound⟩
  obtain ⟨rfl, hlock, hbefore⟩ := hw₁.held ys hys
  refine ⟨Manners.guarantee_hold _ _, fun w₂ hrely₂ => ?_⟩
  cases r with
  | error e => exact hJ hrely₂.1 hw₁.sound
  | ok a =>
    obtain ⟨hwritten, hafter⟩ := hquery a w₁.tables hw₁.sound hbefore hr.symm
    have hholds : Holds J (R a) pid (ys ++ written) (w₁.hold pid (ys ++
        (q.writes missing (w₁.tables.view missing ys)).toList)) := by
      refine ⟨hw₁.sound, fun zs hzs => ?_⟩
      rw [pending_hold, Option.some_inj, hwritten] at hzs
      exact ⟨hzs.symm, hlock, hafter⟩
    exact hok a _ w₂ (hholds.stable hJ (hR a) hrely₂)

/-- Reading inside the transaction. -/
theorem meets_tx_read_holds {q : Query} (hq : q.isRead = true)
    {Q : q.Ret → Unit → Log Op.Ret → World → Prop} (R : q.Ret → Tables → Prop)
    (hP : M.Withstands P) (hR : ∀ a, M.Withstands (R a)) (hw : Holds J P pid xs w)
    (hquery : ∀ a d, J d → P d → q.read missing (d.view missing xs) = .ok a → R a d)
    (hok : ∀ a L w, Holds J (R a) pid xs w → Q a () L w) :
    Meets (exec missing) pid (M.contract pid) (tx q) Q (EndsIn fun w => J w.tables) () L w := by
  refine meets_tx_holds hJ R [] hP hR hw (fun a d hd hknown ha => ?_) fun a L w hw => ?_
  · rw [writes_of_isRead hq]
    exact ⟨rfl, hquery a d hd hknown ha⟩
  · rw [List.append_nil] at hw
    exact hok a L w hw

/-- Writing inside the transaction. -/
theorem meets_tx_write_holds {x : Write} {Q : Unit → Unit → Log Op.Ret → World → Prop}
    {R : Tables → Prop} (hP : M.Withstands P) (hR : M.Withstands R) (hw : Holds J P pid xs w)
    (hwrite : ∀ d, J d → P d → R d)
    (hok : ∀ L w, Holds J R pid (xs ++ [x]) w → Q () () L w) :
    Meets (exec missing) pid (M.contract pid) (tx (.write x)) Q (EndsIn fun w => J w.tables) () L
      w :=
  meets_tx_holds hJ (fun _ => R) [x] hP (fun _ => hR) hw
    (fun _ d hd hknown ha => ⟨congrArg Option.toList (writes_of_read_ok ha), hwrite d hd hknown⟩)
    fun _ L w hw => hok L w hw

/-- The lock of entries that wait. -/
theorem meets_lockWaiting_holds {limit : ℕ} {Q : List WaitlistEntry → Unit → Log Op.Ret → World → Prop}
    {R : List WaitlistEntry → Tables → Prop} (hP : M.Withstands P)
    (hR : ∀ entries, M.Withstands (R entries)) (hw : Holds J P pid [] w)
    (hentries : ∀ d, J d → P d → R (d.nextWaiting limit) d)
    (hok : ∀ entries L w, Holds J (R entries) pid [] w → Q entries () L w) :
    Meets (exec missing) pid (M.contract pid)
      (Routine.call (.lockWaiting limit) fun r => r : Service (List WaitlistEntry)) Q
      (EndsIn fun w => J w.tables) () L w := by
  refine Meets.call fun w₁ hrely => ⟨trivial, fun _ choice r w' hexec => ?_⟩
  have hw₁ := hw.stable hJ hP hrely
  rcases exec_lockWaiting hexec with ⟨rfl, e, rfl⟩ | ⟨ys, hys, -, rfl, rfl⟩
  · exact ⟨Manners.guarantee_refl w', fun w₂ hrely₂ => hJ hrely₂.1 hw₁.sound⟩
  obtain ⟨rfl, hlock, hknown⟩ := hw₁.held ys hys
  refine ⟨Manners.guarantee_of_tables rfl fun p _ => .inr ⟨rfl, id⟩, fun w₂ hrely₂ => ?_⟩
  have hholds : Holds J (R (w₁.tables.nextWaiting limit)) pid []
      (w₁.lockEntries pid (w₁.tables.nextWaiting limit)) :=
    ⟨hw₁.sound, fun zs hzs => ⟨(hw₁.held zs hzs).1, hlock, hentries _ hw₁.sound hknown⟩⟩
  exact hok _ _ w₂ (hholds.stable hJ (hR _) hrely₂)

/-- **A transaction whose body ends committable** keeps the contract. -/
theorem meets_transaction_holds {body : Service α} (hC : ∀ xs, M.Withstands (C xs))
    (hcommit : ∀ xs d, J d → xs = [] ∨ C xs d → M.offers d (d.commit missing xs) ∧
      J (d.commit missing xs)) (hnil : ∀ d, M.spares d (d.commit missing []))
    (hw : J w.tables) (hbody : ∀ L w, Unwritten J pid w → Meets (exec missing) pid
      (M.contract pid) body (fun _ _ _ w => Committable J C pid w) (EndsIn fun w => J w.tables) ()
        L w) :
    Meets (exec missing) pid (M.contract pid) (transaction body) (EndsIn fun w => J w.tables)
      (EndsIn fun w => J w.tables) () L w := by
  have hrollback : ∀ {e : Exc} {L : Log Op.Ret} {w : World}, J w.tables →
      Meets (exec missing) pid (M.contract pid) (do
        Routine.call .rollbackTransaction fun _ => .ok ()
        throw e : Service α) (EndsIn fun w => J w.tables) (EndsIn fun w => J w.tables) () L w := by
    intro e L w hw
    refine Meets.bind (Meets.call fun w₁ hrely => ⟨trivial, fun _ choice r w' hexec => ?_⟩)
    have hw₁ := hJ hrely.1 hw
    rcases exec_rollbackTransaction hexec with rfl | rfl
    · exact ⟨Manners.guarantee_refl w', fun w₂ hrely₂ => Meets.throw fun w₃ hrely₃ =>
        hJ hrely₃.1 (hJ hrely₂.1 hw₁)⟩
    · exact ⟨Manners.guarantee_release _ _, fun w₂ hrely₂ => Meets.throw fun w₃ hrely₃ =>
        hJ hrely₃.1 (hJ hrely₂.1 hw₁)⟩
  refine Meets.bind (Meets.call fun w₁ hrely => ⟨trivial, fun _ choice r w' hexec => ?_⟩)
  have hw₁ := hJ hrely.1 hw
  rcases exec_startTransaction hexec with ⟨rfl, e, rfl⟩ | ⟨rfl, rfl⟩
  · exact ⟨Manners.guarantee_refl w', fun w₂ hrely₂ => hJ hrely₂.1 hw₁⟩
  refine ⟨Manners.guarantee_hold _ _, fun w₂ hrely₂ => ?_⟩
  have hunwritten : Unwritten J pid (w₁.hold pid []) := by
    refine ⟨hw₁, fun ys hys => ?_⟩
    rw [pending_hold] at hys
    exact (Option.some.inj hys).symm
  refine Meets.tryCatch (Meets.bind ((hbody _ w₂ (hunwritten.stable hJ hrely₂)).mono
    (fun result _ L w hready => ?_) fun _ _ _ _ h => hrollback h))
  refine Meets.bind (Meets.call fun w₃ hrely₃ => ⟨trivial, fun _ choice r w' hexec => ?_⟩)
  have hready₃ := hready.stable hJ hC hrely₃
  rcases exec_commitTransaction hexec with ⟨rfl, e, rfl⟩ | ⟨ys, hys, rfl, hr⟩
  · exact ⟨Manners.guarantee_release _ _, fun w₄ hrely₄ => hrollback (hJ hrely₄.1 hready₃.sound)⟩
  have hwrites := hready₃.writes ys hys
  obtain ⟨hoffers, hsound⟩ := hcommit ys _ hready₃.sound (hwrites.imp id And.right)
  refine ⟨Manners.guarantee_commit hoffers ?_, fun w₄ hrely₄ => ?_⟩
  · rcases hwrites with rfl | ⟨hlock, -⟩
    · exact .inr (hnil _)
    · exact .inl hlock
  · have hw₄ := hJ hrely₄.1 hsound
    rcases hr with rfl | ⟨e, rfl⟩
    · exact Meets.pure fun w₅ hrely₅ => hJ hrely₅.1 hw₄
    · exact hrollback hw₄

end Transactions

end Ahjoor.Members
