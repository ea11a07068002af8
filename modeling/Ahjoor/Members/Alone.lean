import Ahjoor.Async.Embedding
import Ahjoor.Members.Places

/-!
# Calls on the members that nobody disturbs

A call that runs alone, with nothing failing, while no transaction holds a lock. Each of its
operations can do one thing only, so the call comes to one outcome. The admission comes to one of
two: it takes in the first entries that wait, or one of them belongs to a member and nothing
happens.
-/

namespace Ahjoor.Members

open Async

/-! ### Operations that work -/

/-- The operation does not fail, and its reply is not lost. -/
def Choice.works : Choice → Bool
  | done | deployed _ => true
  | fails _ | lost _ => false

/-- What an operation does when it works. -/
def working (missing : OnMissing) : (o : Op) → ℕ → Choice → World → Option (o.Ret × World) :=
  limited Choice.works (exec missing)

/-- No transaction holds a lock. -/
structure Idle (w : World) : Prop where
  group : w.groupHolder = none
  entries : ∀ id, w.entryHolder id = none

/-- Nothing is left to the environment. -/
def Op.isForced : Op → Bool
  | .deployRoscaContract _ => false
  | _ => true

variable {missing : OnMissing} {pid : ℕ} {w w₀ : World} {xs : List Write} {α : Type}

theorem working_done {o : Op} {r : o.Ret} {w' : World}
    (h : exec missing o pid .done w = some (r, w')) :
    working missing o pid .done w = some (r, w') :=
  limited_eq_some.mpr ⟨rfl, h⟩

theorem forced_of_isForced {o : Op} (ho : o.isForced = true) : Forced (working missing) pid o := by
  have hdone : ∀ {choice : Choice} {w : World} {x}, working missing o pid choice w = some x →
      exec missing o pid .done w = some x := by
    intro choice w x h
    obtain ⟨hworks, hexec⟩ := limited_eq_some.mp h
    cases choice with
    | done => exact hexec
    | deployed contractAddress =>
      cases o with
      | deployRoscaContract group => cases ho
      | _ => cases hexec
    | fails msg => cases hworks
    | lost msg => cases hworks
  intro choice choice' w x y hx hy
  exact Option.some.inj ((hdone hx).symm.trans (hdone hy))

/-! ### Inside a transaction -/

/-- The transaction of `pid` on the tables `d` has written `xs`, and nobody else holds a lock. -/
structure Within (pid : ℕ) (d : Tables) (xs : List Write) (w : World) : Prop where
  tables : w.tables = d
  pending : w.pending pid = some xs
  group : w.groupHeld pid = false
  entries : ∀ id, w.entryHeld pid id = false

variable {d : Tables}

theorem not_blocks (hgroup : w.groupHeld pid = false) (hentries : ∀ id, w.entryHeld pid id = false)
    (q : Query) : w.blocks missing pid q = false := by
  cases q with
  | write x =>
    change (w.tables.inserts missing x && w.groupHeld pid || _) = false
    rw [hgroup, Bool.and_false, Bool.false_or]
    cases x with
    | saveEntry entry => exact hentries entry.id
    | closeGap position =>
      refine List.any_eq_false.mpr fun e _ h => ?_
      have hheld := (of_decide_eq_true h).2.2
      rw [hentries] at hheld
      cases hheld
    | _ => rfl
  | _ => rfl

/-- A query inside the transaction, when it works. -/
theorem Within.exec_tx (hw : Within pid d xs w) (q : Query) :
    exec missing (.tx q) pid .done w = some (q.read missing (d.view missing xs),
      w.hold pid (xs ++ (q.writes missing (d.view missing xs)).toList)) := by
  obtain ⟨rfl, hpending, hgroup, hentries⟩ := hw
  rw [exec, hpending, Option.bind_some, if_neg (by rw [not_blocks hgroup hentries]; decide)]
  rfl

theorem Within.hold (hw : Within pid d xs w) (ys : List Write) : Within pid d ys (w.hold pid ys) :=
  ⟨hw.tables, pending_hold .., hw.group, hw.entries⟩

/-- A query inside the transaction. -/
theorem comes_tx (hw : Within pid d xs w) (q : Query) :
    Comes (working missing) pid (tx q) (q.read missing (d.view missing xs))
      (Within pid d (xs ++ (q.writes missing (d.view missing xs)).toList)) () w :=
  Comes.call .done (working_done (hw.exec_tx q)) (hw.hold _)

/-- A read inside the transaction. -/
theorem comes_tx_read (hw : Within pid d xs w) {q : Query} (hq : q.isRead = true) {a : q.Ret}
    (ha : q.read missing (d.view missing xs) = .ok a) :
    Comes (working missing) pid (tx q) (.ok a) (Within pid d xs) () w := by
  have hread : Comes (working missing) pid (tx q) _ _ () w := comes_tx hw q
  rw [ha, writes_of_isRead hq, Option.toList_none, List.append_nil] at hread
  exact hread

/-- A write that the tables accept. -/
theorem comes_tx_write (hw : Within pid d xs w) {x : Write}
    (hx : (d.view missing xs).conflict missing x = none) :
    Comes (working missing) pid (tx (.write x)) (.ok ()) (Within pid d (xs ++ [x])) () w := by
  have hwrite : Comes (working missing) pid (tx (.write x)) _ _ () w := comes_tx hw (.write x)
  simp only [Query.read, Query.writes, hx, Option.isNone_none, if_true, Option.toList_some] at hwrite
  exact hwrite

/-- A write that the tables refuse. -/
theorem comes_tx_refused (hw : Within pid d xs w) {x : Write} {constraint : String}
    (hx : (d.view missing xs).conflict missing x = some constraint) :
    Comes (working missing) pid (tx (.write x)) (.error (.uniqueViolation constraint))
      (Within pid d xs) () w := by
  have hwrite : Comes (working missing) pid (tx (.write x)) _ _ () w := comes_tx hw (.write x)
  simp only [Query.read, Query.writes, hx, Option.isNone_some, Bool.false_eq_true, if_false,
    Option.toList_none, List.append_nil] at hwrite
  exact hwrite

theorem comes_lockGroup (hw : Within pid d xs w) :
    Comes (working missing) pid lockGroup (.ok d.group) (Within pid d xs) () w := by
  obtain ⟨rfl, hpending, hgroup, hentries⟩ := hw
  have hexec : exec missing .lockGroup pid .done w = some (.ok w.tables.group, w.lockGroup pid) := by
    rw [exec, hpending, Option.bind_some, if_neg (by rw [hgroup]; decide)]
  refine Comes.call .done (working_done hexec) ⟨rfl, hpending, ?_, hentries⟩
  change Option.any (· ≠ pid) (if w.tables.group.isSome then some pid else w.groupHolder) = false
  split
  · simp
  · exact hgroup

theorem comes_lockWaiting (hw : Within pid d xs w) (limit : ℕ) :
    Comes (working missing) pid (Routine.call (.lockWaiting limit) fun r => r)
      (.ok ((d.view missing xs).nextWaiting limit)) (Within pid d xs) () w := by
  obtain ⟨rfl, hpending, hgroup, hentries⟩ := hw
  have hfree : ¬ ((w.tables.view missing xs).nextWaiting limit).any (fun e => w.entryHeld pid e.id) := by
    intro hany
    obtain ⟨e, -, hheld⟩ := List.any_eq_true.mp hany
    rw [hentries] at hheld
    cases hheld
  have hexec : exec missing (.lockWaiting limit) pid .done w =
      some (.ok ((w.tables.view missing xs).nextWaiting limit),
        w.lockEntries pid ((w.tables.view missing xs).nextWaiting limit)) := by
    rw [exec, hpending, Option.bind_some]
    exact if_neg hfree
  refine Comes.call .done (working_done hexec) ⟨rfl, hpending, hgroup, fun id => ?_⟩
  change Option.any (· ≠ pid) (if id ∈ _ then some pid else w.entryHolder id) = false
  split
  · simp
  · exact hentries id

/-! ### Whole transactions -/

theorem Idle.within (hw : Idle w) : Within pid w.tables [] (w.hold pid []) where
  tables := rfl
  pending := pending_hold ..
  group := by
    change Option.any (· ≠ pid) w.groupHolder = false
    rw [hw.group]
    rfl
  entries id := by
    change Option.any (· ≠ pid) (w.entryHolder id) = false
    rw [hw.entries]
    rfl

/-- A transaction that goes through applies its writes. -/
theorem comes_transaction {body : Service α} {a : α} (hw : Idle w)
    (hbody : ∀ w', Within pid w.tables [] w' →
      Comes (working missing) pid body (.ok a) (Within pid w.tables xs) () w') :
    Comes (working missing) pid (transaction body) (.ok a)
      (fun w' => w'.tables = w.tables.commit missing xs) () w := by
  refine Comes.bind (Comes.call .done (working_done rfl) hw.within) fun w₁ hw₁ => ?_
  refine Comes.tried (Comes.bind (hbody w₁ hw₁) fun w₂ hw₂ => ?_)
  obtain ⟨htables, hpending, -, -⟩ := hw₂
  have hcommit : exec missing .commitTransaction pid .done w₂ =
      some (.ok (), w₂.commit missing pid xs) := by
    rw [exec, hpending, Option.map_some]
  have hcommitted : (w₂.commit missing pid xs).tables = w.tables.commit missing xs := by
    rw [← htables]
    rfl
  exact Comes.bind (R := fun w' => w'.tables = w.tables.commit missing xs)
    (Comes.call .done (working_done hcommit) hcommitted) fun w' h => Comes.pure h

/-- A transaction that throws leaves the tables as they are. -/
theorem comes_transaction_error {body : Service α} {e : Exc} (hw : Idle w)
    (hbody : ∀ w', Within pid w.tables [] w' →
      Comes (working missing) pid body (.error e) (fun w₁ => w₁.tables = w.tables) () w') :
    Comes (working missing) pid (transaction body) (.error e) (fun w' => w'.tables = w.tables) () w := by
  refine Comes.bind (Comes.call .done (working_done rfl) hw.within) fun w₁ hw₁ => ?_
  refine Comes.caught (Comes.bind_error (hbody w₁ hw₁)) fun w₂ hw₂ => ?_
  exact Comes.bind (R := fun w' => w'.tables = w.tables)
    (Comes.call .done (working_done rfl) hw₂) fun w' h => Comes.throw h

end Ahjoor.Members
