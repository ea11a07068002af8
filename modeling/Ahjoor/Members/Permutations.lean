import Ahjoor.Members.Direct
import Ahjoor.Members.Orders
import Ahjoor.Store.Shuffle
import Mathlib.Data.List.GetD

/-!
# The payout orders of an activation

Under the `RANDOM` strategy an activation shuffles the places and gives them to the members. **The
draws and the permutations correspond**: `Draws n` has one draw for each place behind the first, and
each permutation of the places is what exactly one of them leads to. Under `ADMIN_DEFINED` the
activation takes the orders that the members have, if they are such a permutation.

The activation runs alone, and the environment decides which of its operations fail; what is said
of the orders is said of every run that returns.
-/

namespace Ahjoor.Members

open Async

variable {missing : OnMissing} {pid : ℕ} {w : World} {group : GroupRow} {adminWallet : String}
  {n : ℕ}

/-! ### What is claimed -/

/-- One draw for each place from the last one down to the second: an index up to the place. -/
abbrev Draws (n : ℕ) : Type := (i : Fin (n - 1)) → Fin (i + 2)

/-- What is drawn for a place. -/
def Draws.random (draws : Draws n) (i : ℕ) : ℕ :=
  if h : 0 < i ∧ i < n then draws ⟨i - 1, by omega⟩ else 0

/-- The activation runs alone, returns, and leaves these payout orders. -/
def ActivatesTo (missing : OnMissing) (pid : ℕ) (adminWallet : String) (w : World) (random : ℕ → ℕ)
    (orders : List (Option ℤ)) : Prop :=
  ∃ w', Alone (exec missing) pid (activateGroup adminWallet random ()) w (.ok (), ()) w' ∧
    w'.tables.orders = orders

/-- **The draws and the permutations correspond.** -/
structure Shuffles (missing : OnMissing) (pid : ℕ) (adminWallet : String) (n : ℕ) (w : World) :
    Prop where
  permutes : ∀ draws : Draws n, ∃ orders, orders.Perm (places n) ∧
    ∀ orders', ActivatesTo missing pid adminWallet w draws.random orders' ↔ orders' = orders
  once : ∀ orders, orders.Perm (places n) →
    ∃! draws : Draws n, ActivatesTo missing pid adminWallet w draws.random orders

/-- **The activation takes the orders of the members if they are a permutation of the places.** -/
structure Checks (missing : OnMissing) (pid : ℕ) (adminWallet : String) (n : ℕ) (w : World) :
    Prop where
  accepts : ∀ random, (∃ orders, ActivatesTo missing pid adminWallet w random orders) ↔
    w.tables.orders.Perm (places n)
  keeps : ∀ random orders, ActivatesTo missing pid adminWallet w random orders →
    orders = w.tables.orders

/-- The activation gets to the payout orders: nobody else holds a lock, and the group waits, has
enough members and this administrator. -/
structure MayActivate (adminWallet : String) (group : GroupRow) (w : World) : Prop where
  idle : Idle w
  keys : w.tables.ids.Nodup
  row : w.tables.group = some group
  admin : group.adminWallet = adminWallet
  pending : group.status = .pending
  enough : group.minMembers ≤ (w.tables.members.length : ℤ)

/-! ### The shuffled places -/

theorem swap_eq_exchange {indices : List ℤ} {i j : ℕ} (hi : i < indices.length)
    (hj : j < indices.length) : swap indices i j = Shuffle.exchange indices i j := by
  rw [swap, Shuffle.exchange_eq hi hj, List.getD_eq_getElem _ _ hi, List.getD_eq_getElem _ _ hj]

theorem foldl_swap {indices : List ℤ} (random : ℕ → ℕ) (hn : n ≤ indices.length) :
    ((List.range n).reverse.filter (0 < ·)).foldl
        (fun indices i => swap indices i (random i % (i + 1))) indices =
      Shuffle.shuffle (fun i => random i % (i + 1)) n indices := by
  induction n generalizing indices with
  | zero => rfl
  | succ n ih =>
    have hj : random n % (n + 1) < indices.length :=
      lt_of_lt_of_le (Nat.mod_lt _ n.succ_pos) hn
    have hlength : n ≤ (Shuffle.exchange indices n (random n % (n + 1))).length := by
      rw [(Shuffle.exchange_perm ..).length_eq]
      exact Nat.le_of_succ_le hn
    have hrest := ih hlength
    rw [List.range_succ, List.reverse_concat, List.filter_cons, Shuffle.shuffle, ← hrest]
    split
    next => rw [List.foldl_cons, swap_eq_exchange hn hj]
    next hzero =>
      -- the first place has nothing to be exchanged with
      obtain rfl : n = 0 := by simpa using hzero
      rw [zero_add, Nat.mod_one, Shuffle.exchange_self]

/-- **The loop** is the shuffle of the places. -/
theorem shuffledIndices_eq (random : ℕ → ℕ) (n : ℕ) : shuffledIndices random n =
    Shuffle.shuffle (fun i => random i % (i + 1)) n ((List.range n).map (↑)) :=
  foldl_swap random (by rw [List.length_map, List.length_range])

theorem perm_shuffledIndices (random : ℕ → ℕ) (n : ℕ) :
    (shuffledIndices random n).Perm ((List.range n).map (↑)) :=
  shuffledIndices_eq random n ▸ Shuffle.shuffle_perm ..

theorem Draws.random_mod (draws : Draws n) (i : ℕ) : draws.random i % (i + 1) = draws.random i := by
  refine Nat.mod_eq_of_lt ?_
  rw [Draws.random]
  split
  next h =>
    have hlt := (draws ⟨i - 1, by omega⟩).isLt
    simp only at hlt
    omega
  next => exact i.succ_pos

theorem shuffledIndices_draws (draws : Draws n) : shuffledIndices draws.random n =
    Shuffle.shuffle draws.random n ((List.range n).map (↑)) :=
  (shuffledIndices_eq draws.random n).trans
    (Shuffle.shuffle_congr (fun i _ => draws.random_mod i) _)

theorem Draws.draws_random (draws : Draws n) : Shuffle.Draws n draws.random := fun i _ =>
  draws.random_mod i ▸ Nat.le_of_lt_succ (Nat.mod_lt _ i.succ_pos)

theorem nodup_indices (n : ℕ) : ((List.range n).map fun i : ℕ => (i : ℤ)).Nodup :=
  List.nodup_range.map fun _ _ h => Int.ofNat_inj.mp h

/-- Draws that shuffle the places alike are the same. -/
theorem Draws.eq_of_shuffledIndices {draws draws' : Draws n}
    (h : shuffledIndices draws.random n = shuffledIndices draws'.random n) : draws = draws' := by
  rw [shuffledIndices_draws, shuffledIndices_draws] at h
  have hsame := Shuffle.eq_of_shuffle_eq draws.draws_random draws'.draws_random (nodup_indices n)
    (by rw [List.length_map, List.length_range]) h
  funext i
  have hi : (i : ℕ) + 1 < n := by omega
  have hplace := hsame (i + 1) hi
  rw [Draws.random, Draws.random, dif_pos ⟨i.val.succ_pos, hi⟩, dif_pos ⟨i.val.succ_pos, hi⟩]
    at hplace
  exact Fin.ext hplace

/-- Every permutation of the places is what some draws lead to. -/
theorem Draws.exists_shuffledIndices {indices : List ℤ}
    (h : indices.Perm ((List.range n).map (↑))) :
    ∃ draws : Draws n, shuffledIndices draws.random n = indices := by
  obtain ⟨draw, hdraws, hshuffle⟩ := Shuffle.exists_shuffle_eq (n := n) h
    (by rw [List.length_map, List.length_range])
  have hlt : ∀ i : Fin (n - 1), draw (i + 1) < (i : ℕ) + 2 := fun i =>
    Nat.lt_succ_of_le (hdraws _ (by omega))
  refine ⟨fun i => ⟨draw (i + 1), hlt i⟩, ?_⟩
  rw [shuffledIndices_draws, ← hshuffle]
  refine Shuffle.shuffle_congr (fun i hi => ?_) _
  rw [Draws.random]
  split
  next h => exact congrArg draw (Nat.sub_add_cancel h.1)
  next h =>
    obtain rfl : i = 0 := by omega
    exact (Nat.le_zero.mp (hdraws 0 hi)).symm

/-! ### The assignment -/

/-- The members in `todo` are still to be given the places beside them. -/
structure Assigning (indices : List ℤ) (todo : List (Member × ℤ)) (d : Tables) : Prop where
  keys : d.ids.Nodup
  rows : ∃ done : List Member, d.members = done ++ todo.map Prod.fst ∧
    done.map (·.payoutOrder) ++ todo.map (fun x => some x.2) = indices.map some

variable {indices : List ℤ} {x : Member × ℤ} {todo : List (Member × ℤ)} {d : Tables}

theorem Assigning.mem_ids (h : Assigning indices (x :: todo) d) : x.1.id ∈ d.ids := by
  obtain ⟨done, hrows, -⟩ := h.rows
  rw [Tables.ids, hrows]
  exact List.mem_map_of_mem (List.mem_append_right done List.mem_cons_self)

theorem Assigning.accepted (h : Assigning indices (x :: todo) d) :
    d.conflict missing (.saveMember { x.1 with payoutOrder := some x.2 }) = none :=
  if_neg fun hnot => hnot.1 h.mem_ids

/-- One place is given. -/
theorem Assigning.save (h : Assigning indices (x :: todo) d) : Assigning indices todo
    (d.commit missing [.saveMember { x.1 with payoutOrder := some x.2 }]) := by
  let saved : Member := { x.1 with payoutOrder := some x.2 }
  have hmem : saved.id ∈ d.ids := h.mem_ids
  obtain ⟨done, hrows, horders⟩ := h.rows
  have hids : (d.commit missing [.saveMember saved]).ids = d.ids := ids_saveMember hmem
  refine ⟨hids ▸ h.keys, done ++ [saved], ?_, ?_⟩
  · have hkeys := h.keys
    rw [Tables.ids, hrows] at hkeys
    have hmembers : (d.commit missing [.saveMember saved]).members =
        d.members.map fun m => if m.id = saved.id then saved else m := members_saveMember hmem
    rw [hmembers, hrows, List.append_assoc]
    exact map_replace hkeys rfl
  · rw [List.map_append, List.append_assoc]
    exact horders

theorem Assigning.start (hkeys : d.ids.Nodup) (hlength : indices.length = d.members.length) :
    Assigning indices (d.members.zip indices) d := by
  refine ⟨hkeys, [], ?_, ?_⟩
  · rw [List.map_fst_zip hlength.ge, List.nil_append]
  · have hsnd : (d.members.zip indices).map Prod.snd = indices := List.map_snd_zip hlength.le
    exact List.map_map.symm.trans (congrArg (List.map some) hsnd)

theorem Assigning.orders (h : Assigning indices [] d) : d.orders = indices.map some := by
  obtain ⟨done, hrows, horders⟩ := h.rows
  rw [List.map_nil, List.append_nil] at hrows horders
  rw [Tables.orders, hrows, horders]

theorem length_shuffledIndices (random : ℕ → ℕ) (n : ℕ) : (shuffledIndices random n).length = n := by
  rw [(perm_shuffledIndices random n).length_eq, List.length_map, List.length_range]

/-- **The `RANDOM` strategy** gives the shuffled places. -/
theorem solo_assignPayoutOrders_random (hkeys : w.tables.ids.Nodup) (random : ℕ → ℕ) :
    Solo (exec missing) pid (assignPayoutOrders .random random w.tables.members)
      (fun _ _ w' => w'.tables.orders =
        (shuffledIndices random w.tables.members.length).map some) (fun _ _ _ => True) () w := by
  refine (Solo.forEach (X := fun _ _ _ => True)
    (J := fun todo _ w' => Assigning (shuffledIndices random _) todo w'.tables)
    (fun x todo _ w₁ h => ?_) (Assigning.start hkeys (length_shuffledIndices ..))).mono
      (fun _ _ w' h => h.orders) fun _ _ _ _ => trivial
  exact solo_db_write (fun _ => h.save) fun _ _ => trivial

theorem comes_assignPayoutOrders_random (hw : Idle w) (hkeys : w.tables.ids.Nodup)
    (random : ℕ → ℕ) :
    Comes (working missing) pid (assignPayoutOrders .random random w.tables.members) (.ok ())
      Idle () w := by
  refine (Comes.forEach (J := fun todo w' => Idle w' ∧ Assigning (shuffledIndices random _) todo w'.tables)
    (fun x todo w₁ h => ?_) ⟨hw, Assigning.start hkeys (length_shuffledIndices ..)⟩).mono
      fun _ h => h.1
  refine (comes_db_write h.1 h.2.accepted).mono fun w₂ ⟨hidle, htables⟩ => ⟨hidle, ?_⟩
  rw [htables]
  exact h.2.save

/-! ### The check -/

theorem places_eq_map (n : ℕ) : places n = ((List.range n).map fun i : ℕ => (i : ℤ)).map some :=
  List.map_map.symm

/-- Orders none of which is missing. -/
theorem map_some_getD {orders : List (Option ℤ)} (h : orders.any (·.isNone) = false) :
    (orders.map (·.getD 0)).map some = orders := by
  rw [List.map_map]
  refine (List.map_congr_left fun o ho => ?_).trans (List.map_id orders)
  cases o with
  | none => exact absurd (List.any_eq_true.mpr ⟨none, ho, rfl⟩) (Bool.eq_false_iff.mp h)
  | some order => rfl

theorem any_isNone_of_perm {orders : List (Option ℤ)} (h : orders.Perm (places n)) :
    orders.any (·.isNone) = false := by
  refine Bool.eq_false_iff.mpr fun hany => ?_
  obtain ⟨o, ho, hnone⟩ := List.any_eq_true.mp hany
  obtain ⟨i, -, rfl⟩ := mem_places.mp (h.mem_iff.mp ho)
  cases hnone

theorem getD_perm {orders : List (Option ℤ)} (h : orders.Perm (places n)) :
    (orders.map (·.getD 0)).Perm ((List.range n).map fun i : ℕ => (i : ℤ)) := by
  refine (h.map (·.getD 0)).trans (List.Perm.of_eq ?_)
  rw [places_eq_map, List.map_map]
  exact List.map_id _

/-- **The check of `ADMIN_DEFINED`** accepts the permutations of the places. -/
theorem accepted_iff_perm {orders : List (Option ℤ)} :
    (orders.any (·.isNone) = false ∧
      (orders.map (·.getD 0)).insertionSort (· ≤ ·) = (List.range n).map fun i : ℕ => (i : ℤ)) ↔
      orders.Perm (places n) := by
  constructor
  · rintro ⟨hall, hsorted⟩
    have hperm := (List.perm_insertionSort (· ≤ ·) (orders.map (·.getD 0))).symm.map some
    rwa [hsorted, map_some_getD hall, ← places_eq_map] at hperm
  · intro h
    have hsorted : ((List.range n).map fun i : ℕ => (i : ℤ)).Pairwise (· ≤ ·) :=
      List.pairwise_map.mpr (List.pairwise_le_range.imp fun h => Int.ofNat_le.mpr h)
    have hperm := (List.perm_insertionSort (· ≤ ·) (orders.map (·.getD 0))).trans (getD_perm h)
    exact ⟨any_isNone_of_perm h,
      hperm.eq_of_pairwise' (List.pairwise_insertionSort ..) hsorted⟩

/-! ### The whole activation -/

variable {P : List (Option ℤ) → Prop}

/-- Saving the group leaves the payout orders alone. -/
theorem solo_saveGroup (h : P w.tables.orders) (saved : GroupRow) :
    Solo (exec missing) pid (db (.write (.saveGroup saved)))
      (fun _ _ w' => P w'.tables.orders) (fun _ _ _ => True) () w :=
  solo_db_write (fun _ => h) fun _ _ => trivial

/-- **What the strategy has left** is what an activation that returns leaves. -/
theorem solo_activateGroup (h : MayActivate adminWallet group w) {random : ℕ → ℕ}
    (hassign : Solo (exec missing) pid
      (assignPayoutOrders group.payoutOrderStrategy random w.tables.members)
      (fun _ _ w' => P w'.tables.orders) (fun _ _ _ => True) () w) :
    Solo (exec missing) pid (activateGroup adminWallet random)
      (fun _ _ w' => P w'.tables.orders) (fun _ _ _ => True) () w := by
  have hfound : (Query.findGroupWithMembers).read missing w.tables =
      .ok (some (group, w.tables.members)) := by
    rw [Query.read, h.row, Option.map_some]
  refine Solo.bind (solo_db_read rfl hfound (Solo.bind (Solo.pure ?_)) fun _ _ => trivial)
  refine Solo.bind (Solo.throwWhen (fun _ => trivial) fun _ => ?_)
  refine Solo.bind (Solo.throwWhen (fun _ => trivial) fun _ => ?_)
  refine Solo.bind (Solo.throwWhen (fun _ => trivial) fun _ => ?_)
  refine Solo.bind (hassign.mono (fun _ _ w₁ h₁ => ?_) fun _ _ _ _ => trivial)
  refine Solo.bind ((solo_saveGroup h₁ _).mono (fun _ _ w₂ h₂ => ?_) fun _ _ _ _ => trivial)
  refine Solo.bind (Solo.tryCatch (Solo.call fun choice r w₃ hexec => ?_))
  have h₃ : P w₃.tables.orders := exec_external rfl hexec ▸ h₂
  cases r with
  | error e =>
    refine Solo.pure (Solo.bind ((solo_saveGroup h₃ _).mono (fun _ _ _ _ => ?_)
      fun _ _ _ _ => trivial))
    exact Solo.throw trivial
  | ok contractAddress =>
    refine Solo.tryCatch (Solo.bind ((solo_saveGroup h₃ _).mono (fun _ _ w₄ h₄ => ?_)
      fun _ _ _ _ => Solo.bind ((solo_db fun _ _ => Solo.throw trivial) fun _ _ => trivial)))
    refine Solo.tryCatch (Solo.call fun choice r w₅ hexec => ?_)
    have h₅ : P w₅.tables.orders := exec_external rfl hexec ▸ h₄
    cases r with
    | ok a => exact h₅
    | error e => exact Solo.pure h₅

/-- **An activation with nothing failing** returns when its strategy does. -/
theorem comes_activateGroup (h : MayActivate adminWallet group w) {random : ℕ → ℕ}
    (hassign : Comes (working missing) pid
      (assignPayoutOrders group.payoutOrderStrategy random w.tables.members) (.ok ()) Idle () w) :
    Comes (working missing) pid (activateGroup adminWallet random) (.ok ()) Idle () w := by
  have hfound : (Query.findGroupWithMembers).read missing w.tables =
      .ok (some (group, w.tables.members)) := by
    rw [Query.read, h.row, Option.map_some]
  have hsave : ∀ w₁ saved, Idle w₁ →
      Comes (working missing) pid (db (.write (.saveGroup saved))) (.ok ()) Idle () w₁ :=
    fun w₁ saved hw₁ => (comes_db_write hw₁ rfl).mono fun _ hw₂ => hw₂.1
  refine Comes.bind (comes_db_read h.idle rfl hfound) ?_
  rintro _ rfl
  refine Comes.bind (R := (w = ·)) (Comes.pure rfl) ?_
  rintro _ rfl
  refine Comes.bind (R := (w = ·)) (Comes.throwWhen (by simp [h.admin]) rfl) ?_
  rintro _ rfl
  refine Comes.bind (R := (w = ·)) (Comes.throwWhen (by simp [h.pending]) rfl) ?_
  rintro _ rfl
  refine Comes.bind (R := (w = ·))
    (Comes.throwWhen (decide_eq_false (not_lt.mpr h.enough)) rfl) ?_
  rintro _ rfl
  refine Comes.bind hassign fun w₁ hw₁ => ?_
  refine Comes.bind (hsave w₁ _ hw₁) fun w₂ hw₂ => ?_
  have hdeploy : ∀ saved, Comes (working missing) pid
      (Routine.call (.deployRoscaContract saved) fun r => r.map some : Service (Option String))
      (.ok (some "contract")) Idle () w₂ := by
    intro saved
    have hexec : working missing (.deployRoscaContract saved) pid (.deployed "contract") w₂ =
        some (.ok "contract", w₂) := limited_eq_some.mpr ⟨rfl, rfl⟩
    exact Comes.call _ hexec hw₂
  refine Comes.bind (Comes.tried (hdeploy _)) fun w₃ hw₃ => ?_
  refine Comes.tried (Comes.bind (hsave w₃ _ hw₃) fun w₄ hw₄ => ?_)
  exact Comes.tried (Comes.call .done (working_done rfl) hw₄)

/-- A group that gives the places at random. -/
theorem activatesTo_random_iff (h : MayActivate adminWallet group w)
    (hstrategy : group.payoutOrderStrategy = .random) (random : ℕ → ℕ) (orders : List (Option ℤ)) :
    ActivatesTo missing pid adminWallet w random orders ↔
      orders = (shuffledIndices random w.tables.members.length).map some := by
  have hsolo : Solo (exec missing) pid (activateGroup adminWallet random)
      (fun _ _ w' => w'.tables.orders = _) (fun _ _ _ => True) () w :=
    solo_activateGroup (P := (· = _)) h
      (hstrategy ▸ solo_assignPayoutOrders_random h.keys random)
  constructor
  · rintro ⟨w', halone, rfl⟩
    exact hsolo _ _ _ halone
  · rintro rfl
    obtain ⟨w', halone, -⟩ := comes_activateGroup h
      (hstrategy ▸ comes_assignPayoutOrders_random h.idle h.keys random)
    exact ⟨w', Alone.of_limited halone, hsolo _ _ _ (Alone.of_limited halone)⟩

/-- A group whose administrator orders the members. -/
theorem activatesTo_adminDefined_iff (h : MayActivate adminWallet group w)
    (hstrategy : group.payoutOrderStrategy = .adminDefined) (random : ℕ → ℕ)
    (orders : List (Option ℤ)) : ActivatesTo missing pid adminWallet w random orders ↔
      w.tables.orders.Perm (places w.tables.members.length) ∧ orders = w.tables.orders := by
  have hassign : Solo (exec missing) pid (assignPayoutOrders .adminDefined random w.tables.members)
      (fun _ _ w' => w.tables.orders.Perm (places w.tables.members.length) ∧
        w'.tables.orders = w.tables.orders) (fun _ _ _ => True) () w := by
    refine Solo.bind (Solo.throwWhen (fun _ => trivial) fun hall => ?_)
    refine Solo.throwWhen (fun _ => trivial) fun hsorted => ⟨?_, rfl⟩
    exact accepted_iff_perm.mp ⟨hall, of_not_not (of_decide_eq_false hsorted)⟩
  have hsolo : Solo (exec missing) pid (activateGroup adminWallet random)
      (fun _ _ w' => _ ∧ w'.tables.orders = _) (fun _ _ _ => True) () w :=
    solo_activateGroup (P := fun orders => _ ∧ orders = _) h (hstrategy ▸ hassign)
  constructor
  · rintro ⟨w', halone, rfl⟩
    exact hsolo _ _ _ halone
  · rintro ⟨hperm, rfl⟩
    obtain ⟨hall, hsorted⟩ := accepted_iff_perm.mpr hperm
    have hchecked : Comes (working missing) pid
        (assignPayoutOrders .adminDefined random w.tables.members) (.ok ()) Idle () w := by
      refine Comes.bind (R := Idle) (Comes.throwWhen hall h.idle) fun w₁ hw₁ => ?_
      exact Comes.throwWhen (decide_eq_false (not_not.mpr hsorted)) hw₁
    obtain ⟨w', halone, -⟩ := comes_activateGroup h (hstrategy ▸ hchecked)
    exact ⟨w', Alone.of_limited halone, (hsolo _ _ _ (Alone.of_limited halone)).2⟩

/-- **The payout orders of an activation.** -/
theorem orders_of_activation (missing : OnMissing) (pid : ℕ) {adminWallet : String} {w : World}
    {group : GroupRow} (h : MayActivate adminWallet group w) :
    (group.payoutOrderStrategy = .random →
      Shuffles missing pid adminWallet w.tables.members.length w) ∧
    (group.payoutOrderStrategy = .adminDefined →
      Checks missing pid adminWallet w.tables.members.length w) := by
  refine ⟨fun hstrategy => ⟨fun draws => ?_, fun orders horders => ?_⟩, fun hstrategy =>
    ⟨fun random => ?_, fun random orders horders => ?_⟩⟩
  · refine ⟨_, ?_, activatesTo_random_iff h hstrategy draws.random⟩
    rw [places_eq_map]
    exact (perm_shuffledIndices ..).map some
  · -- a permutation of the places has an order for every member
    have hsome := map_some_getD (any_isNone_of_perm horders)
    obtain ⟨draws, hdraws⟩ := Draws.exists_shuffledIndices (getD_perm horders)
    have hleft : orders = (shuffledIndices draws.random _).map some :=
      hsome.symm.trans (congrArg (List.map some) hdraws.symm)
    refine ⟨draws, (activatesTo_random_iff h hstrategy _ _).mpr hleft, fun draws' hdraws' => ?_⟩
    have hsame := (activatesTo_random_iff h hstrategy _ _).mp hdraws'
    refine Draws.eq_of_shuffledIndices ?_
    exact List.map_injective_iff.mpr (Option.some_injective ℤ) (hsame.symm.trans hleft)
  · simp only [activatesTo_adminDefined_iff h hstrategy, exists_and_left, exists_eq, and_true]
  · exact ((activatesTo_adminDefined_iff h hstrategy random orders).mp horders).2

/-- Three members of a group that waits, with these payout orders. -/
def threeMembers (strategy : PayoutOrderStrategy) (orders : ℕ → Option ℤ) : Tables where
  group := some { id := 0, name := "group", adminWallet := "G0", payoutOrderStrategy := strategy
                  minMembers := 2, maxMembers := 3 }
  members := (List.range 3).map fun i =>
    { id := i, userId := i, walletAddress := "G", payoutOrder := orders i }
  issued := [0, 1, 2]

/-- Three members are shuffled, and three whose administrator has ordered them are accepted. -/
theorem orders_of_activation_sample :
    Shuffles .ignores 0 "G0" 3 (started (threeMembers .random fun _ => none)) ∧
      Checks .ignores 0 "G0" 3 (started (threeMembers .adminDefined fun i => some (2 - i))) :=
  ⟨(orders_of_activation .ignores 0 (w := started (threeMembers .random fun _ => none))
      ⟨⟨rfl, fun _ => rfl⟩, by decide, rfl, rfl, rfl, by decide⟩).1 rfl,
    (orders_of_activation .ignores 0
      (w := started (threeMembers .adminDefined fun i => some (2 - i)))
      ⟨⟨rfl, fun _ => rfl⟩, by decide, rfl, rfl, rfl, by decide⟩).2 rfl⟩

end Ahjoor.Members
