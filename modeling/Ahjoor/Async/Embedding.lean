import Ahjoor.Async.Contract
import Ahjoor.Async.Solo

/-!
# Computations inside a larger system

A computation over some operations is one over more operations when each of its operations has an
image among them, and each reply to the image has a reading. What it does is then what it did, on a
part of a larger world (`Carries`); its log is the part of the larger log that concerns it. It
keeps a contract for the larger system that is as good for the part as its own (`Covers`).

`limited` takes choices away from the environment, such as those by which operations fail.
-/

namespace Async

variable {Op Op' : Type} {Ret : Op → Type} {Ret' : Op' → Type} {Choice Choice' World World' : Type}
  {α σ ε : Type}

/-! ### The same computation over more operations -/

section Via

variable (f : Op → Op') (g : ∀ o, Ret' (f o) → Ret o)

/-- The computation with the images of its operations. -/
def Prog.via : Prog Ret α → Prog Ret' α
  | .ret a => .ret a
  | .op o k => .op (f o) fun r => Prog.via (k (g o r))

/-- The routine with the images of its operations. -/
def Routine.via (m : Routine Ret σ ε α) : Routine Ret' σ ε α := fun s => (m s).via f g

end Via

variable {f : Op → Op'} {g : ∀ o, Ret' (f o) → Ret o}

theorem Prog.Uses.via {P : Op → Prop} {P' : Op' → Prop} {R : α → Prop} (hP : ∀ o, P o → P' (f o))
    {p : Prog Ret α} (hp : p.Uses P R) : (p.via f g).Uses P' R := by
  induction p with
  | ret a => exact hp
  | op o k ih => exact ⟨hP o hp.1, fun r => ih _ (hp.2 _)⟩

/-- **A discipline is kept**: `part` reads in an entry of the larger log the entry that it is the
image of. -/
theorem Follows.via (part : Entry Ret' → Option (Entry Ret)) {D : Log Ret → Op → Prop}
    {D' : Log Ret' → Op' → Prop} {Q : α → Log Ret → Prop}
    (hpart : ∀ o r, part ⟨f o, r⟩ = some ⟨o, g o r⟩)
    (hD : ∀ L o, D (L.filterMap part) o → D' L (f o)) {p : Prog Ret α} {L : Log Ret'}
    (hp : Follows D Q p (L.filterMap part)) :
    Follows D' (fun a L => Q a (L.filterMap part)) (p.via f g) L := by
  induction p generalizing L with
  | ret a => exact hp
  | op o k ih =>
    refine ⟨hD L o hp.1, fun r => ih (g o r) ?_⟩
    rw [List.filterMap_cons_some (hpart o r)]
    exact hp.2 _

/-! ### The same effect on a part of a world -/

/-- The image of an operation does to a part of the larger world what the operation does. -/
structure Carries (f : Op → Op') (g : ∀ o, Ret' (f o) → Ret o) (part : World' → World)
    (exec : (o : Op) → ℕ → Choice → World → Option (Ret o × World))
    (exec' : (o : Op') → ℕ → Choice' → World' → Option (Ret' o × World')) : Prop where
  reflects : ∀ {o pid choice w r w'}, exec' (f o) pid choice w = some (r, w') →
    ∃ choice', exec o pid choice' (part w) = some (g o r, part w')
  carries : ∀ {o pid choice w r v}, exec o pid choice (part w) = some (r, v) →
    ∃ choice' r' w', exec' (f o) pid choice' w = some (r', w') ∧ g o r' = r ∧ part w' = v

section Carries

variable {part : World' → World} {exec : (o : Op) → ℕ → Choice → World → Option (Ret o × World)}
  {exec' : (o : Op') → ℕ → Choice' → World' → Option (Ret' o × World')} {pid : ℕ}
  {p : Prog Ret α} {w w' : World'} {v : World} {a : α}

theorem Carries.alone (hc : Carries f g part exec exec') (h : Alone exec' pid (p.via f g) w a w') :
    Alone exec pid p (part w) a (part w') := by
  induction p generalizing w with
  | ret b =>
    obtain ⟨rfl, rfl⟩ := alone_ret.mp h
    exact .ret a (part w')
  | op o k ih =>
    obtain ⟨choice, r, w₁, hexec, hrest⟩ := alone_op.mp h
    obtain ⟨choice', hexec'⟩ := hc.reflects hexec
    exact .op choice' hexec' (ih (g o r) hrest)

theorem Carries.alone_via (hc : Carries f g part exec exec') (h : Alone exec pid p (part w) a v) :
    ∃ w', Alone exec' pid (p.via f g) w a w' ∧ part w' = v := by
  induction p generalizing w with
  | ret b =>
    obtain ⟨rfl, rfl⟩ := alone_ret.mp h
    exact ⟨w, .ret a w, rfl⟩
  | op o k ih =>
    obtain ⟨choice, r, v₁, hexec, hrest⟩ := alone_op.mp h
    obtain ⟨choice', r', w₁, hexec', rfl, rfl⟩ := hc.carries hexec
    obtain ⟨w', hw', hpart⟩ := ih (g o r') hrest
    exact ⟨w', .op choice' hexec' hw', hpart⟩

end Carries

/-! ### Contracts on a part of a world -/

/-- A contract `C'` of the larger system is as good for the part as `C`: what is relied on and
expected is enough for `C`, and what `C` guarantees and asserts is enough for `C'`. -/
structure Covers (f : Op → Op') (g : ∀ o, Ret' (f o) → Ret o)
    (read : Entry Ret' → Option (Entry Ret)) (part : World' → World)
    (exec : (o : Op) → ℕ → Choice → World → Option (Ret o × World))
    (exec' : (o : Op') → ℕ → Choice' → World' → Option (Ret' o × World')) (pid : ℕ)
    (C : Contract Ret World) (C' : Contract Ret' World') : Prop where
  reads : ∀ o r, read ⟨f o, r⟩ = some ⟨o, g o r⟩
  reflects : ∀ {o choice w r w'}, exec' (f o) pid choice w = some (r, w') →
    ∃ choice', exec o pid choice' (part w) = some (g o r, part w')
  rely : ∀ {w w'}, C'.rely w w' → C.rely (part w) (part w')
  expects : ∀ {L o w}, C'.expects L (f o) w → C.expects (L.filterMap read) o (part w)
  asserts : ∀ {L o w}, C.asserts (L.filterMap read) o (part w) → C'.asserts L (f o) w
  guarantee : ∀ {o choice w r w'}, exec' (f o) pid choice w = some (r, w') →
    C.guarantee (part w) (part w') → C'.guarantee w w'

section Covers

variable {read : Entry Ret' → Option (Entry Ret)} {part : World' → World}
  {exec : (o : Op) → ℕ → Choice → World → Option (Ret o × World)}
  {exec' : (o : Op') → ℕ → Choice' → World' → Option (Ret' o × World')} {pid : ℕ}
  {C : Contract Ret World} {C' : Contract Ret' World'} {L : Log Ret'} {w : World'}

theorem Covers.safe (hc : Covers f g read part exec exec' pid C C')
    {Q : α → Log Ret → World → Prop} {p : Prog Ret α}
    (hp : Safe exec pid C Q p (L.filterMap read) (part w)) :
    Safe exec' pid C' (fun a L w => Q a (L.filterMap read) (part w)) (p.via f g) L w := by
  induction p generalizing L w with
  | ret a => exact fun w' hrely => hp _ (hc.rely hrely)
  | op o k ih =>
    intro w₁ hrely
    obtain ⟨hasserts, hnext⟩ := hp _ (hc.rely hrely)
    refine ⟨hc.asserts hasserts, fun hexpects choice r w' hexec => ?_⟩
    obtain ⟨choice', hexec'⟩ := hc.reflects hexec
    obtain ⟨hguarantee, hsafe⟩ := hnext (hc.expects hexpects) choice' _ _ hexec'
    refine ⟨hc.guarantee hexec hguarantee, ih (g o r) ?_⟩
    rw [List.filterMap_cons_some (hc.reads o r)]
    exact hsafe

/-- **A contract is kept** on the part. -/
theorem Covers.meets (hc : Covers f g read part exec exec' pid C C')
    {Q : α → σ → Log Ret → World → Prop} {X : ε → σ → Log Ret → World → Prop} {s : σ}
    {m : Routine Ret σ ε α} (hm : Meets exec pid C m Q X s (L.filterMap read) (part w)) :
    Meets exec' pid C' (m.via f g) (fun a t L w => Q a t (L.filterMap read) (part w))
      (fun e t L w => X e t (L.filterMap read) (part w)) s L w := by
  refine ⟨(hc.safe hm.safe).mono fun x L w hx => ?_⟩
  rcases x with ⟨e | a, t⟩
  · exact hx
  · exact hx

end Covers

/-! ### Fewer choices -/

/-- What an operation does when the environment chooses as `works` permits. -/
def limited (works : Choice → Bool)
    (exec : (o : Op) → ℕ → Choice → World → Option (Ret o × World)) (o : Op) (pid : ℕ)
    (choice : Choice) (w : World) : Option (Ret o × World) :=
  if works choice then exec o pid choice w else none

section Limited

variable {works : Choice → Bool} {exec : (o : Op) → ℕ → Choice → World → Option (Ret o × World)}
  {o : Op} {pid : ℕ} {choice : Choice} {w w' : World} {r : Ret o}

theorem limited_eq_some : limited works exec o pid choice w = some (r, w') ↔
    works choice = true ∧ exec o pid choice w = some (r, w') := by
  rw [limited]
  split
  · next h => exact (and_iff_right h).symm
  · next h => exact iff_of_false nofun fun h' => h h'.1

/-- What happens under limited decisions happens. -/
theorem Alone.of_limited {p : Prog Ret α} {a : α} (h : Alone (limited works exec) pid p w a w') :
    Alone exec pid p w a w' := by
  induction h with
  | ret a w => exact .ret a w
  | op choice hexec _ ih => exact .op choice (limited_eq_some.mp hexec).2 ih

end Limited

/-! ### Computations without a choice -/

/-- There is one thing that the operation can do. -/
def Forced (exec : (o : Op) → ℕ → Choice → World → Option (Ret o × World)) (pid : ℕ) (o : Op) :
    Prop :=
  ∀ choice choice' w x y, exec o pid choice w = some x → exec o pid choice' w = some y → x = y

/-- **A computation whose operations are all forced** comes to one result. -/
theorem Alone.unique {exec : (o : Op) → ℕ → Choice → World → Option (Ret o × World)} {pid : ℕ}
    {p : Prog Ret α} {R : α → Prop} (hp : p.Uses (Forced exec pid) R) {w v v' : World} {a a' : α}
    (h : Alone exec pid p w a v) (h' : Alone exec pid p w a' v') : a = a' ∧ v = v' := by
  induction h with
  | ret b w =>
    obtain ⟨rfl, rfl⟩ := alone_ret.mp h'
    exact ⟨rfl, rfl⟩
  | op choice hexec _ ih =>
    obtain ⟨choice', r', w₁, hexec', hrest⟩ := alone_op.mp h'
    obtain ⟨rfl, rfl⟩ := Prod.mk.inj (hp.1 _ _ _ _ _ hexec hexec')
    exact ih (hp.2 _) hrest

end Async
