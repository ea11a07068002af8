import Ahjoor.Async.Discipline

/-!
# Calls under contracts

A *contract* says what a call relies on and what it owes: between two of its operations the world
changes as `rely` permits, every operation of its own changes the world as `guarantee` promises,
and an operation is only performed in a world that `asserts` accepts. What a condition on the runs
says about an operation at the moment it is performed comes in as `expects`.

`Safe` is the assertion that what is left of a call keeps its contract from a log and a world on,
whatever the environment chooses, and comes to a result that the postcondition accepts. It is
proved for each body on its own, with one rule for each construct (`Meets`), and `Verified`
collects what makes a whole run keep an invariant: the bodies are safe, the guarantees keep the
invariant, and the guarantee of a call is within what the calls in flight beside it rely on.
-/

namespace Async

variable {Op : Type} {Ret : Op → Type} {Choice World Call ρ α β σ ε : Type}

/-! ### Contracts -/

/-- What a call relies on, and what it owes. -/
structure Contract (Ret : Op → Type) (World : Type) where
  /-- what others may do between two operations of the call -/
  rely : World → World → Prop
  /-- what an operation of the call may do -/
  guarantee : World → World → Prop
  /-- what is known of an operation when it is performed -/
  expects : Log Ret → Op → World → Prop
  /-- what the call ensures of an operation when it is performed -/
  asserts : Log Ret → Op → World → Prop
  rely_refl : ∀ w, rely w w
  rely_trans : ∀ {w₁ w₂ w₃}, rely w₁ w₂ → rely w₂ w₃ → rely w₁ w₃

section Safe

variable (exec : (o : Op) → ℕ → Choice → World → Option (Ret o × World)) (pid : ℕ)
  (C : Contract Ret World)

/-- From the log and the world on, the computation keeps the contract, and its result, the log and
the world satisfy `Q`. -/
def Safe (Q : α → Log Ret → World → Prop) : Prog Ret α → Log Ret → World → Prop
  | .ret a, L, w => ∀ w', C.rely w w' → Q a L w'
  | .op o k, L, w => ∀ w₁, C.rely w w₁ → C.asserts L o w₁ ∧
      (C.expects L o w₁ → ∀ choice r w', exec o pid choice w₁ = some (r, w') →
        C.guarantee w₁ w' ∧ Safe Q (k r) (⟨o, r⟩ :: L) w')

end Safe

variable {exec : (o : Op) → ℕ → Choice → World → Option (Ret o × World)} {pid : ℕ}
  {C : Contract Ret World}

/-- Safety withstands what the call relies on. -/
theorem Safe.stable {Q : α → Log Ret → World → Prop} {p : Prog Ret α} {L : Log Ret} {w w' : World}
    (hp : Safe exec pid C Q p L w) (hrely : C.rely w w') : Safe exec pid C Q p L w' := by
  cases p with
  | ret a => exact fun w₁ h => hp w₁ (C.rely_trans hrely h)
  | op o k => exact fun w₁ h => hp w₁ (C.rely_trans hrely h)

theorem Safe.bind {Q : α → Log Ret → World → Prop} {Q' : β → Log Ret → World → Prop}
    {p : Prog Ret α} {f : α → Prog Ret β} {L : Log Ret} {w : World} (hp : Safe exec pid C Q p L w)
    (hf : ∀ a L w, (∀ w', C.rely w w' → Q a L w') → Safe exec pid C Q' (f a) L w) :
    Safe exec pid C Q' (p.bind f) L w := by
  induction p generalizing L w with
  | ret a => exact hf a L w hp
  | op o k ih =>
    intro w₁ hrely
    obtain ⟨hasserts, hnext⟩ := hp w₁ hrely
    refine ⟨hasserts, fun hexpects choice r w' hexec => ?_⟩
    obtain ⟨hguarantee, hsafe⟩ := hnext hexpects choice r w' hexec
    exact ⟨hguarantee, ih r hsafe⟩

theorem Safe.mono {Q Q' : α → Log Ret → World → Prop} {p : Prog Ret α} {L : Log Ret} {w : World}
    (hp : Safe exec pid C Q p L w) (hQ : ∀ a L w, Q a L w → Q' a L w) :
    Safe exec pid C Q' p L w := by
  induction p generalizing L w with
  | ret a => exact fun w' hrely => hQ a L w' (hp w' hrely)
  | op o k ih =>
    intro w₁ hrely
    obtain ⟨hasserts, hnext⟩ := hp w₁ hrely
    refine ⟨hasserts, fun hexpects choice r w' hexec => ?_⟩
    obtain ⟨hguarantee, hsafe⟩ := hnext hexpects choice r w' hexec
    exact ⟨hguarantee, ih r hsafe⟩

/-! ### Rules for routines -/

/-- `Safe` for a routine started with captured variables `s`: `Q` at a result, `X` at an
exception. -/
structure Meets (exec : (o : Op) → ℕ → Choice → World → Option (Ret o × World)) (pid : ℕ)
    (C : Contract Ret World) (m : Routine Ret σ ε α) (Q : α → σ → Log Ret → World → Prop)
    (X : ε → σ → Log Ret → World → Prop) (s : σ) (L : Log Ret) (w : World) : Prop where
  safe : Safe exec pid C (fun x L w => Outcome (fun a t L => Q a t L w) (fun e t L => X e t L w) x L)
    (m s) L w

namespace Meets

variable {Q : α → σ → Log Ret → World → Prop} {X : ε → σ → Log Ret → World → Prop} {s : σ}
  {L : Log Ret} {w : World}

theorem pure {a : α} (hq : ∀ w', C.rely w w' → Q a s L w') :
    Meets exec pid C (pure a : Routine Ret σ ε α) Q X s L w := ⟨hq⟩

theorem throw {e : ε} (hx : ∀ w', C.rely w w' → X e s L w') :
    Meets exec pid C (throw e : Routine Ret σ ε α) Q X s L w := ⟨hx⟩

theorem bind {m : Routine Ret σ ε α} {f : α → Routine Ret σ ε β}
    {Q : β → σ → Log Ret → World → Prop}
    (hm : Meets exec pid C m (fun a t L w => Meets exec pid C (f a) Q X t L w) X s L w) :
    Meets exec pid C (m >>= f) Q X s L w := by
  refine ⟨hm.safe.bind fun x L w hx => ?_⟩
  rcases x with ⟨e | a, t⟩
  · exact hx
  · exact (hx w (C.rely_refl w)).safe

theorem tryCatch {m : Routine Ret σ ε α} {f : ε → Routine Ret σ ε α}
    (hm : Meets exec pid C m Q (fun e t L w => Meets exec pid C (f e) Q X t L w) s L w) :
    Meets exec pid C (tryCatch m f) Q X s L w := by
  refine ⟨hm.safe.bind fun x L w hx => ?_⟩
  rcases x with ⟨e | a, t⟩
  · exact (hx w (C.rely_refl w)).safe
  · exact hx

theorem mono {Q' : α → σ → Log Ret → World → Prop} {X' : ε → σ → Log Ret → World → Prop}
    {m : Routine Ret σ ε α} (hm : Meets exec pid C m Q X s L w)
    (hQ : ∀ a t L w, Q a t L w → Q' a t L w) (hX : ∀ e t L w, X e t L w → X' e t L w) :
    Meets exec pid C m Q' X' s L w := by
  refine ⟨hm.safe.mono fun x L w hx => ?_⟩
  rcases x with ⟨e | a, t⟩
  · exact hX e t L w hx
  · exact hQ a t L w hx

/-- The rule for an awaited operation. -/
theorem call {o : Op} {out : Ret o → Except ε α}
    (h : ∀ w₁, C.rely w w₁ → C.asserts L o w₁ ∧
      (C.expects L o w₁ → ∀ choice r w', exec o pid choice w₁ = some (r, w') →
        C.guarantee w₁ w' ∧ ∀ w₂, C.rely w' w₂ → match out r with
          | .ok a => Q a s (⟨o, r⟩ :: L) w₂
          | .error e => X e s (⟨o, r⟩ :: L) w₂)) :
    Meets exec pid C (Routine.call o out) Q X s L w := by
  refine ⟨fun w₁ hrely => ?_⟩
  obtain ⟨hasserts, hnext⟩ := h w₁ hrely
  refine ⟨hasserts, fun hexpects choice r w' hexec => ?_⟩
  obtain ⟨hguarantee, hpost⟩ := hnext hexpects choice r w' hexec
  refine ⟨hguarantee, fun w₂ hrely₂ => ?_⟩
  have hpost₂ := hpost w₂ hrely₂
  rcases hout : out r with e | a <;> simpa only [Outcome, hout] using hpost₂

theorem throwWhen {c : Bool} {e : ε} {Q : Unit → σ → Log Ret → World → Prop}
    (hthrow : c = true → ∀ w', C.rely w w' → X e s L w')
    (hpass : c = false → ∀ w', C.rely w w' → Q () s L w') :
    Meets exec pid C (Routine.throwWhen c e) Q X s L w := by
  cases c with
  | true => exact throw (hthrow rfl)
  | false => exact pure (hpass rfl)

theorem valueOr {v : Option α} {e : ε} (hsome : ∀ a, v = some a → ∀ w', C.rely w w' → Q a s L w')
    (hnone : v = none → ∀ w', C.rely w w' → X e s L w') :
    Meets exec pid C (Routine.valueOr v e) Q X s L w := by
  cases v with
  | some a => exact pure (hsome a rfl)
  | none => exact throw (hnone rfl)

/-- A routine whose operations all keep `J`, which withstands what the call relies on. -/
theorem of_uses {P : Op → Prop} {J : World → Prop} {m : Routine Ret σ ε α} (hm : Routine.Uses P m)
    (hrely : ∀ w w', J w → C.rely w w' → J w')
    (hkeeps : ∀ L o w, P o → J w → C.asserts L o w ∧
      (C.expects L o w → ∀ choice r w', exec o pid choice w = some (r, w') →
        C.guarantee w w' ∧ J w'))
    (hJ : J w) : Meets exec pid C m (fun _ t _ w => t = s ∧ J w) (fun _ t _ w => t = s ∧ J w) s L w := by
  refine ⟨?_⟩
  suffices h : ∀ (p : Prog Ret (Except ε α × σ)) (L : Log Ret) (w : World),
      p.Uses P (fun x => x.2 = s) → J w → Safe exec pid C (fun x L w => Outcome
        (fun _ t _ => t = s ∧ J w) (fun _ t _ => t = s ∧ J w) x L) p L w from h _ L w (hm s) hJ
  intro p
  induction p with
  | ret x =>
    intro L w hp hJ w' hw'
    rcases x with ⟨e | a, t⟩ <;> exact ⟨hp, hrely w w' hJ hw'⟩
  | op o k ih =>
    intro L w hp hJ w₁ hw₁
    obtain ⟨hasserts, hnext⟩ := hkeeps L o w₁ hp.1 (hrely w w₁ hJ hw₁)
    refine ⟨hasserts, fun hexpects choice r w' hexec => ?_⟩
    obtain ⟨hguarantee, hJ'⟩ := hnext hexpects choice r w' hexec
    exact ⟨hguarantee, ih r _ w' (hp.2 r) hJ'⟩

end Meets

/-! ### Verified systems -/

/-- What makes the runs of a system keep an invariant: every body that the condition on the runs
lets in is safe where the invariant holds, guarantees keep the invariant, the condition tells the
calls what they expect and lets in only calls that are compatible with those in flight, and
compatible calls may rely on each other. -/
structure Verified (S : System Ret Choice World Call ρ)
    (ok : Hist Ret World Call ρ → Hist Ret World Call ρ → Prop) (con : ℕ → Call → Contract Ret World)
    (Q : ℕ → Call → ρ → Log Ret → World → Prop) (Inv : World → Prop) (Compat : Call → Call → Prop) :
    Prop where
  body : ∀ h pid c, Inv h.world → ok h (h.push (.start pid c) h.world) →
    Safe S.exec pid (con pid c) (Q pid c) (S.body c) [] h.world
  keeps : ∀ pid c w w', Inv w → (con pid c).guarantee w w' → Inv w'
  respects : ∀ pid c pid' c' w w', pid ≠ pid' → Compat c c' → (con pid' c').guarantee w w' →
    (con pid c).rely w w'
  expected : ∀ h pid c o r w', Event.start pid c ∈ h.trace →
    ok h (h.push (.did pid o r h.world) w') → (con pid c).expects (log pid h.trace) o h.world
  admitted : ∀ h pid c, ok h (h.push (.start pid c) h.world) → ∀ pid' c',
    Event.start pid' c' ∈ h.trace → (∀ e ∈ h.trace, e.isEnd = true → e.pid ≠ pid') →
      Compat c c' ∧ Compat c' c

/-- What holds in the states of the runs of a verified system. -/
structure Kept (S : System Ret Choice World Call ρ) (con : ℕ → Call → Contract Ret World)
    (Q : ℕ → Call → ρ → Log Ret → World → Prop) (Inv : World → Prop) (Compat : Call → Call → Prop)
    (s : State Ret World Call ρ) : Prop where
  inv : Inv s.hist.world
  running : ∀ pid c p, Event.start pid c ∈ s.hist.trace → s.task pid = some p →
    Safe S.exec pid (con pid c) (Q pid c) p (log pid s.hist.trace) s.hist.world
  compat : ∀ pid c pid' c' p p', pid ≠ pid' → Event.start pid c ∈ s.hist.trace →
    Event.start pid' c' ∈ s.hist.trace → s.task pid = some p → s.task pid' = some p' → Compat c c'
  asserted : ∀ pid c o r w es, Event.start pid c ∈ s.hist.trace →
    .did pid o r w :: es <:+ s.hist.trace → (con pid c).asserts (log pid es) o w
  returned : ∀ pid c a es, Event.start pid c ∈ s.hist.trace → s.hist.trace = .returned pid a :: es →
    Q pid c a (log pid es) s.hist.world

section Verified

variable {S : System Ret Choice World Call ρ}
  {ok : Hist Ret World Call ρ → Hist Ret World Call ρ → Prop} {con : ℕ → Call → Contract Ret World}
  {Q : ℕ → Call → ρ → Log Ret → World → Prop} {Inv : World → Prop} {Compat : Call → Call → Prop}
  {s s' : State Ret World Call ρ}

/-- A step of a call in flight keeps its guarantee. -/
theorem Kept.guarantee (hv : Verified S ok con Q Inv Compat) (hs : Kept S con Q Inv Compat s)
    {pid : ℕ} {c : Call} {o : Op} {k : Ret o → Prog Ret ρ} {choice : Choice} {r : Ret o} {w : World}
    (hstart : Event.start pid c ∈ s.hist.trace) (htask : s.task pid = some (.op o k))
    (hexec : S.exec o pid choice s.hist.world = some (r, w))
    (hok : ok s.hist (s.hist.push (.did pid o r s.hist.world) w)) :
    (con pid c).asserts (log pid s.hist.trace) o s.hist.world ∧
      (con pid c).guarantee s.hist.world w ∧
      Safe S.exec pid (con pid c) (Q pid c) (k r) (⟨o, r⟩ :: log pid s.hist.trace) w := by
  obtain ⟨hasserts, hnext⟩ := hs.running pid c _ hstart htask s.hist.world ((con pid c).rely_refl _)
  exact ⟨hasserts, hnext (hv.expected _ _ _ _ _ _ hstart hok) choice r w hexec⟩

/-- A step changes the world only as a call in flight guarantees. -/
theorem Kept.world_step (hv : Verified S ok con Q Inv Compat) (hl : System.Lifecycle s)
    (hs : Kept S con Q Inv Compat s) (h : System.StepKind S s s') (hok : ok s.hist s'.hist) :
    s'.hist.world = s.hist.world ∨ ∃ pid c p, Event.start pid c ∈ s.hist.trace ∧
      s.task pid = some p ∧ (con pid c).guarantee s.hist.world s'.hist.world := by
  cases h with
  | start c => exact .inl rfl
  | run pid o k choice r w htask hexec =>
    obtain ⟨c, hstart⟩ := hl.start_mem pid (hl.running pid _ htask).1
    exact .inr ⟨pid, c, _, hstart, htask, (hs.guarantee hv hstart htask hexec hok).2.1⟩
  | finish pid a htask => exact .inl rfl
  | crash pid p htask => exact .inl rfl

/-- An event that changes nothing and is not a start. -/
theorem Kept.idle (hs : Kept S con Q Inv Compat s) {e : Event Ret World Call ρ}
    (hlog : ∀ pid es, log pid (e :: es) = log pid es)
    (hstart : ∀ pid c, e ≠ .start pid c) (hdid : ∀ pid o r w, e ≠ .did pid o r w) {n : ℕ}
    (hreturned : ∀ pid c a, Event.start pid c ∈ s.hist.trace → e = .returned pid a →
      Q pid c a (log pid s.hist.trace) s.hist.world) :
    Kept S con Q Inv Compat
      ⟨s.hist.push e s.hist.world, n, Function.update s.task e.pid none⟩ := by
  have hold : ∀ {p c}, Event.start p c ∈ (s.hist.push e s.hist.world).trace →
      Event.start p c ∈ s.hist.trace := by
    intro p c h
    exact (List.mem_cons.mp h).resolve_left fun heq => hstart p c heq.symm
  have htask : ∀ {p q}, Function.update s.task e.pid none p = some q → s.task p = some q := by
    intro p q h
    by_cases hp : p = e.pid
    · rw [hp, Function.update_self] at h
      cases h
    · rwa [Function.update_of_ne hp] at h
  refine ⟨hs.inv, fun p c q h hq => ?_, fun p c p' c' q q' hne h h' hq hq' => ?_,
    fun p c o r w es h hes => ?_, fun p c a es h hes => ?_⟩
  · rw [Hist.push_trace, hlog]
    exact hs.running p c q (hold h) (htask hq)
  · exact hs.compat p c p' c' q q' hne (hold h) (hold h') (htask hq) (htask hq')
  · rcases List.suffix_cons_iff.mp hes with heq | hes
    · exact absurd (List.cons.inj heq).1.symm (hdid p o r w)
    · exact hs.asserted p c o r w es (hold h) hes
  · obtain ⟨rfl, rfl⟩ := List.cons.inj hes
    exact hreturned p c a (hold h) rfl

theorem Kept.step (hv : Verified S ok con Q Inv Compat) (hl : System.Lifecycle s)
    (hs : Kept S con Q Inv Compat s) (h : System.StepKind S s s') (hok : ok s.hist s'.hist) :
    Kept S con Q Inv Compat s' := by
  cases h with
  | start c =>
    have hfresh : ∀ e ∈ s.hist.trace, e.pid ≠ s.started := fun e he => Nat.ne_of_lt (hl.lt_started e he)
    have hcases : ∀ {p c'}, Event.start p c' ∈ (s.hist.push (.start s.started c)
        s.hist.world).trace → (p = s.started ∧ c' = c) ∨
          (p ≠ s.started ∧ Event.start p c' ∈ s.hist.trace) := by
      intro p c' h
      rcases List.mem_cons.mp h with h | h
      · cases h
        exact .inl ⟨rfl, rfl⟩
      · exact .inr ⟨hfresh _ h, h⟩
    refine ⟨hs.inv, fun p c' q h hq => ?_, fun p c₁ p' c₂ q q' hne h₁ h₂ hq hq' => ?_,
      fun p c' o r w es h hes => ?_, fun p c' a es h hes => ?_⟩
    · rw [Hist.push_trace, log_start]
      replace hq : Function.update s.task s.started (some (S.body c)) p = some q := hq
      rcases hcases h with ⟨rfl, rfl⟩ | ⟨hne, h⟩
      · rw [Function.update_self] at hq
        cases hq
        rw [log_eq_nil hfresh]
        exact hv.body s.hist _ _ hs.inv hok
      · rw [Function.update_of_ne hne] at hq
        exact hs.running p c' q h hq
    · -- a new call meets only calls that have not ended
      have hnew : ∀ {p' c₂ q'}, p' ≠ s.started → Event.start p' c₂ ∈ s.hist.trace →
          Function.update s.task s.started (some (S.body c)) p' = some q' →
            Compat c c₂ ∧ Compat c₂ c := by
        intro p' c₂ q' hne h₂ hq'
        rw [Function.update_of_ne hne] at hq'
        exact hv.admitted _ _ _ hok p' c₂ h₂ (hl.running p' q' hq').2
      replace hq : Function.update s.task s.started (some (S.body c)) p = some q := hq
      replace hq' : Function.update s.task s.started (some (S.body c)) p' = some q' := hq'
      rcases hcases h₁ with ⟨hp, hc⟩ | ⟨hne₁, hold₁⟩
      · rcases hcases h₂ with ⟨hp', -⟩ | ⟨hne₂, hold₂⟩
        · exact absurd (hp.trans hp'.symm) hne
        · rw [hc]
          exact (hnew hne₂ hold₂ hq').1
      · rcases hcases h₂ with ⟨-, hc⟩ | ⟨hne₂, hold₂⟩
        · rw [hc]
          exact (hnew hne₁ hold₁ hq).2
        · rw [Function.update_of_ne hne₁] at hq
          rw [Function.update_of_ne hne₂] at hq'
          exact hs.compat p c₁ p' c₂ q q' hne hold₁ hold₂ hq hq'
    · rcases List.suffix_cons_iff.mp hes with heq | hes
      · cases heq
      · rcases hcases h with ⟨hp, -⟩ | ⟨-, h⟩
        · exact absurd hp (hfresh _ (hes.subset List.mem_cons_self))
        · exact hs.asserted p c' o r w es h hes
    · cases hes
  | run pid o k choice r w htask hexec =>
    obtain ⟨c, hstart⟩ := hl.start_mem pid (hl.running pid _ htask).1
    obtain ⟨hasserts, hguarantee, hsafe⟩ := hs.guarantee hv hstart htask hexec hok
    have hold : ∀ {p c}, Event.start p c ∈ (s.hist.push (.did pid o r s.hist.world) w).trace →
        Event.start p c ∈ s.hist.trace := fun h => by simpa using h
    refine ⟨hv.keeps pid c _ _ hs.inv hguarantee, fun p c' q h hq => ?_,
      fun p c₁ p' c₂ q q' hne h₁ h₂ hq hq' => ?_, fun p c' o' r' w' es h hes => ?_,
      fun p c' a es h hes => ?_⟩
    · replace hq : Function.update s.task pid (some (k r)) p = some q := hq
      by_cases hp : p = pid
      · subst hp
        obtain rfl := hl.start_unique p c c' hstart (hold h)
        rw [Function.update_self] at hq
        cases hq
        rw [Hist.push_trace, log_did_self]
        exact hsafe
      · rw [Function.update_of_ne hp] at hq
        rw [Hist.push_trace, log_cons_of_ne fun h => hp h.symm]
        have hcompat := hs.compat p c' pid c q _ hp (hold h) hstart hq htask
        exact (hs.running p c' q (hold h) hq).stable (hv.respects p c' pid c _ _ hp hcompat hguarantee)
    · obtain ⟨q₁, hq₁⟩ := System.exists_of_update htask hq
      obtain ⟨q₂, hq₂⟩ := System.exists_of_update htask hq'
      exact hs.compat p c₁ p' c₂ q₁ q₂ hne (hold h₁) (hold h₂) hq₁ hq₂
    · rcases List.suffix_cons_iff.mp hes with heq | hes
      · cases heq
        obtain rfl := hl.start_unique pid c c' hstart (hold h)
        exact hasserts
      · exact hs.asserted p c' o' r' w' es (hold h) hes
    · cases hes
  | finish pid a htask =>
    refine hs.idle (e := .returned pid a) (fun _ _ => rfl) (by simp) (by simp) fun p c b hstart heq => ?_
    cases heq
    exact hs.running pid c _ hstart htask _ ((con pid c).rely_refl _)
  | crash pid p htask =>
    exact hs.idle (e := .crashed pid) (fun _ _ => rfl) (by simp) (by simp) fun _ _ _ _ heq => by cases heq

/-- **The runs of a verified system keep the invariant**, every call in flight is safe, every
operation was asserted, and a call that has just returned satisfies its postcondition. -/
theorem kept_of_reachable (hv : Verified S ok con Q Inv Compat) {w : World} (h₀ : Inv w)
    (hr : S.ReachableWhen ok (.init w) s) : System.Lifecycle s ∧ Kept S con Q Inv Compat s := by
  refine System.ReachableWhen.rule (J := Kept S con Q Inv Compat) ?_ ?_ hr
  · exact ⟨h₀, by simp [State.init], by simp [State.init], by simp [State.init], by simp [State.init]⟩
  · intro s s' hl _ hs hk hok
    exact hs.step hv hl hk hok

/-- What every guarantee permits, and the whole course between two states of a run. -/
theorem related_of_reachable (hv : Verified S ok con Q Inv Compat) {w : World} (h₀ : Inv w)
    {R : World → World → Prop} (hrefl : ∀ w, R w w) (htrans : ∀ {w₁ w₂ w₃}, R w₁ w₂ → R w₂ w₃ → R w₁ w₃)
    (hR : ∀ pid c w w', (con pid c).guarantee w w' → R w w')
    (hs : S.ReachableWhen ok (.init w) s) (hs' : S.ReachableWhen ok s s') :
    R s.hist.world s'.hist.world := by
  induction hs' with
  | refl => exact hrefl _
  | @tail s₁ s₂ hs₁ hmove ih =>
    obtain ⟨⟨m, hm⟩, hok⟩ := hmove
    obtain ⟨hl, hk⟩ := kept_of_reachable hv h₀ (hs.trans hs₁)
    refine htrans ih ?_
    rcases hk.world_step hv hl (System.stepKind_of_move hm) hok with heq | ⟨pid, c, p, -, -, hg⟩
    · rw [heq]
      exact hrefl _
    · exact hR pid c _ _ hg

end Verified

end Async
