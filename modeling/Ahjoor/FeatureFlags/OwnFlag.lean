import Ahjoor.FeatureFlags.FeatureFlagService

/-!
# Setting one flag and the others

A call writes the whole record back, as it has read it, with its own entry changed. So the other
flags keep what they have **as long as the record that is stored at the write is the one that was
read**: a read that failed, or a write in between, loses them (`not_keepsOthers`).
-/

namespace Ahjoor.FeatureFlags

open Async Users

/-! ### What is claimed -/

/-- The flag of this name that is stored. -/
def World.flag (w : World) (name : String) : Option FeatureFlagConfig :=
  (w.flags.getD ∅).lookup name

/-- What the last write of a `setFlag` call for this name was asked to set. -/
def lastSet (name : String) : Events → Option PartialConfig
  | [] => none
  | .did pid (.set _) _ _ :: es =>
      match callOf pid es with
      | some (.setFlag n config) => if n = name then some config else lastSet name es
      | _ => lastSet name es
  | _ :: es => lastSet name es

/-- The flag has the configuration that was asked for. -/
def FeatureFlagConfig.isSet (flag : FeatureFlagConfig) (name : String) (config : PartialConfig) :
    Bool :=
  flag = flagOf name config (some flag) flag.updatedAt

/-- **Each flag that no call deletes** keeps existing, with the configuration of the last call that
has set it, or as it was at first. -/
def KeepsOthers (w₀ : World) (h : History) : Prop :=
  ∀ name, (∀ pid, Event.start pid (.deleteFlag name) ∉ h.trace) →
    match lastSet name h.trace with
    | some config => ∃ flag, h.world.flag name = some flag ∧ flag.isSet name config = true
    | none => h.world.flag name = w₀.flag name

/-! ### When it holds -/

/-- The record that a call has read. -/
def readBy (pid : ℕ) (es : Events) : Option Flags :=
  (log pid es).findSome? fun e =>
    match e with
    | ⟨.get, r⟩ => some (Option.getD (α := Flags) r ∅)
    | _ => none

/-- A step that writes finds the record **as its call has read it**, its write takes effect, and its
flag has a name of its own. -/
def writesWhatItRead (h h' : History) : Bool :=
  match h'.trace with
  | .did pid (.set flags) _ _ :: es =>
      decide ((readBy pid es).map AList.entries = some (h.world.flags.getD ∅).entries) &&
        decide (h'.world.flags.map AList.entries = some flags.entries) &&
        !decide ((callOf pid es).map Call.name = some "__proto__")
  | _ => true

/-! ### What a call writes -/

/-- A call writes the record that it has read, with its own entry changed. -/
def Changes (c : Call) (L : Log Op.Ret) : Op → Prop
  | .set flags => ∃ r : Option Flags,
      match c with
      | .setFlag name config => ∃ now : ℤ, L = [⟨.dateNow, now⟩, ⟨.get, r⟩] ∧
          flags = put name (flagOf name config ((r.getD ∅).lookup name) now) (r.getD ∅)
      | .deleteFlag name => L = [⟨.get, r⟩] ∧ flags = (r.getD ∅).erase name
  | _ => True

theorem follows_body (c : Call) : Follows (Changes c) (fun _ _ => True) (system.body c) [] := by
  suffices hobeys : Obeys (Changes c) (request c) Anyhow Anyhow () [] from
    hobeys.follows.bind fun _ _ _ => trivial
  cases c with
  | setFlag name config =>
    refine .bind (.bind (.bind (.perform trivial fun r => .pure ?_)))
    refine .bind (.perform trivial fun now => ?_)
    refine .bind (.bind (.throwWhen (fun _ => trivial) fun _ => ?_))
    refine .bind (.throwWhen (fun _ => trivial) fun _ => ?_)
    refine .throwWhen (fun _ => trivial) fun _ => ?_
    exact .bind (.perform ⟨r, now, rfl, rfl⟩ fun _ => .pure (.pure trivial))
  | deleteFlag name =>
    refine .bind (.bind (.bind (.perform trivial fun r => .pure ?_)))
    refine .bind (.throwWhen (fun _ => trivial) fun _ => ?_)
    exact .perform ⟨r, rfl, rfl⟩ fun _ => .pure trivial

/-! ### Entries of the record -/

/-- A record is made up of its entries. -/
theorem eq_some_of_entries {o : Option Flags} {flags : Flags}
    (h : o.map AList.entries = some flags.entries) : o = some flags := by
  obtain ⟨flags', rfl, hentries⟩ := Option.map_eq_some_iff.mp h
  rw [AList.ext hentries]

section Entries

variable {flags : Flags} {name name' : String} {flag : FeatureFlagConfig}

theorem lookup_put_self (h : name ≠ "__proto__") : (put name flag flags).lookup name = some flag := by
  rw [put, if_neg fun hproto => h hproto.1, AList.lookup_insert]

theorem lookup_put_of_ne (h : name' ≠ name) :
    (put name flag flags).lookup name' = flags.lookup name' := by
  rw [put]
  split_ifs
  · rfl
  · exact AList.lookup_insert_ne h

/-- A flag that has been made from a configuration has it. -/
theorem isSet_flagOf (config : PartialConfig) (existingFlag : Option FeatureFlagConfig) (now : ℤ) :
    (flagOf name config existingFlag now).isSet name config = true :=
  decide_eq_true rfl

end Entries

/-! ### The steps -/

section Steps

variable {w₀ : World} {h : History}

/-- A step that leaves the record alone, and writes nothing. -/
theorem KeepsOthers.quiet (hk : KeepsOthers w₀ h)
    {e : Event Op.Ret World Call (Except Exc (Option FeatureFlagConfig))} {w : World}
    (hflags : w.flags = h.world.flags)
    (hlast : ∀ name, lastSet name (e :: h.trace) = lastSet name h.trace) :
    KeepsOthers w₀ (h.push e w) := by
  intro name hnot
  have hflag : w.flag name = h.world.flag name := by rw [World.flag, hflags, World.flag]
  rw [Hist.push_trace, Hist.push_world, hlast, hflag]
  exact hk name fun pid hstart => hnot pid (List.mem_cons_of_mem _ hstart)

/-- **A write of the record that is stored**, with one entry changed, keeps the others. -/
theorem KeepsOthers.write (hk : KeepsOthers w₀ h) {pid : ℕ} {c : Call} {flags : Flags}
    (hcall : callOf pid h.trace = some c) (hstart : Event.start pid c ∈ h.trace)
    (hproto : c.name ≠ "__proto__")
    (hflags : match c with
      | .setFlag name config => ∃ existingFlag now,
          flags = put name (flagOf name config existingFlag now) (h.world.flags.getD ∅)
      | .deleteFlag name => flags = (h.world.flags.getD ∅).erase name) :
    KeepsOthers w₀ (h.push (.did pid (.set flags) () h.world) ⟨some flags⟩) := by
  intro name hnot
  have hold := hk name fun pid' hstart' => hnot pid' (List.mem_cons_of_mem _ hstart')
  rw [Hist.push_trace, Hist.push_world, lastSet, hcall]
  cases c with
  | setFlag n config =>
    obtain ⟨existingFlag, now, rfl⟩ := hflags
    dsimp only
    rcases eq_or_ne n name with rfl | hne
    · rw [if_pos rfl]
      exact ⟨_, lookup_put_self hproto, isSet_flagOf config existingFlag now⟩
    · have hflag : World.flag ⟨some (put n (flagOf n config existingFlag now)
          (h.world.flags.getD ∅))⟩ name = h.world.flag name := lookup_put_of_ne hne.symm
      rw [if_neg hne, hflag]
      exact hold
  | deleteFlag n =>
    obtain rfl := hflags
    have hne : name ≠ n := by
      rintro rfl
      exact hnot pid (List.mem_cons_of_mem _ hstart)
    have hflag : World.flag ⟨some ((h.world.flags.getD ∅).erase n)⟩ name = h.world.flag name :=
      AList.lookup_erase_ne hne
    dsimp only
    rw [hflag]
    exact hold

/-- **The step**: by what is written. -/
theorem KeepsOthers.step (hk : KeepsOthers w₀ h) {h' : History}
    (hd : Disciplined Changes (fun _ _ _ => True) h)
    (hs : HistStep system Changes h h') (hok : writesWhatItRead h h' = true) :
    KeepsOthers w₀ h' := by
  cases hs with
  | idle e he hlive =>
    refine hk.quiet rfl fun name => ?_
    cases e with
    | did p o r w => exact absurd rfl (not_did_of_log he p o r w)
    | start p c | returned p a | crashed p => rfl
  | did pid c o choice r w hstart hD hexec hlive =>
    have hexec : exec o pid choice h.world = some (r, w) := hexec
    cases o with
    | dateNow =>
      have hworld : w = h.world := by
        cases choice <;> cases hexec
        rfl
      exact hk.quiet (by rw [hworld]) fun _ => rfl
    | get =>
      have hworld : w = h.world := by cases choice <;> cases hexec <;> rfl
      exact hk.quiet (by rw [hworld]) fun _ => rfl
    | set flags =>
      have hcall : callOf pid h.trace = some c :=
        callOf_of_start (fun c' hc' => hd.start_unique pid c' c hc' hstart) hstart
      simp only [writesWhatItRead, Hist.push_trace, Hist.push_world, hcall, Option.map_some,
        Bool.and_eq_true, Bool.not_eq_true', decide_eq_false_iff_not, Option.some.injEq] at hok
      obtain ⟨⟨hread, hwritten⟩, hproto⟩ := hok
      have hread : readBy pid h.trace = some (h.world.flags.getD ∅) :=
        eq_some_of_entries (of_decide_eq_true hread)
      obtain rfl : w = ⟨some flags⟩ :=
        congrArg World.mk (eq_some_of_entries (of_decide_eq_true hwritten))
      refine hk.write hcall hstart hproto ?_
      cases c with
      | setFlag name config =>
        obtain ⟨r', now, hlog, hflags⟩ := hD
        have hread' : r'.getD ∅ = h.world.flags.getD ∅ := by
          simpa [readBy, hlog] using hread
        exact ⟨_, now, by rw [hflags, hread']⟩
      | deleteFlag name =>
        obtain ⟨r', hlog, hflags⟩ := hD
        have hread' : r'.getD ∅ = h.world.flags.getD ∅ := by
          simpa [readBy, hlog] using hread
        exact hread' ▸ hflags

end Steps

/-- **Setting one flag keeps the others** in every run in which each write finds the record as its
call has read it, and takes effect. -/
theorem keepsOthers_of_writesWhatItRead {w₀ : World}
    {s : State Op.Ret World Call (Except Exc (Option FeatureFlagConfig))}
    (hs : system.ReachableWhen (fun h h' => writesWhatItRead h h' = true) (.init w₀) s) :
    KeepsOthers w₀ s.hist :=
  hist_invariant follows_body (I := KeepsOthers w₀) (fun _ _ => rfl)
    (fun _ _ hd _ hk hstep hok => hk.step hd hstep hok) hs

/-! ### Two flags -/

namespace Sample

/-- A flag that is on for everyone. -/
def everyone : PartialConfig := { strategy := some .ENABLED_FOR_ALL }

/-- Two flags, set at the beginning. -/
def world : World where
  flags := some (put "a" (flagOf "a" everyone none 0) (put "b" (flagOf "b" everyone none 0) ∅))

/-- A third flag is set, and one of the two deleted, one call after the other. -/
def inTurn : List (Move Choice Call) :=
  [.start (.setFlag "c" everyone), .run 0 .succeeds, .run 0 (.now 1), .run 0 .succeeds, .finish 0,
    .start (.deleteFlag "b"), .run 1 .succeeds, .run 1 .answerLost, .finish 1]

/-- A flag is set by a call whose read fails. -/
def failedRead : List (Move Choice Call) :=
  [.start (.setFlag "b" everyone), .run 0 .fails, .run 0 (.now 1), .run 0 .succeeds, .finish 0]

/-- Two calls at once, for different flags. -/
def atOnce : List (Move Choice Call) :=
  [.start (.setFlag "a" {}), .start (.setFlag "b" {}), .run 0 .succeeds, .run 1 .succeeds,
    .run 0 (.now 1), .run 0 .succeeds, .finish 0, .run 1 (.now 2), .run 1 .succeeds, .finish 1]

/-- No flag is deleted. -/
def deletesNone : Event Op.Ret World Call (Except Exc (Option FeatureFlagConfig)) → Bool
  | .start _ (.deleteFlag _) => false
  | _ => true

end Sample

/-- One call after the other keeps the third flag. -/
theorem keepsOthers_sample : ∃ s : State Op.Ret World Call (Except Exc (Option FeatureFlagConfig)),
    KeepsOthers Sample.world s.hist ∧ s.hist.world.flag "a" = Sample.world.flag "a" := by
  obtain ⟨s, hs, hflag⟩ := System.exists_of_replay system
    (fun h h' => writesWhatItRead h h' = true) (.init Sample.world) Sample.inTurn
    (fun s => decide (s.hist.world.flag "a" = Sample.world.flag "a")) (by decide +kernel)
  exact ⟨s, keepsOthers_of_writesWhatItRead hs, of_decide_eq_true hflag⟩

/-- **A failed read loses every other flag**: setting one leaves only that one. -/
theorem not_keepsOthers :
    ¬ ∀ s, system.Reachable (.init Sample.world) s → KeepsOthers Sample.world s.hist := by
  intro h
  obtain ⟨s, hs, hlost⟩ := System.exists_of_replay system (fun _ _ => True) (.init Sample.world)
    Sample.failedRead (fun s => (s.hist.world.flag "a").isNone &&
      (lastSet "a" s.hist.trace).isNone && s.hist.trace.all Sample.deletesNone) (by decide +kernel)
  simp only [Bool.and_eq_true, Option.isNone_iff_eq_none] at hlost
  obtain ⟨⟨hflag, hlast⟩, hall⟩ := hlost
  have hkept := h s hs "a" fun pid hstart =>
    absurd (List.all_eq_true.mp hall _ hstart) (by simp [Sample.deletesNone])
  rw [hlast, hflag] at hkept
  exact absurd hkept (by decide)

/-- The later of two overlapping writes takes back what the other has set. -/
example : (system.replay (fun _ _ => True) (.init Sample.world) Sample.atOnce).any
    (fun s => lastSet "a" s.hist.trace = some {} &&
      s.hist.world.flag "a" = Sample.world.flag "a") = true := by
  decide +kernel

end Ahjoor.FeatureFlags
