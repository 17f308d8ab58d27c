/-
The history of the memory lifecycle.

A run is any sequence of calls with any arguments, refused calls included.  The
calls that succeeded since the last `initialize_contained` are an initial part of
the one bring-up, whatever else was tried in between.

* `TransitionRun.broughtUp` — the bring-up and the state it led to;
* `ddr_allocation_needs_bringUp` — DDR is allocatable only after the whole ordered
  bring-up, and then the mainstore invariants hold;
* `contained_window_keeps_backing` — an address of the contained window is backed in
  every state, by DDR exactly after the transition completed.
-/
import Jixia.PageManager
import Jixia.Trace

namespace Jixia

open LifecycleState

/-- The order of the bring-up. -/
def bringUp (range : PhysicalRange) : List TransitionCall :=
  [.ddrMarkDiscovered range, .ddrBeginTraining, .ddrMarkTrained, .ddrMarkAddressMapReady,
    .ddrMarkDecodeCommitted, .ddrMarkOnline, .beginMainstoreTransition,
    .markContainedFlushComplete, .completeMainstoreTransition, .enableMainstoreAllocation]

/-- A run of transition calls, with their answers. -/
abbrev TransitionRun (start : LifecycleState) := Trace TransitionCall.apply start

/-- The calls of a run that returned true. -/
def successes (trace : List (TransitionCall × Bool)) : List TransitionCall :=
  trace.filterMap fun entry => if entry.2 then some entry.1 else none

theorem mem_successes {trace : List (TransitionCall × Bool)} {c : TransitionCall} :
    c ∈ successes trace ↔ (c, true) ∈ trace := by
  simp [successes]

theorem successes_refused (trace : List (TransitionCall × Bool)) (c : TransitionCall) :
    successes (trace ++ [(c, false)]) = successes trace := by
  simp [successes]

theorem successes_taken (trace : List (TransitionCall × Bool)) (c : TransitionCall) :
    successes (trace ++ [(c, true)]) = successes trace ++ [c] := by
  simp [successes]

variable {start s : LifecycleState} {trace : List (TransitionCall × Bool)} {textStart : Word}

/-- What a run of transitions has done. -/
structure BroughtUp (start : LifecycleState) (trace : List (TransitionCall × Bool))
    (s : LifecycleState) : Prop where
  consistent : s.Consistent
  contained : s.contained = start.contained
  initialized : start.domain ≠ .uninitialized → s.domain ≠ .uninitialized
  history : ∃ range, successes trace = (bringUp range).take s.progress ∧
    (s.progress ≠ 0 → s.ddrRange = range)

/-- The next call of the bring-up extends its initial part. -/
theorem take_bringUp (c : TransitionCall) (range : PhysicalRange)
    (hc : ∀ r, c = .ddrMarkDiscovered r → r = range) :
    (bringUp range).take (c.rank + 1) = (bringUp range).take c.rank ++ [c] := by
  cases c with
  | ddrMarkDiscovered r =>
    cases hc r rfl
    rfl
  | _ => rfl

theorem Advances.initialized {c : TransitionCall} {s' : LifecycleState} (h : Advances c s s') :
    s'.domain ≠ .uninitialized := by
  intro hdom
  have hp := h.progress
  simp only [LifecycleState.progress, hdom] at hp
  omega

/-- **A run of transitions is an initial part of the bring-up.** -/
theorem TransitionRun.broughtUp (hc : start.Consistent) (hp : start.progress = 0)
    (hr : TransitionRun start trace s) : BroughtUp start trace s := by
  induction hr with
  | nil => exact ⟨hc, rfl, id, {}, by rw [hp]; rfl, fun h => absurd hp h⟩
  | @snoc trace s c _ ih =>
    rcases c.apply_cases ih.consistent with hno | ⟨s', hyes, hadv⟩
    · simp only [hno]
      refine ⟨ih.consistent, ih.contained, ih.initialized, ?_⟩
      rw [successes_refused]
      exact ih.history
    · simp only [hyes]
      obtain ⟨range, hsucc, hrange⟩ := ih.history
      refine ⟨hadv.consistent, hadv.contained.trans ih.contained, fun _ => hadv.initialized, ?_⟩
      rw [successes_taken, hsucc, hadv.progress, ← hadv.rank]
      -- Discovery chooses the range; every later step keeps it.
      by_cases hzero : c.rank = 0
      · obtain ⟨r, rfl⟩ : ∃ r, c = .ddrMarkDiscovered r := by
          cases c with
          | ddrMarkDiscovered r => exact ⟨r, rfl⟩
          | _ => cases hzero
        exact ⟨r, rfl, fun _ => hadv.discovered r rfl⟩
      · refine ⟨range, (take_bringUp c range fun r hcr => ?_).symm, fun _ => ?_⟩
        · rw [hcr] at hzero
          exact absurd rfl hzero
        · rw [hadv.kept hzero]
          exact hrange (hadv.rank ▸ hzero)

/-! ### The whole interface -/

inductive LifecycleCall
  | initializeContained
  | transition (c : TransitionCall)
  deriving DecidableEq

/-- `initialize_contained` returns nothing; it counts as a success. -/
def LifecycleCall.apply (textStart : Word) :
    LifecycleCall → LifecycleState → Bool × LifecycleState
  | .initializeContained, _ => (true, LifecycleState.initializeContained textStart)
  | .transition c, s => c.apply s

/-- A run of lifecycle calls from reset. -/
abbrev LifecycleRun (textStart : Word) := Trace (LifecycleCall.apply textStart) {}

/-- The transition calls since the last `initialize_contained`. -/
def sinceInitialize (trace : List (LifecycleCall × Bool)) : List (TransitionCall × Bool) :=
  trace.foldl (fun since entry =>
    match entry.1 with
    | .initializeContained => []
    | .transition c => since ++ [(c, entry.2)]) []

theorem sinceInitialize_snoc (trace : List (LifecycleCall × Bool)) (entry : LifecycleCall × Bool) :
    sinceInitialize (trace ++ [entry]) =
      match entry.1 with
      | .initializeContained => []
      | .transition c => sinceInitialize trace ++ [(c, entry.2)] := by
  simp [sinceInitialize, List.foldl_append]

theorem LifecycleRun.transitions {trace : List (LifecycleCall × Bool)}
    (hr : LifecycleRun textStart trace s) :
    ∃ start : LifecycleState, start.Consistent ∧ start.progress = 0 ∧
      TransitionRun start (sinceInitialize trace) s := by
  induction hr with
  | nil => exact ⟨{}, consistent_empty, rfl, .nil⟩
  | @snoc trace s c _ ih =>
    rw [sinceInitialize_snoc]
    cases c with
    | initializeContained => exact ⟨_, consistent_initializeContained textStart, rfl, .nil⟩
    | transition c =>
      obtain ⟨start, hc, hp, hrun⟩ := ih
      exact ⟨start, hc, hp, hrun.snoc c⟩

/-! ### DDR becomes allocatable -/

theorem LifecycleState.Consistent.mainstore_of_enabled (hc : s.Consistent)
    (hen : s.ddrAllocationEnabled = true) : s.domain = .mainstore := by
  cases hdom : s.domain with
  | uninitialized => exact absurd hen (by simp [(hc.early (.inl hdom)).2])
  | contained => exact absurd hen (by simp [(hc.early (.inr hdom)).2])
  | transitioning => exact absurd hen (by simp [(hc.transitioning hdom).2])
  | mainstore => rfl

theorem LifecycleState.Consistent.mainstore_covers (hc : s.Consistent)
    (hdom : s.domain = .mainstore) :
    s.ddrRange.containsRange s.contained = true :=
  hc.covers (by rw [(hc.mainstore hdom).1]; exact DdrState.noConfusion)

theorem LifecycleState.Consistent.backing_of_covered (hc : s.Consistent)
    (hdom : s.domain = .mainstore) {address : Word} (ha : s.ddrRange.contains address = true) :
    s.backingFor address = .ddr :=
  backingFor_eq_ddr.mpr ⟨hdom, (hc.mainstore hdom).1, ha⟩

/-- A consistent state that lets DDR pages go passes `validate_mainstore_invariants`. -/
theorem LifecycleState.Consistent.validates (hc : s.Consistent)
    (hen : s.ddrAllocationEnabled = true) : s.validateMainstoreInvariants = true := by
  have hdom := hc.mainstore_of_enabled hen
  have hcovers := hc.mainstore_covers hdom
  obtain ⟨hddr, hwin, _⟩ := PhysicalRange.containsRange_iff.mp hcovers
  have hbacked : ∀ {address}, s.contained.contains address = true →
      s.backingFor address = .ddr := fun ha =>
    hc.backing_of_covered hdom (PhysicalRange.contains_of_containsRange hcovers ha)
  have hfirst := hbacked (PhysicalRange.contains_base hwin)
  have hlast := hbacked (PhysicalRange.contains_last hwin)
  have hend := hc.backing_of_covered hdom (PhysicalRange.contains_last hddr)
  simp [validateMainstoreInvariants, hdom, hc.mainstore hdom, hen, hcovers, hfirst]
  exact ⟨hlast, hend⟩

/-- While DDR is not allocatable, `allocate_page` gives no page that is labelled or
backed by DDR. -/
theorem allocatePage_not_ddr {m : PhysicalMemory} (hen : m.lifecycle.ddrAllocationEnabled = false) :
    m.allocatePage.1.backing ≠ .ddr ∧ (m.allocatePage.1.backing ≠ .unavailable →
      ∀ address, m.lifecycle.backingFor address ≠ .ddr) := by
  rcases m.allocatePage_cases with hno | ⟨range, ranges', _, hb, hyes⟩
  · rw [hno]
    exact ⟨nofun, fun h => absurd rfl h⟩
  · rw [hyes]
    simp only
    cases hkind : range.backing with
    | unavailable => exact ⟨nofun, fun h => absurd rfl h⟩
    | ddr =>
      rw [hkind] at hb
      exact absurd (hen.symm.trans hb) nofun
    | contained =>
      rw [hkind] at hb
      refine ⟨nofun, fun _ address h => ?_⟩
      exact nomatch hb.2.symm.trans (backingFor_eq_ddr.mp h).1

theorem LifecycleCall.apply_refused {c : LifecycleCall} (hc : s.Consistent)
    (h : (c.apply textStart s).1 = false) : (c.apply textStart s).2 = s := by
  cases c with
  | initializeContained => cases h
  | transition c =>
    rcases c.apply_cases hc with hno | ⟨s', hyes, _⟩
    · exact congrArg Prod.snd hno
    · exact absurd (congrArg Prod.fst hyes) (by rw [show (c.apply s).1 = false from h]; nofun)

/-- **DDR becomes allocatable only after the complete, ordered bring-up.**  For every
sequence of calls: in a state with DDR allocation enabled, the calls that succeeded
since the last `initialize_contained` are the whole bring-up in order, and
`validate_mainstore_invariants` holds; without it no allocation is DDR; a refused
call changes nothing. -/
theorem ddr_allocation_needs_bringUp {trace : List (LifecycleCall × Bool)}
    (hr : LifecycleRun textStart trace s) :
    (s.ddrAllocationEnabled = true →
      (∃ range, successes (sinceInitialize trace) = bringUp range) ∧
      s.validateMainstoreInvariants = true) ∧
    (s.ddrAllocationEnabled = false → ∀ m : PhysicalMemory, m.lifecycle = s →
      m.allocatePage.1.backing ≠ .ddr ∧ (m.allocatePage.1.backing ≠ .unavailable →
        ∀ address, s.backingFor address ≠ .ddr)) ∧
    ∀ c : LifecycleCall, (c.apply textStart s).1 = false → (c.apply textStart s).2 = s := by
  obtain ⟨start, hc, hp, hrun⟩ := hr.transitions
  have hup := hrun.broughtUp hc hp
  refine ⟨fun hen => ⟨?_, hup.consistent.validates hen⟩, ?_, fun c =>
    LifecycleCall.apply_refused hup.consistent⟩
  · obtain ⟨range, hsucc, _⟩ := hup.history
    refine ⟨range, hsucc.trans ?_⟩
    rw [progress, hup.consistent.mainstore_of_enabled hen, hen]
    rfl
  · rintro hen m rfl
    exact allocatePage_not_ddr hen

/-- The bring-up over 256 MiB of DDR, with a call out of order on the way. -/
def fullBringUp : List LifecycleCall :=
  .initializeContained :: .transition .ddrMarkOnline ::
    (bringUp ⟨0x80000000, 0x10000000⟩).map .transition

/-- The run of `fullBringUp`. -/
def fullBringUpRun : List (LifecycleCall × Bool) × LifecycleState :=
  Trace.exec (LifecycleCall.apply 0x80000000) fullBringUp ([], {})

theorem ddr_allocation_needs_bringUp_full :
    fullBringUpRun.2.ddrAllocationEnabled = true ∧
      fullBringUpRun.2.validateMainstoreInvariants = true :=
  ⟨by decide, ((ddr_allocation_needs_bringUp (Trace.exec_trace _ fullBringUp _)).1 (by decide)).2⟩

/-! ### The contained window -/

/-- The addresses of the contained window, as the linker script places it. -/
def InContainedWindow (address : Word) : Prop :=
  0x80000000 ≤ address.toNat ∧ address.toNat < 0x80800000

theorem contained_window_iff {address : Word} :
    (initializeContained 0x80000000).contained.contains address = true ↔
      InContainedWindow address := by
  rw [PhysicalRange.contains_iff, and_iff_right (by decide)]
  rfl

namespace BroughtUp

theorem completed_iff (h : BroughtUp start trace s) :
    (.completeMainstoreTransition, true) ∈ trace ↔ s.domain = .mainstore := by
  obtain ⟨range, hsucc, _⟩ := h.history
  rw [← mem_successes, hsucc, mainstore_iff]
  constructor
  · intro hmem
    by_contra hlow
    have := List.take_subset_take_left (bringUp range) (show s.progress ≤ 8 by omega) hmem
    simp [bringUp] at this
  · intro hnine
    exact List.take_subset_take_left (bringUp range) hnine (by simp [bringUp])

theorem nodup (h : BroughtUp start trace s) : (successes trace).Nodup := by
  obtain ⟨range, hsucc, _⟩ := h.history
  rw [hsucc]
  exact (show (bringUp range).Nodup by simp [bringUp]).sublist (List.take_sublist _ _)

theorem discovered (h : BroughtUp start trace s) (hdom : s.domain = .mainstore) :
    (.ddrMarkDiscovered s.ddrRange, true) ∈ trace := by
  obtain ⟨range, hsucc, hrange⟩ := h.history
  rw [← mem_successes, hsucc]
  have hp : 9 ≤ s.progress := mainstore_iff.mp hdom
  rw [hrange (by omega)]
  exact List.take_subset_take_left (bringUp range) (show 1 ≤ s.progress by omega)
    (by simp [bringUp])

end BroughtUp

/-- **Contained firmware addresses never lose their backing.**  After one
`initialize_contained` and any transition calls: an address of the window is
contained until `complete_mainstore_transition` succeeds and DDR from then on, which
happens at most once; an address outside is never contained, and DDR only inside the
discovered range of a mainstore system. -/
theorem contained_window_keeps_backing
    (hr : TransitionRun (initializeContained 0x80000000) trace s) (address : Word) :
    (InContainedWindow address → s.backingFor address =
      if (.completeMainstoreTransition, true) ∈ trace then .ddr else .contained) ∧
    (¬ InContainedWindow address → s.backingFor address ≠ .contained ∧
      (s.backingFor address = .ddr → s.domain = .mainstore ∧
        ∃ range, (.ddrMarkDiscovered range, true) ∈ trace ∧ range.contains address = true)) ∧
    trace.count (.completeMainstoreTransition, true) ≤ 1 := by
  have hup := hr.broughtUp (consistent_initializeContained _) rfl
  have hwindow : s.contained.contains address = true ↔ InContainedWindow address := by
    rw [hup.contained]
    exact contained_window_iff
  refine ⟨fun hin => ?_, fun hout => ⟨fun hb => ?_, fun hb => ?_⟩, ?_⟩
  · split
    · rename_i hdone
      have hdom := hup.completed_iff.mp hdone
      exact hup.consistent.backing_of_covered hdom (PhysicalRange.contains_of_containsRange
        (hup.consistent.mainstore_covers hdom) (hwindow.mpr hin))
    · rename_i hnot
      have hdom := mt hup.completed_iff.mpr hnot
      have hinit := hup.initialized nofun
      refine backingFor_eq_contained.mpr ⟨?_, hwindow.mpr hin⟩
      cases hd : s.domain <;> simp_all
  · exact hout (hwindow.mp (backingFor_eq_contained.mp hb).2)
  · obtain ⟨hdom, _, hin⟩ := backingFor_eq_ddr.mp hb
    exact ⟨hdom, s.ddrRange, hup.discovered hdom, hin⟩
  · have hcount := List.nodup_iff_count_le_one.mp hup.nodup .completeMainstoreTransition
    refine le_trans ?_ hcount
    rw [successes, List.count_filterMap, List.count]
    refine List.countP_mono_left fun entry _ h => ?_
    cases eq_of_beq h
    rfl

/-- The bring-up over 256 MiB of DDR up to the end of the transition. -/
def completedRun : List (TransitionCall × Bool) × LifecycleState :=
  Trace.exec TransitionCall.apply ((bringUp ⟨0x80000000, 0x10000000⟩).take 9)
    ([], initializeContained 0x80000000)

theorem contained_window_keeps_backing_completed :
    completedRun.2.backingFor 0x80000000 = .ddr ∧
      completedRun.1.count (.completeMainstoreTransition, true) ≤ 1 := by
  obtain ⟨hin, _, hcount⟩ := contained_window_keeps_backing
    (Trace.exec_trace _ ((bringUp ⟨0x80000000, 0x10000000⟩).take 9) _) 0x80000000
  exact ⟨(hin ⟨by decide, by decide⟩).trans (if_pos (by decide)), hcount⟩

/-- **`validate_contained_invariants` is exact**: whatever was called, it passes until the first
transition succeeds, and never again. -/
theorem validateContained_iff (hr : TransitionRun (initializeContained 0x80000000) trace s) :
    s.validateContainedInvariants 0x80000000 = true ↔ successes trace = [] := by
  constructor
  · intro hv
    obtain ⟨range, hsucc, -⟩ := (hr.broughtUp (consistent_initializeContained _) rfl).history
    simp only [validateContainedInvariants, Bool.and_eq_true, beq_iff_eq] at hv
    rw [hsucc, show s.progress = 0 by simp [progress, hv, DdrState.rank], List.take_zero]
  · intro hnone
    -- A refused call changes nothing.
    suffices hs : s = initializeContained 0x80000000 by
      rw [hs]
      decide
    induction hr with
    | nil => rfl
    | @snoc trace s c hr ih =>
      have hup := TransitionRun.broughtUp (consistent_initializeContained _) rfl hr
      rcases c.apply_cases hup.consistent with hno | ⟨s', hyes, -⟩
      · simp only [hno, successes_refused] at hnone ⊢
        exact ih hnone
      · simp [hyes, successes_taken] at hnone

theorem validateContained_iff_completed :
    completedRun.2.validateContainedInvariants 0x80000000 ≠ true :=
  (validateContained_iff (Trace.exec_trace _ _ _)).not.mpr (by decide)

end Jixia
