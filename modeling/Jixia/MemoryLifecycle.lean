/-
The memory lifecycle.

`memory_lifecycle.cpp`: the firmware-visible memory domain, the DDR bring-up state
and the backing of a physical address.  A call that can be refused returns a
boolean and the state after it.  The linker symbol `__text_start` is an argument
of the calls that read it.

* `contains_iff`, `containsRange_iff` — ranges as intervals, without wrap-around;
* `backingFor_between` — the addresses of one backing form an interval;
* `apply_cases` — what a transition can do: be refused and change nothing, or take
  its one step of the bring-up.
-/
import Jixia.Kernel

namespace Jixia

inductive MemoryDomain
  | uninitialized | contained | transitioning | mainstore
  deriving DecidableEq

inductive DdrState
  | offline | discovered | training | trained | addressMapReady | decodeCommitted | online
  deriving DecidableEq

inductive BackingKind
  | unavailable | contained | ddr
  deriving DecidableEq

structure PhysicalRange where
  base : Word := 0
  size : Word := 0
  deriving DecidableEq

def kQemuContainedWindowSize : Word := 8 * 1024 * 1024

structure LifecycleState where
  domain : MemoryDomain := .uninitialized
  ddr : DdrState := .offline
  contained : PhysicalRange := {}
  ddrRange : PhysicalRange := {}
  containedFlushComplete : Bool := false
  ddrAllocationEnabled : Bool := false
  deriving DecidableEq

namespace PhysicalRange

/-- `valid_range`; the sum wraps. -/
def valid (range : PhysicalRange) : Bool :=
  range.size != 0 && range.base < range.base + range.size

/-- `contains`. -/
def contains (range : PhysicalRange) (address : Word) : Bool :=
  range.valid && range.base ≤ address && address - range.base < range.size

/-- `contains_range`. -/
def containsRange (outer inner : PhysicalRange) : Bool :=
  outer.valid && inner.valid && outer.base ≤ inner.base &&
    inner.base + inner.size ≤ outer.base + outer.size

end PhysicalRange

namespace LifecycleState

variable (s : LifecycleState)

/-- Every field is set, so nothing of the state before the call is left. -/
def initializeContained (textStart : Word) : LifecycleState :=
  { domain := .contained
    ddr := .offline
    contained := ⟨textStart, kQemuContainedWindowSize⟩
    ddrRange := {}
    containedFlushComplete := false
    ddrAllocationEnabled := false }

def backingFor (address : Word) : BackingKind :=
  if s.domain = .mainstore ∧ s.ddr = .online ∧ s.ddrRange.contains address then .ddr
  else if (s.domain = .contained ∨ s.domain = .transitioning) ∧ s.contained.contains address then
    .contained
  else .unavailable

def validateContainedInvariants (textStart : Word) : Bool :=
  s.domain == .contained && s.ddr == .offline &&
    s.contained.base == textStart && s.contained.size == kQemuContainedWindowSize &&
    !s.ddrRange.valid && !s.containedFlushComplete && !s.ddrAllocationEnabled &&
    s.backingFor s.contained.base == .contained &&
    s.contained.base ≤ s.contained.base + s.contained.size &&
    s.backingFor (s.contained.base + s.contained.size) == .unavailable

def ddrMarkDiscovered (range : PhysicalRange) : Bool × LifecycleState :=
  if s.domain ≠ .contained ∨ s.ddr ≠ .offline ∨ !range.containsRange s.contained then (false, s)
  else (true, { s with ddrRange := range, ddr := .discovered })

/-- The four bring-up steps that only move the DDR state. -/
def advanceDdr (before after : DdrState) : Bool × LifecycleState :=
  if s.domain ≠ .contained ∨ s.ddr ≠ before then (false, s)
  else (true, { s with ddr := after })

def ddrBeginTraining : Bool × LifecycleState := s.advanceDdr .discovered .training

def ddrMarkTrained : Bool × LifecycleState := s.advanceDdr .training .trained

def ddrMarkAddressMapReady : Bool × LifecycleState := s.advanceDdr .trained .addressMapReady

def ddrMarkDecodeCommitted : Bool × LifecycleState :=
  s.advanceDdr .addressMapReady .decodeCommitted

def ddrMarkOnline : Bool × LifecycleState :=
  if s.domain ≠ .contained ∨ s.ddr ≠ .decodeCommitted ∨
      !s.ddrRange.containsRange s.contained then (false, s)
  else (true, { s with ddr := .online })

def beginMainstoreTransition : Bool × LifecycleState :=
  if s.domain ≠ .contained ∨ s.ddr ≠ .online ∨ s.containedFlushComplete ∨
      s.ddrAllocationEnabled then (false, s)
  else (true, { s with domain := .transitioning })

def markContainedFlushComplete : Bool × LifecycleState :=
  if s.domain ≠ .transitioning ∨ s.ddr ≠ .online ∨ s.containedFlushComplete then (false, s)
  else (true, { s with containedFlushComplete := true })

def completeMainstoreTransition : Bool × LifecycleState :=
  if s.domain ≠ .transitioning ∨ s.ddr ≠ .online ∨ !s.containedFlushComplete ∨
      s.ddrAllocationEnabled then (false, s)
  else (true, { s with domain := .mainstore })

def enableMainstoreAllocation : Bool × LifecycleState :=
  if s.domain ≠ .mainstore ∨ s.ddr ≠ .online ∨ !s.containedFlushComplete ∨
      s.ddrAllocationEnabled then (false, s)
  else (true, { s with ddrAllocationEnabled := true })

def validateMainstoreInvariants : Bool :=
  s.domain == .mainstore && s.ddr == .online && s.containedFlushComplete &&
    s.ddrAllocationEnabled && s.ddrRange.containsRange s.contained &&
    s.backingFor s.contained.base == .ddr &&
    s.backingFor (s.contained.base + s.contained.size - 1) == .ddr &&
    s.backingFor (s.ddrRange.base + s.ddrRange.size - 1) == .ddr

end LifecycleState

/-! ### The transition calls -/

/-- The calls that move a contained system towards DDR. -/
inductive TransitionCall
  | ddrMarkDiscovered (range : PhysicalRange)
  | ddrBeginTraining | ddrMarkTrained | ddrMarkAddressMapReady | ddrMarkDecodeCommitted
  | ddrMarkOnline | beginMainstoreTransition | markContainedFlushComplete
  | completeMainstoreTransition | enableMainstoreAllocation
  deriving DecidableEq

namespace TransitionCall

def apply : TransitionCall → LifecycleState → Bool × LifecycleState
  | .ddrMarkDiscovered range, s => s.ddrMarkDiscovered range
  | .ddrBeginTraining, s => s.ddrBeginTraining
  | .ddrMarkTrained, s => s.ddrMarkTrained
  | .ddrMarkAddressMapReady, s => s.ddrMarkAddressMapReady
  | .ddrMarkDecodeCommitted, s => s.ddrMarkDecodeCommitted
  | .ddrMarkOnline, s => s.ddrMarkOnline
  | .beginMainstoreTransition, s => s.beginMainstoreTransition
  | .markContainedFlushComplete, s => s.markContainedFlushComplete
  | .completeMainstoreTransition, s => s.completeMainstoreTransition
  | .enableMainstoreAllocation, s => s.enableMainstoreAllocation

/-- The place of a call in the bring-up. -/
def rank : TransitionCall → ℕ
  | .ddrMarkDiscovered _ => 0
  | .ddrBeginTraining => 1
  | .ddrMarkTrained => 2
  | .ddrMarkAddressMapReady => 3
  | .ddrMarkDecodeCommitted => 4
  | .ddrMarkOnline => 5
  | .beginMainstoreTransition => 6
  | .markContainedFlushComplete => 7
  | .completeMainstoreTransition => 8
  | .enableMainstoreAllocation => 9

end TransitionCall

/-! ### Ranges as intervals -/

namespace PhysicalRange

variable {range outer inner : PhysicalRange} {address : Word}

theorem valid_iff :
    range.valid = true ↔ 0 < range.size.toNat ∧ range.base.toNat + range.size.toNat < 2 ^ 64 := by
  simp only [valid, Bool.and_eq_true, bne_iff_ne, decide_eq_true_eq]
  bv_omega

theorem contains_iff :
    range.contains address = true ↔ range.valid = true ∧ range.base.toNat ≤ address.toNat ∧
      address.toNat < range.base.toNat + range.size.toNat := by
  simp only [contains, Bool.and_eq_true, decide_eq_true_eq, and_assoc, and_congr_right_iff]
  bv_omega

theorem containsRange_iff :
    outer.containsRange inner = true ↔ outer.valid = true ∧ inner.valid = true ∧
      outer.base.toNat ≤ inner.base.toNat ∧
      inner.base.toNat + inner.size.toNat ≤ outer.base.toNat + outer.size.toNat := by
  simp only [containsRange, Bool.and_eq_true, decide_eq_true_eq, and_assoc, and_congr_right_iff]
  intro ho hi
  have := valid_iff.mp ho
  have := valid_iff.mp hi
  bv_omega

/-- What the inner range holds, the outer one holds. -/
theorem contains_of_containsRange (h : outer.containsRange inner = true)
    (ha : inner.contains address = true) : outer.contains address = true := by
  obtain ⟨ho, _, hbase, hend⟩ := containsRange_iff.mp h
  obtain ⟨_, hle, hlt⟩ := contains_iff.mp ha
  exact contains_iff.mpr ⟨ho, by omega, by omega⟩

/-- A range that holds two addresses holds everything between them. -/
theorem contains_between {first last : Word} (hf : range.contains first = true)
    (hl : range.contains last = true) (hfa : first ≤ address) (hal : address ≤ last) :
    range.contains address = true := by
  obtain ⟨hv, _, _⟩ := contains_iff.mp hf
  obtain ⟨_, _, _⟩ := contains_iff.mp hl
  exact contains_iff.mpr ⟨hv, by bv_omega, by bv_omega⟩

theorem contains_base (h : range.valid = true) : range.contains range.base = true := by
  have hv := valid_iff.mp h
  exact contains_iff.mpr ⟨h, le_rfl, by omega⟩

theorem contains_last (h : range.valid = true) :
    range.contains (range.base + range.size - 1) = true := by
  have hv := valid_iff.mp h
  exact contains_iff.mpr ⟨h, by bv_omega, by bv_omega⟩

end PhysicalRange

/-! ### How far the bring-up has come -/

def DdrState.rank : DdrState → ℕ
  | .offline => 0
  | .discovered => 1
  | .training => 2
  | .trained => 3
  | .addressMapReady => 4
  | .decodeCommitted => 5
  | .online => 6

namespace LifecycleState

variable {s : LifecycleState}

/-- The number of bring-up steps taken. -/
def progress (s : LifecycleState) : ℕ :=
  match s.domain with
  | .uninitialized => 0
  | .contained => s.ddr.rank
  | .transitioning => if s.containedFlushComplete then 8 else 7
  | .mainstore => if s.ddrAllocationEnabled then 10 else 9

/-- The last two steps are taken in the mainstore domain. -/
theorem mainstore_iff : s.domain = .mainstore ↔ 9 ≤ s.progress := by
  have hrank : s.ddr.rank ≤ 6 := by cases s.ddr <;> decide
  cases hdom : s.domain with
  | uninitialized => simp [progress, hdom]
  | contained =>
    simp only [progress, hdom, reduceCtorEq, false_iff]
    omega
  | transitioning =>
    simp only [progress, hdom, reduceCtorEq, false_iff]
    split <;> decide
  | mainstore =>
    simp only [progress, hdom, true_iff]
    split <;> decide

/-- The domain, the DDR state and the flags agree, and a discovered DDR range
covers the contained window. -/
structure Consistent (s : LifecycleState) : Prop where
  early : s.domain = .uninitialized ∨ s.domain = .contained →
    s.containedFlushComplete = false ∧ s.ddrAllocationEnabled = false
  transitioning : s.domain = .transitioning → s.ddr = .online ∧ s.ddrAllocationEnabled = false
  mainstore : s.domain = .mainstore → s.ddr = .online ∧ s.containedFlushComplete = true
  covers : s.ddr ≠ .offline → s.ddrRange.containsRange s.contained = true

theorem consistent_of_contained (hdom : s.domain = .contained)
    (hflags : s.containedFlushComplete = false ∧ s.ddrAllocationEnabled = false)
    (hcovers : s.ddr ≠ .offline → s.ddrRange.containsRange s.contained = true) :
    s.Consistent := by
  refine ⟨fun _ => hflags, fun h => ?_, fun h => ?_, hcovers⟩
  · exact nomatch hdom.symm.trans h
  · exact nomatch hdom.symm.trans h

theorem consistent_empty : Consistent {} :=
  ⟨fun _ => ⟨rfl, rfl⟩, nofun, nofun, fun h => absurd rfl h⟩

theorem consistent_initializeContained (textStart : Word) :
    (initializeContained textStart).Consistent :=
  consistent_of_contained rfl ⟨rfl, rfl⟩ fun h => absurd rfl h

/-! ### The backing of an address -/

theorem backingFor_eq_ddr {address : Word} : s.backingFor address = .ddr ↔
    s.domain = .mainstore ∧ s.ddr = .online ∧ s.ddrRange.contains address = true := by
  rw [backingFor]
  split_ifs with hddr hcontained <;> simp_all

theorem backingFor_eq_contained {address : Word} : s.backingFor address = .contained ↔
    (s.domain = .contained ∨ s.domain = .transitioning) ∧
      s.contained.contains address = true := by
  rw [backingFor]
  split_ifs with hddr hcontained
  · simp [hddr.1]
  · simp [hcontained]
  · simp [hcontained]

/-- The addresses of one backing form an interval. -/
theorem backingFor_between {first last address : Word} {backing : BackingKind}
    (hne : backing ≠ .unavailable) (hf : s.backingFor first = backing)
    (hl : s.backingFor last = backing) (hfa : first ≤ address) (hal : address ≤ last) :
    s.backingFor address = backing := by
  cases backing with
  | unavailable => exact absurd rfl hne
  | contained =>
    obtain ⟨hdom, hf⟩ := backingFor_eq_contained.mp hf
    obtain ⟨_, hl⟩ := backingFor_eq_contained.mp hl
    exact backingFor_eq_contained.mpr ⟨hdom, PhysicalRange.contains_between hf hl hfa hal⟩
  | ddr =>
    obtain ⟨hdom, hddr, hf⟩ := backingFor_eq_ddr.mp hf
    obtain ⟨_, _, hl⟩ := backingFor_eq_ddr.mp hl
    exact backingFor_eq_ddr.mpr ⟨hdom, hddr, PhysicalRange.contains_between hf hl hfa hal⟩

end LifecycleState

/-- One step of the bring-up, taken by the call `c`. -/
structure Advances (c : TransitionCall) (s s' : LifecycleState) : Prop where
  rank : c.rank = s.progress
  progress : s'.progress = c.rank + 1
  consistent : s'.Consistent
  contained : s'.contained = s.contained
  discovered : ∀ range, c = .ddrMarkDiscovered range → s'.ddrRange = range
  kept : c.rank ≠ 0 → s'.ddrRange = s.ddrRange

namespace TransitionCall

variable {s : LifecycleState}

/-- The shape of a guarded step: refused, or `after` with the guard passed. -/
theorem guarded_cases {P : Prop} [Decidable P] {after : LifecycleState} {c : TransitionCall}
    (h : c.apply s = if P then (false, s) else (true, after)) (ha : ¬ P → Advances c s after) :
    c.apply s = (false, s) ∨ ∃ s', c.apply s = (true, s') ∧ Advances c s s' := by
  by_cases hp : P
  · exact .inl (by rw [h, if_pos hp])
  · exact .inr ⟨after, by rw [h, if_neg hp], ha hp⟩

/-- **A transition is refused and changes nothing, or takes its own step.** -/
theorem apply_cases (hs : s.Consistent) (c : TransitionCall) :
    c.apply s = (false, s) ∨ ∃ s', c.apply s = (true, s') ∧ Advances c s s' := by
  have hadvance : ∀ {c : TransitionCall} {before after : DdrState},
      c.apply s = s.advanceDdr before after → c.rank = before.rank → before.rank ≠ 0 →
      after.rank = before.rank + 1 → (∀ range, c ≠ .ddrMarkDiscovered range) →
      c.apply s = (false, s) ∨ ∃ s', c.apply s = (true, s') ∧ Advances c s s' := by
    intro c before after happly hrank hne hafter hc
    refine guarded_cases happly fun hg => ?_
    obtain ⟨hdom, hddr⟩ : s.domain = .contained ∧ s.ddr = before := by simpa using hg
    have hflags := hs.early (.inr hdom)
    refine ⟨?_, ?_, LifecycleState.consistent_of_contained hdom hflags fun _ => hs.covers ?_,
      rfl, fun r hr => absurd hr (hc r), fun _ => rfl⟩
    · rw [LifecycleState.progress, hdom, hrank, ← hddr]
    · simp only [LifecycleState.progress, hdom, hafter, hrank]
    · rintro hoff
      rw [← hddr, hoff] at hne
      exact hne rfl
  cases c with
  | ddrMarkDiscovered range =>
    refine guarded_cases rfl fun hg => ?_
    obtain ⟨hdom, hddr, hcovers⟩ : s.domain = .contained ∧ s.ddr = .offline ∧
        range.containsRange s.contained = true := by simpa using hg
    have hflags := hs.early (.inr hdom)
    refine ⟨?_, ?_, LifecycleState.consistent_of_contained hdom hflags fun _ => hcovers,
      rfl, ?_, fun h => absurd rfl h⟩
    · rw [LifecycleState.progress, hdom, hddr]
      rfl
    · simp only [LifecycleState.progress, hdom]
      rfl
    · rintro r ⟨⟩
      rfl
  | ddrBeginTraining => exact hadvance rfl rfl (by decide) rfl fun _ => nofun
  | ddrMarkTrained => exact hadvance rfl rfl (by decide) rfl fun _ => nofun
  | ddrMarkAddressMapReady => exact hadvance rfl rfl (by decide) rfl fun _ => nofun
  | ddrMarkDecodeCommitted => exact hadvance rfl rfl (by decide) rfl fun _ => nofun
  | ddrMarkOnline =>
    refine guarded_cases rfl fun hg => ?_
    obtain ⟨hdom, hddr, hcovers⟩ : s.domain = .contained ∧ s.ddr = .decodeCommitted ∧
        s.ddrRange.containsRange s.contained = true := by simpa using hg
    have hflags := hs.early (.inr hdom)
    refine ⟨?_, ?_, LifecycleState.consistent_of_contained hdom hflags fun _ => hcovers,
      rfl, nofun, fun _ => rfl⟩
    · rw [LifecycleState.progress, hdom, hddr]
      rfl
    · simp only [LifecycleState.progress, hdom]
      rfl
  | beginMainstoreTransition =>
    refine guarded_cases rfl fun hg => ?_
    obtain ⟨hdom, hddr, hflush, halloc⟩ : s.domain = .contained ∧ s.ddr = .online ∧
        s.containedFlushComplete = false ∧ s.ddrAllocationEnabled = false := by simpa using hg
    refine ⟨?_, ?_, ⟨nofun, fun _ => ⟨hddr, halloc⟩, nofun, hs.covers⟩, rfl, nofun, fun _ => rfl⟩
    · rw [LifecycleState.progress, hdom, hddr]
      rfl
    · simp [LifecycleState.progress, hflush, rank]
  | markContainedFlushComplete =>
    refine guarded_cases rfl fun hg => ?_
    obtain ⟨hdom, -, hflush⟩ : s.domain = .transitioning ∧ s.ddr = .online ∧
        s.containedFlushComplete = false := by simpa using hg
    refine ⟨?_, ?_, ⟨?_, hs.transitioning, ?_, hs.covers⟩, rfl, nofun, fun _ => rfl⟩
    · simp [LifecycleState.progress, hdom, hflush, rank]
    · simp [LifecycleState.progress, hdom, rank]
    · rintro (h | h)
      · exact nomatch hdom.symm.trans h
      · exact nomatch hdom.symm.trans h
    · exact fun h => nomatch hdom.symm.trans h
  | completeMainstoreTransition =>
    refine guarded_cases rfl fun hg => ?_
    obtain ⟨hdom, hddr, hflush, halloc⟩ : s.domain = .transitioning ∧ s.ddr = .online ∧
        s.containedFlushComplete = true ∧ s.ddrAllocationEnabled = false := by simpa using hg
    refine ⟨?_, ?_, ⟨nofun, nofun, fun _ => ⟨hddr, hflush⟩, hs.covers⟩, rfl, nofun, fun _ => rfl⟩
    · simp [LifecycleState.progress, hdom, hflush, rank]
    · simp [LifecycleState.progress, halloc, rank]
  | enableMainstoreAllocation =>
    refine guarded_cases rfl fun hg => ?_
    obtain ⟨hdom, -, -, halloc⟩ : s.domain = .mainstore ∧ s.ddr = .online ∧
        s.containedFlushComplete = true ∧ s.ddrAllocationEnabled = false := by simpa using hg
    refine ⟨?_, ?_, ⟨?_, ?_, hs.mainstore, hs.covers⟩, rfl, nofun, fun _ => rfl⟩
    · simp [LifecycleState.progress, hdom, halloc, rank]
    · simp [LifecycleState.progress, hdom, rank]
    · rintro (h | h)
      · exact nomatch hdom.symm.trans h
      · exact nomatch hdom.symm.trans h
    · exact fun h => nomatch hdom.symm.trans h

end TransitionCall

end Jixia
