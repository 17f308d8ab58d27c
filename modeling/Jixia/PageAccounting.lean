/-
Page accounting.

`allocate_page` tells success by the address it returns, and `remaining_pages` counts
what the ranges of one backing still hold.

* `Carved.remaining` — a carved page is one page less of its backing, and of no other;
* `allocatePage_usable` — how many allocations succeed before one fails;
* `allocatePage_accounts_iff` — a failed allocation consumes nothing and a successful one
  exactly one page, unless the range that serves it gives its page at the null address;
* `allocatePage_loses_null_page` — DDR that starts at address 0 loses its first page to
  an allocation that reports failure.
-/
import Jixia.PageAllocation

namespace Jixia

open LifecycleState PhysicalMemory

/-! ### The backing that is served -/

/-- The backing that `allocate_page` serves. -/
def LifecycleState.servedBacking (s : LifecycleState) : Option BackingKind :=
  if s.ddrAllocationEnabled then some .ddr
  else if s.domain = .contained then some .contained
  else none

variable {m m' : PhysicalMemory} {backing kind : BackingKind}

theorem allocatePage_unserved (h : m.lifecycle.servedBacking = none) :
    m.allocatePage = ({}, m) := by
  rw [servedBacking] at h
  split at h
  · cases h
  · rename_i hen
    split at h
    · cases h
    · rename_i hdom
      rw [allocatePage, if_neg hen, if_neg hdom]

theorem allocatePage_served (h : m.lifecycle.servedBacking = some backing) :
    m.allocatePage = m.allocateFrom backing := by
  rw [servedBacking] at h
  split at h
  · rename_i hen
    cases h
    rw [allocatePage, if_pos hen]
  · rename_i hen
    split at h
    · rename_i hdom
      cases h
      rw [allocatePage, if_neg hen, if_pos hdom]
    · cases h

theorem servedBacking_ne (h : m.lifecycle.servedBacking = some backing) :
    backing ≠ .unavailable := by
  rintro rfl
  rw [servedBacking] at h
  split at h
  · cases h
  · split at h <;> cases h

/-! ### Counting pages -/

/-- The pages of a backing that a range still holds. -/
def ManagedRange.remaining (backing : BackingKind) (range : ManagedRange) : ℕ :=
  if range.backing = backing ∧ range.next < range.limit then
    ((range.limit - range.next) / kPageSize).toNat
  else 0

/-- The count in natural numbers; an exhausted range counts 0 pages either way. -/
theorem ManagedRange.Ok.remaining_eq {range : ManagedRange} (h : range.Ok)
    (hb : range.backing = backing) :
    range.remaining backing = (range.limit.toNat - range.next.toNat) / 4096 := by
  have hle : range.next.toNat ≤ range.limit.toNat := h.next_le
  rw [remaining]
  split
  · rw [BitVec.toNat_udiv, BitVec.toNat_sub_of_le h.next_le, toNat_kPageSize]
  · rename_i hno
    have hfull : range.limit.toNat ≤ range.next.toNat :=
      Nat.le_of_not_lt fun hlt => hno ⟨hb, BitVec.lt_def.mpr hlt⟩
    omega

/-- An advanced range holds one page less. -/
theorem ManagedRange.Ok.remaining_advanced {range : ManagedRange} (h : range.Ok)
    (hroom : range.next < range.limit) (kind : BackingKind) :
    range.remaining kind =
      range.advanced.remaining kind + if range.backing = kind then 1 else 0 := by
  by_cases hb : range.backing = kind
  · have hnext := h.toNat_advanced_next hroom
    have hlt := h.next_lt hroom
    rw [h.remaining_eq hb, (h.advance hroom).remaining_eq (range.advanced_backing.trans hb), hnext,
      advanced_limit, if_pos hb]
    omega
  · simp only [remaining, advanced_backing, hb, false_and, if_false]

/-- **A carved page is one page less of its backing**, and of no other. -/
theorem Carved.remaining {ranges ranges' : List ManagedRange} {range : ManagedRange}
    (hc : Carved ranges range ranges') (hok : range.Ok) :
    (ranges.map (ManagedRange.remaining kind)).sum =
      (ranges'.map (ManagedRange.remaining kind)).sum +
        if range.backing = kind then 1 else 0 := by
  obtain ⟨before, after, rfl, rfl⟩ := hc.split
  simp only [List.map_append, List.map_cons, List.sum_append, List.sum_cons,
    hok.remaining_advanced hc.room kind]
  omega

/-- Where no range gives a page, none of the backing is left. -/
theorem remaining_of_carve_none {ranges : List ManagedRange} (h : carve backing ranges = none) :
    (ranges.map (ManagedRange.remaining backing)).sum = 0 := by
  rw [List.sum_eq_zero_iff_forall_eq_nat]
  intro count hcount
  obtain ⟨range, hrange, rfl⟩ := List.mem_map.mp hcount
  refine if_neg fun hc => ?_
  exact List.find?_eq_none.mp (find?_of_carve_none h) range hrange (decide_eq_true hc)

/-! ### The pages to come -/

/-- The pages of a backing that a range will give, in their order. -/
def ManagedRange.freePages (backing : BackingKind) (range : ManagedRange) : List Word :=
  (List.range (range.remaining backing)).map (pageAt range.next)

/-- The pages that `allocate_page` will give. -/
def PhysicalMemory.freePages (m : PhysicalMemory) : List Word :=
  m.lifecycle.servedBacking.elim [] fun backing =>
    m.ranges.flatMap (ManagedRange.freePages backing)

/-- The allocations that will succeed before one fails; the page at the null address is
taken for a failure. -/
def PhysicalMemory.usablePages (m : PhysicalMemory) : ℕ :=
  (m.freePages.takeWhile (· != 0)).length

theorem ManagedRange.Ok.freePages_eq {range : ManagedRange} (h : range.Ok)
    (hroom : range.next < range.limit) (hb : range.backing = backing) :
    range.freePages backing = range.next :: range.advanced.freePages backing := by
  have hcount := h.remaining_advanced hroom backing
  rw [if_pos hb] at hcount
  have hnext : pageAt range.advanced.next = pageAt range.next ∘ Nat.succ :=
    funext fun i => pageAt_next range.next i
  simp only [freePages, hcount, List.range_succ_eq_map, List.map_cons, List.map_map, pageAt_zero,
    hnext]

/-- A carved page is the first of the pages to come. -/
theorem carve_freePages {ranges ranges' : List ManagedRange} {address : Word}
    (hok : ∀ range ∈ ranges, range.Ok) (h : carve backing ranges = some (address, ranges')) :
    ranges.flatMap (ManagedRange.freePages backing) =
      address :: ranges'.flatMap (ManagedRange.freePages backing) := by
  induction ranges generalizing ranges' with
  | nil => cases h
  | cons range rest ih =>
    rw [carve] at h
    split at h
    · rename_i hskip
      obtain ⟨⟨address', rest'⟩, hrest, heq⟩ := Option.map_eq_some_iff.mp h
      cases heq
      have hnone : range.freePages backing = [] := by
        have hserves := ManagedRange.serves_eq_false_iff.mpr hskip
        rw [ManagedRange.freePages, ManagedRange.remaining, if_neg (of_decide_eq_false hserves)]
        rfl
      rw [List.flatMap_cons, List.flatMap_cons, hnone,
        ih (fun r hr => hok r (List.mem_cons_of_mem _ hr)) hrest]
      rfl
    · rename_i hgive
      cases h
      obtain ⟨hb, hroom⟩ := not_or.mp hgive
      rw [List.flatMap_cons, (hok range List.mem_cons_self).freePages_eq (BitVec.not_le.mp hroom)
        (not_not.mp hb)]
      rfl

/-- **An allocation succeeds exactly when a usable page is left**, and takes it. -/
theorem allocatePage_usable (hok : ∀ range ∈ m.ranges, range.Ok) :
    m.allocatePage.1.valid = true ∧ m.usablePages = m.allocatePage.2.usablePages + 1 ∨
      m.allocatePage.1.valid = false ∧ m.usablePages = 0 := by
  cases hserved : m.lifecycle.servedBacking with
  | none =>
    rw [allocatePage_unserved hserved, usablePages, PhysicalMemory.freePages, hserved]
    exact .inr ⟨rfl, rfl⟩
  | some backing =>
    rw [allocatePage_served hserved, allocateFrom]
    cases hcarve : Jixia.carve backing m.ranges with
    | none =>
      refine .inr ⟨rfl, ?_⟩
      have hnone : m.ranges.flatMap (ManagedRange.freePages backing) = [] := by
        have hsum := remaining_of_carve_none hcarve
        rw [List.sum_eq_zero_iff_forall_eq_nat] at hsum
        refine List.flatMap_eq_nil_iff.mpr fun range hrange => ?_
        rw [ManagedRange.freePages, hsum _ (List.mem_map_of_mem hrange)]
        rfl
      simp only [usablePages, PhysicalMemory.freePages, hserved, Option.elim_some, hnone,
        List.takeWhile_nil, List.length_nil]
    | some result =>
      obtain ⟨address, ranges'⟩ := result
      have hfree := carve_freePages hok hcarve
      by_cases hnull : address = 0
      · refine .inr ⟨by simp [Allocation.valid, hnull], ?_⟩
        simp only [usablePages, PhysicalMemory.freePages, hserved, Option.elim_some, hfree, hnull,
          List.takeWhile_cons, bne_self_eq_false, Bool.false_eq_true, if_false, List.length_nil]
      · refine .inl ⟨Allocation.valid_iff.mpr ⟨hnull, servedBacking_ne hserved⟩, ?_⟩
        simp only [usablePages, PhysicalMemory.freePages, hserved, Option.elim_some, hfree,
          List.takeWhile_cons, bne_iff_ne.mpr hnull, if_true, List.length_cons]

/-! ### The allocation law -/

/-- What the result of `allocate_page` says about the pages: a failure leaves the
ranges and the bytes and finds the served backing exhausted, a success takes one page
of the served backing. -/
def AllocationAccounted (m : PhysicalMemory) (allocation : Allocation) (m' : PhysicalMemory) :
    Prop :=
  (allocation.valid = false →
    m'.ranges = m.ranges ∧ m'.bytes = m.bytes ∧
    ∀ backing, m.lifecycle.servedBacking = some backing → m.remainingPages backing = 0) ∧
  (allocation.valid = true → ∃ backing, m.lifecycle.servedBacking = some backing ∧
    m.remainingPages backing = m'.remainingPages backing + 1 ∧
    ∀ other, other ≠ backing → m'.remainingPages other = m.remainingPages other)

theorem AllocationAccounted.failed
    (h : ∀ backing, m.lifecycle.servedBacking = some backing → m.remainingPages backing = 0) :
    AllocationAccounted m {} m :=
  ⟨fun _ => ⟨rfl, rfl, h⟩, fun hv => Bool.noConfusion hv⟩

/-- The range that serves the next allocation: the first one of the served backing with a
page left. -/
def PhysicalMemory.servingRange (m : PhysicalMemory) : Option ManagedRange :=
  m.lifecycle.servedBacking.bind fun backing => m.ranges.find? (·.serves backing)

/-- An allocation is accounted for unless it hands out the page at the null address. -/
theorem PagesOk.accounted_iff {pages : List Word} (h : PagesOk m pages) :
    AllocationAccounted m m.allocatePage.1 m.allocatePage.2 ↔
      ∀ range ∈ m.servingRange, range.next ≠ 0 := by
  cases hserved : m.lifecycle.servedBacking with
  | none =>
    rw [allocatePage_unserved hserved]
    refine iff_of_true (.failed fun backing hb => ?_) fun range hrange => ?_
    · cases hb.symm.trans hserved
    · rw [servingRange, hserved] at hrange
      cases hrange
  | some backing =>
    rw [allocatePage_served hserved, allocateFrom, servingRange, hserved, Option.bind_some]
    cases hcarve : Jixia.carve backing m.ranges with
    | none =>
      refine iff_of_true (.failed fun backing' hb => ?_) fun range hrange => ?_
      · cases hserved.symm.trans hb
        exact remaining_of_carve_none hcarve
      · rw [find?_of_carve_none hcarve] at hrange
        cases hrange
    | some result =>
      obtain ⟨address, ranges'⟩ := result
      obtain ⟨range, hfind, hb, rfl, hc⟩ := carve_cases hcarve
      have hcount : ∀ kind, m.remainingPages kind =
          (m.carved range ranges').remainingPages kind + if backing = kind then 1 else 0 := by
        intro kind
        rw [← hb]
        exact hc.remaining (h.pool.ok range hc.mem)
      have hone : m.remainingPages backing = (m.carved range ranges').remainingPages backing + 1 :=
        (hcount backing).trans (by rw [if_pos rfl])
      have hvalid : Allocation.valid ⟨range.next, backing⟩ = true ↔ range.next ≠ 0 := by
        rw [Allocation.valid_iff]
        exact and_iff_left (servedBacking_ne hserved)
      rw [hfind]
      refine ⟨fun haccounted range' hrange' => ?_, fun hnull => ?_⟩
      · cases hrange'
        refine hvalid.mp (Bool.of_not_eq_false fun hfail => ?_)
        have hzero := (haccounted.1 hfail).2.2 backing hserved
        omega
      · have hok := hvalid.mpr (hnull range rfl)
        refine ⟨fun hfail => Bool.noConfusion (hfail.symm.trans hok), fun _ =>
          ⟨backing, hserved, hone, fun other hne => ?_⟩⟩
        exact ((hcount other).trans (by rw [if_neg (Ne.symm hne)]; rfl)).symm

variable {textStart : Word} {bytes : ByteMemory} {trace : List (MemoryCall × MemoryAnswer)}

/-- **When a failed allocation consumes nothing and a consumed page is a success.**  After any
calls of the page manager and the lifecycle this holds exactly if the range that serves the
allocation, if there is one, is not about to give its page at the null address. -/
theorem allocatePage_accounts_iff (hr : MemoryRun textStart bytes trace m) :
    AllocationAccounted m m.allocatePage.1 m.allocatePage.2 ↔
      ∀ range ∈ m.servingRange, range.next ≠ 0 :=
  (MemoryRun.pagesOk hr).accounted_iff

theorem allocatePage_accounts_iff_two :
    AllocationAccounted twoPages.2 twoPages.2.allocatePage.1 twoPages.2.allocatePage.2 :=
  (allocatePage_accounts_iff (Trace.exec_trace _ _ _)).mpr (by decide)

/-- The whole bring-up with DDR from address 0 on, and its first page registered. -/
def nullPage : List (MemoryCall × MemoryAnswer) × PhysicalMemory :=
  Trace.exec MemoryCall.apply
    [.transition (.ddrMarkDiscovered ⟨0, 0x100000000⟩), .transition .ddrBeginTraining,
      .transition .ddrMarkTrained, .transition .ddrMarkAddressMapReady,
      .transition .ddrMarkDecodeCommitted, .transition .ddrMarkOnline,
      .transition .beginMainstoreTransition, .transition .markContainedFlushComplete,
      .transition .completeMainstoreTransition, .transition .enableMainstoreAllocation,
      .addRange 0 0x1000 .ddr]
    ([], containedMemory 0x80000000 fun _ => 0xff)

/-- The allocation reports a failure, yet the page is gone and its bytes are cleared. -/
theorem allocatePage_loses_null_page :
    MemoryRun 0x80000000 (fun _ => 0xff) nullPage.1 nullPage.2 ∧
      nullPage.2.lifecycle.servedBacking = some .ddr ∧
      nullPage.2.allocatePage.1.valid = false ∧
      nullPage.2.remainingPages .ddr = 1 ∧ nullPage.2.allocatePage.2.remainingPages .ddr = 0 ∧
      nullPage.2.bytes 0 = 0xff ∧ nullPage.2.allocatePage.2.bytes 0 = 0 ∧
      ¬ AllocationAccounted nullPage.2 nullPage.2.allocatePage.1 nullPage.2.allocatePage.2 := by
  have hrun : MemoryRun 0x80000000 (fun _ => 0xff) nullPage.1 nullPage.2 :=
    Trace.exec_trace _ _ _
  have hserved : nullPage.2.lifecycle.servedBacking = some .ddr := by decide
  have hfail : nullPage.2.allocatePage.1.valid = false := by decide
  have hone : nullPage.2.remainingPages .ddr = 1 := by decide
  have hcleared := ((MemoryRun.pagesOk hrun).allocationSound.2 (by decide)).1 0
    ⟨by decide, by decide⟩
  refine ⟨hrun, hserved, hfail, hone, by decide, by decide, hcleared.1, fun h => ?_⟩
  have hzero := (h.1 hfail).2.2 .ddr hserved
  exact absurd (hone.symm.trans hzero) (by decide)

end Jixia
