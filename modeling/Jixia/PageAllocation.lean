/-
The page allocator over whole runs.

After one `initialize_contained`, the page manager and the memory lifecycle are
called in any order with any arguments.  The label of a range and the backing of its
addresses are separate state; `PagesOk` ties them together and to the pages carved so
far.

* `PagesOk.step` — every call keeps the invariant;
* `page_allocator_sound` — no page is carved twice, carved with a wrong backing or
  returned with old contents, and failed calls leave the table alone.
-/
import Jixia.LifecycleHistory

namespace Jixia

open LifecycleState PhysicalMemory

/-- The calls of the page manager and of the lifecycle. -/
inductive MemoryCall
  | addRange (base size : Word) (backing : BackingKind)
  | promoteBacking (before after : BackingKind)
  | allocatePage
  | transition (c : TransitionCall)

/-- What a call returns. -/
inductive MemoryAnswer
  | flag (value : Bool)
  | count (value : ℕ)
  | page (value : Allocation)
  deriving DecidableEq

def MemoryCall.apply : MemoryCall → PhysicalMemory → MemoryAnswer × PhysicalMemory
  | .addRange base size backing, m => (m.addRange base size backing).map .flag id
  | .promoteBacking before after, m => (m.promoteBacking before after).map .count id
  | .allocatePage, m => m.allocatePage.map .page id
  | .transition c, m => (c.apply m.lifecycle).map .flag fun s => { m with lifecycle := s }

/-- The page an answer hands out. -/
def MemoryAnswer.carved : MemoryAnswer → Option Word
  | .page allocation =>
    if allocation.backing = .unavailable then none else some allocation.physicalAddress
  | _ => none

/-- The pages carved in a run. -/
def carvedPages (trace : List (MemoryCall × MemoryAnswer)) : List Word :=
  trace.filterMap fun entry => entry.2.carved

theorem carvedPages_snoc (trace : List (MemoryCall × MemoryAnswer)) (c : MemoryCall)
    (answer : MemoryAnswer) :
    carvedPages (trace ++ [(c, answer)]) = carvedPages trace ++ answer.carved.toList := by
  rw [carvedPages, List.filterMap_append]
  cases h : answer.carved <;> simp [carvedPages, h]

/-! ### The invariant -/

namespace ManagedRange

/-- `base <= next <= end`, all on page boundaries. -/
structure Ok (range : ManagedRange) : Prop where
  base_aligned : range.base.toNat % 4096 = 0
  next_aligned : range.next.toNat % 4096 = 0
  limit_aligned : range.limit.toNat % 4096 = 0
  base_le : range.base ≤ range.next
  next_le : range.next ≤ range.limit

def Contains (range : ManagedRange) (address : Word) : Prop :=
  range.base ≤ address ∧ address < range.limit

/-- No address is in both ranges. -/
def Apart (range range' : ManagedRange) : Prop :=
  range.limit ≤ range'.base ∨ range'.limit ≤ range.base

/-- The label of a range agrees with the lifecycle: a contained range is in the
contained window, a DDR range has DDR backing now. -/
structure Labelled (s : LifecycleState) (range : ManagedRange) : Prop where
  backing_ne : range.backing ≠ .unavailable
  nonempty : range.base < range.limit
  contained : range.backing = .contained → ∀ address, range.Contains address →
    s.contained.contains address = true
  ddr : range.backing = .ddr → ∀ address, range.Contains address → s.backingFor address = .ddr

/-- The page at `page` has been carved from the range. -/
def Gave (range : ManagedRange) (page : Word) : Prop :=
  range.base ≤ page ∧ page.toNat + 4096 ≤ range.next.toNat

theorem Labelled.of_ends {s : LifecycleState} {range : ManagedRange}
    (hne : range.backing ≠ .unavailable) (hlt : range.base < range.limit)
    (hfirst : s.backingFor range.base = range.backing)
    (hlast : s.backingFor (range.limit - 1) = range.backing) : range.Labelled s := by
  have hall : ∀ address, range.Contains address → s.backingFor address = range.backing := by
    rintro address ⟨hle, hlt'⟩
    exact backingFor_between hne hfirst hlast hle (by bv_omega)
  refine ⟨hne, hlt, fun hb address hin => ?_, fun hb address hin => ?_⟩
  · exact (backingFor_eq_contained.mp (hb ▸ hall address hin)).2
  · exact hb ▸ hall address hin

theorem Labelled.advance {s : LifecycleState} {range : ManagedRange} (h : range.Labelled s) :
    range.advanced.Labelled s := by
  obtain ⟨hne, hlt, hcontained, hddr⟩ := h
  constructor <;> simpa only [Contains, advanced_base, advanced_limit, advanced_backing]

theorem Ok.next_lt {range : ManagedRange} (h : range.Ok) (hroom : range.next < range.limit) :
    range.next.toNat + 4096 ≤ range.limit.toNat := by
  have := h.next_aligned
  have := h.limit_aligned
  have : range.next.toNat < range.limit.toNat := hroom
  omega

theorem Ok.toNat_advanced_next {range : ManagedRange} (h : range.Ok)
    (hroom : range.next < range.limit) :
    range.advanced.next.toNat = range.next.toNat + 4096 := by
  have hlt := h.next_lt hroom
  have := range.limit.isLt
  have hadd := BitVec.toNat_add range.next kPageSize
  simp only [toNat_kPageSize] at hadd
  rw [advanced_next, hadd]
  exact Nat.mod_eq_of_lt (by omega)

theorem Ok.advance {range : ManagedRange} (h : range.Ok) (hroom : range.next < range.limit) :
    range.advanced.Ok := by
  have hnext := h.toNat_advanced_next hroom
  have hlt := h.next_lt hroom
  have hle : range.base.toNat ≤ range.next.toNat := h.base_le
  have halign := h.next_aligned
  refine ⟨?_, by omega, ?_, ?_, ?_⟩
  · rw [advanced_base]
    exact h.base_aligned
  · rw [advanced_limit]
    exact h.limit_aligned
  · rw [advanced_base, BitVec.le_def]
    omega
  · rw [advanced_limit, BitVec.le_def]
    omega

end ManagedRange

/-- A range table after the pages `pages` were carved from it. -/
structure PoolOk (ranges : List ManagedRange) (pages : List Word) : Prop where
  ok : ∀ range ∈ ranges, range.Ok
  apart : ranges.Pairwise ManagedRange.Apart
  carved : ∀ page ∈ pages, page.toNat % 4096 = 0 ∧ ∃ range ∈ ranges, range.Gave page
  distinct : pages.Nodup

namespace PoolOk

variable {ranges ranges' : List ManagedRange} {range : ManagedRange} {pages : List Word}

/-- Two ranges of the table that hold one address are one range. -/
theorem same_range (h : PoolOk ranges pages) {before after : List ManagedRange}
    {range' : ManagedRange} (hm : ranges = before ++ range :: after)
    (hr' : range' ∈ ranges) {address : Word} (hin : range.Contains address)
    (hin' : range'.Contains address) : range' = range := by
  have hno : ¬ range.Apart range' ∧ ¬ range'.Apart range := by
    obtain ⟨hb, hl⟩ := hin
    obtain ⟨hb', hl'⟩ := hin'
    constructor
    · rintro (h | h) <;> bv_omega
    · rintro (h | h) <;> bv_omega
  have hp := h.apart
  rw [hm, List.pairwise_append, List.pairwise_cons] at hp
  rw [hm, List.mem_append, List.mem_cons] at hr'
  rcases hr' with hb | rfl | ha
  · exact absurd (hp.2.2 range' hb range (by simp)) hno.2
  · rfl
  · exact absurd (hp.2.1.1 range' ha) hno.1

/-- The page about to be carved is a page of its range and was never carved before. -/
theorem fresh (h : PoolOk ranges pages) (hc : Carved ranges range ranges') :
    range.next ∉ pages ∧ ∀ address, InPage range.next address → range.Contains address := by
  have hok := h.ok range hc.mem
  have hlt := hok.next_lt hc.room
  have hle : range.base.toNat ≤ range.next.toNat := hok.base_le
  have hpage : ∀ address, InPage range.next address → range.Contains address := by
    rintro address ⟨hlow, hhigh⟩
    refine ⟨BitVec.le_def.mpr (by omega), BitVec.lt_def.mpr (by omega)⟩
  refine ⟨fun hmem => ?_, hpage⟩
  obtain ⟨_, range', hr', hbase, hnext⟩ := h.carved _ hmem
  have hok' := h.ok range' hr'
  have hnext' : range'.next.toNat ≤ range'.limit.toNat := hok'.next_le
  obtain ⟨before, after, hm, _⟩ := hc.split
  have hsame := h.same_range hm hr' (hpage range.next ⟨le_rfl, by omega⟩)
    ⟨hbase, BitVec.lt_def.mpr (by omega)⟩
  rw [hsame] at hnext
  omega

/-- Carving a page. -/
theorem carve (h : PoolOk ranges pages) (hc : Carved ranges range ranges') :
    PoolOk ranges' (pages ++ [range.next]) := by
  have hok := h.ok range hc.mem
  have hfresh := h.fresh hc
  have hgave : ∀ page, range.Gave page → range.advanced.Gave page := by
    rintro page ⟨hb, hn⟩
    have := hok.toNat_advanced_next hc.room
    exact ⟨by rwa [ManagedRange.advanced_base], by omega⟩
  have hentry := hc.mem_cases
  obtain ⟨before, after, hm, rfl⟩ := hc.split
  have hnew : range.advanced ∈ before ++ range.advanced :: after :=
    List.mem_append_right _ List.mem_cons_self
  refine ⟨fun r hr => ?_, ?_, fun page hp => ?_, ?_⟩
  · rcases hentry r hr with rfl | hr
    · exact hok.advance hc.room
    · exact h.ok r hr
  · have hp := h.apart
    rw [hm, List.pairwise_append, List.pairwise_cons] at hp
    rw [List.pairwise_append, List.pairwise_cons]
    refine ⟨hp.1, ⟨fun b hb => ?_, hp.2.1.2⟩, fun a ha b hb => ?_⟩
    · simpa only [ManagedRange.Apart, ManagedRange.advanced_base, ManagedRange.advanced_limit]
        using hp.2.1.1 b hb
    · rcases List.mem_cons.mp hb with rfl | hb
      · simpa only [ManagedRange.Apart, ManagedRange.advanced_base, ManagedRange.advanced_limit]
          using hp.2.2 a ha range (by simp)
      · exact hp.2.2 a ha b (by simp [hb])
  · rcases List.mem_append.mp hp with hp | hp
    · obtain ⟨halign, r, hr, hg⟩ := h.carved page hp
      refine ⟨halign, ?_⟩
      rw [hm] at hr
      rcases List.mem_append.mp hr with hr | hr
      · exact ⟨r, List.mem_append_left _ hr, hg⟩
      · rcases List.mem_cons.mp hr with rfl | hr
        · exact ⟨_, hnew, hgave page hg⟩
        · exact ⟨r, List.mem_append_right _ (List.mem_cons_of_mem _ hr), hg⟩
    · cases List.mem_singleton.mp hp
      refine ⟨hok.next_aligned, range.advanced, hnew, ?_, ?_⟩
      · rw [ManagedRange.advanced_base]
        exact hok.base_le
      · have := hok.toNat_advanced_next hc.room
        omega
  · refine List.nodup_append.mpr ⟨h.distinct, by simp, ?_⟩
    rintro a ha b hb rfl
    exact hfresh.1 (List.mem_singleton.mp hb ▸ ha)

end PoolOk

/-- The allocator state `m` after the pages `pages` were carved. -/
structure PagesOk (m : PhysicalMemory) (pages : List Word) : Prop where
  consistent : m.lifecycle.Consistent
  labels : ∀ range ∈ m.ranges, range.Labelled m.lifecycle
  pool : PoolOk m.ranges pages

namespace PagesOk

variable {m : PhysicalMemory} {pages : List Word}

/-- Carving a page. -/
theorem carve (h : PagesOk m pages) {range : ManagedRange} {ranges' : List ManagedRange}
    (hc : Carved m.ranges range ranges') :
    PagesOk (m.carved range ranges') (pages ++ [range.next]) := by
  refine ⟨h.consistent, fun r hr => ?_, h.pool.carve hc⟩
  rcases hc.mem_cases r hr with rfl | hr
  · exact (h.labels range hc.mem).advance
  · exact h.labels r hr

/-- Registering a range. -/
theorem addRange (h : PagesOk m pages) {base limit : Word} {backing : BackingKind}
    (ha : m.Addable base limit backing) :
    PagesOk { m with ranges := m.ranges ++ [⟨base, base, limit, backing⟩] } pages := by
  have hle : base ≤ limit := BitVec.le_of_lt ha.base_lt
  refine ⟨h.consistent, fun r hr => ?_, fun r hr => ?_, ?_, fun page hp => ?_, h.pool.distinct⟩
  · rcases List.mem_append.mp hr with hr | hr
    · exact h.labels r hr
    · cases List.mem_singleton.mp hr
      exact .of_ends ha.backing_ne ha.base_lt ha.first ha.last
  · rcases List.mem_append.mp hr with hr | hr
    · exact h.pool.ok r hr
    · cases List.mem_singleton.mp hr
      exact ⟨ha.base_aligned, ha.base_aligned, ha.limit_aligned, BitVec.le_refl _, hle⟩
  · refine List.pairwise_append.mpr
      ⟨h.pool.apart, List.pairwise_singleton _ _, fun r hr r' hr' => ?_⟩
    cases List.mem_singleton.mp hr'
    exact (ha.apart r hr).symm
  · obtain ⟨halign, r, hr, hg⟩ := h.pool.carved page hp
    exact ⟨halign, r, List.mem_append_left _ hr, hg⟩

theorem relabel_bounds (before after : BackingKind) (range : ManagedRange) :
    (relabel before after range).base = range.base ∧
      (relabel before after range).next = range.next ∧
      (relabel before after range).limit = range.limit := by
  rw [relabel]
  split <;> exact ⟨rfl, rfl, rfl⟩

/-- Relabelling the ranges of one backing. -/
theorem promote (h : PagesOk m pages) {before after : BackingKind} (hne : after ≠ .unavailable)
    (hends : ∀ range ∈ m.ranges, range.backing = before →
      m.lifecycle.backingFor range.base = after ∧
      m.lifecycle.backingFor (range.limit - 1) = after) :
    PagesOk { m with ranges := m.ranges.map (relabel before after) } pages := by
  refine ⟨h.consistent, fun r hr => ?_, fun r hr => ?_, ?_, fun page hp => ?_, h.pool.distinct⟩
  · obtain ⟨range, hrange, rfl⟩ := List.mem_map.mp hr
    rw [relabel]
    split
    · rename_i hb
      exact .of_ends hne (h.labels range hrange).nonempty (hends range hrange hb).1
        (hends range hrange hb).2
    · exact h.labels range hrange
  · obtain ⟨range, hrange, rfl⟩ := List.mem_map.mp hr
    have hok := h.pool.ok range hrange
    rw [relabel]
    split
    · exact ⟨hok.1, hok.2, hok.3, hok.4, hok.5⟩
    · exact hok
  · refine List.pairwise_map.mpr (h.pool.apart.imp fun {r r'} hr => ?_)
    obtain ⟨hbase, _, hlimit⟩ := relabel_bounds before after r
    obtain ⟨hbase', _, hlimit'⟩ := relabel_bounds before after r'
    rwa [ManagedRange.Apart, hbase, hbase', hlimit, hlimit']
  · obtain ⟨halign, r, hr, hg⟩ := h.pool.carved page hp
    obtain ⟨hbase, hnext, _⟩ := relabel_bounds before after r
    refine ⟨halign, _, List.mem_map_of_mem hr, ?_⟩
    rwa [ManagedRange.Gave, hbase, hnext]

/-- A transition of the lifecycle. -/
theorem transition (h : PagesOk m pages) (c : TransitionCall) :
    PagesOk { m with lifecycle := (c.apply m.lifecycle).2 } pages := by
  rcases c.apply_cases h.consistent with hno | ⟨s', hyes, hadv⟩
  · rw [hno]
    exact h
  · rw [hyes]
    refine ⟨hadv.consistent, fun r hr => ?_, h.pool⟩
    obtain ⟨hne, hlt, hcontained, hddr⟩ := h.labels r hr
    refine ⟨hne, hlt, fun hb a ha => ?_, fun hb a ha => ?_⟩
    · rw [hadv.contained]
      exact hcontained hb a ha
    · -- An address with DDR backing keeps it: only the last step of the bring-up is left.
      obtain ⟨hdom, _, hin⟩ := backingFor_eq_ddr.mp (hddr hb a ha)
      have hrank : 9 ≤ c.rank := hadv.rank ▸ mainstore_iff.mp hdom
      have hdom' : s'.domain = .mainstore := mainstore_iff.mpr (by rw [hadv.progress]; omega)
      refine hadv.consistent.backing_of_covered hdom' ?_
      rw [hadv.kept (by omega)]
      exact hin

/-- **Every call keeps the invariant.** -/
theorem step (h : PagesOk m pages) (c : MemoryCall) :
    PagesOk (c.apply m).2 (pages ++ (c.apply m).1.carved.toList) := by
  cases c with
  | addRange base size backing =>
    rw [show (pages ++ ((MemoryCall.addRange base size backing).apply m).1.carved.toList) = pages
      from List.append_nil pages]
    show PagesOk (m.addRange base size backing).2 pages
    rcases m.addRange_cases base size backing with hno | ⟨limit, ha, _, hyes⟩
    · rw [hno]
      exact h
    · rw [hyes]
      exact h.addRange ha
  | promoteBacking before after =>
    rw [show (pages ++ ((MemoryCall.promoteBacking before after).apply m).1.carved.toList) = pages
      from List.append_nil pages]
    show PagesOk (m.promoteBacking before after).2 pages
    rcases m.promoteBacking_cases before after with hno | ⟨hne, hends, count, hyes⟩
    · rw [hno]
      exact h
    · rw [hyes]
      exact h.promote hne hends
  | allocatePage =>
    show PagesOk m.allocatePage.2 (pages ++ (MemoryAnswer.page m.allocatePage.1).carved.toList)
    rcases m.allocatePage_cases with hno | ⟨range, ranges', hc, _, hyes⟩
    · rw [hno]
      simpa [MemoryAnswer.carved] using h
    · rw [hyes]
      have hne := (h.labels range hc.mem).backing_ne
      simpa only [MemoryAnswer.carved, if_neg hne, Option.toList_some] using h.carve hc
  | transition c =>
    rw [show (pages ++ ((MemoryCall.transition c).apply m).1.carved.toList) = pages
      from List.append_nil pages]
    exact h.transition c

end PagesOk

/-! ### Whole runs -/

/-- The system after `initialize_contained`, with whatever memory holds. -/
def containedMemory (textStart : Word) (bytes : ByteMemory) : PhysicalMemory :=
  { lifecycle := initializeContained textStart, bytes := bytes }

/-- A run of the page manager and the lifecycle. -/
abbrev MemoryRun (textStart : Word) (bytes : ByteMemory) :=
  Trace MemoryCall.apply (containedMemory textStart bytes)

variable {m : PhysicalMemory} {textStart : Word} {bytes : ByteMemory}
  {trace : List (MemoryCall × MemoryAnswer)}

theorem MemoryRun.pagesOk (hr : MemoryRun textStart bytes trace m) :
    PagesOk m (carvedPages trace) := by
  induction hr with
  | nil => exact ⟨consistent_initializeContained textStart, nofun, nofun, .nil, nofun, .nil⟩
  | snoc c _ ih =>
    rw [carvedPages_snoc]
    exact ih.step c

/-- What `allocate_page` may do: nothing, or hand out a zeroed page whose label is the
backing of every address in it, and write nothing else. -/
def AllocationSound (m : PhysicalMemory) (allocation : Allocation) (m' : PhysicalMemory) : Prop :=
  (allocation.backing = .unavailable → m' = m) ∧
  (allocation.backing ≠ .unavailable →
    (∀ address, InPage allocation.physicalAddress address →
      m'.bytes address = 0 ∧ m'.lifecycle.backingFor address = allocation.backing) ∧
    ∀ address, ¬ InPage allocation.physicalAddress address → m'.bytes address = m.bytes address)

theorem PagesOk.allocationSound {pages : List Word} (h : PagesOk m pages) :
    AllocationSound m m.allocatePage.1 m.allocatePage.2 := by
  rcases m.allocatePage_cases with hno | ⟨range, ranges', hc, hb, hyes⟩
  · rw [hno]
    exact ⟨fun _ => rfl, fun hne => absurd rfl hne⟩
  rw [hyes]
  have hlabel := h.labels range hc.mem
  have halign := (h.pool.ok range hc.mem).next_aligned
  refine ⟨fun hun => absurd hun hlabel.backing_ne, fun _ => ⟨fun address hin => ⟨?_, ?_⟩,
    fun address hout => ?_⟩⟩
  · exact (zeroPage_apply halign address).1 hin
  · have hcontains := (h.pool.fresh hc).2 address hin
    show m.lifecycle.backingFor address = range.backing
    cases hkind : range.backing with
    | unavailable => exact absurd hkind hlabel.backing_ne
    | ddr => exact hlabel.ddr hkind address hcontains
    | contained =>
      rw [hkind] at hb
      exact backingFor_eq_contained.mpr ⟨.inl hb.2, hlabel.contained hkind address hcontains⟩
  · exact (zeroPage_apply halign address).2 hout

theorem bytes_of_not_allocate {c : MemoryCall} (hc : c ≠ .allocatePage) :
    (c.apply m).2.bytes = m.bytes := by
  cases c with
  | addRange base size backing =>
    show (m.addRange base size backing).2.bytes = m.bytes
    rcases m.addRange_cases base size backing with hno | ⟨limit, _, _, hyes⟩
    · rw [hno]
    · rw [hyes]
  | promoteBacking before after =>
    show (m.promoteBacking before after).2.bytes = m.bytes
    rcases m.promoteBacking_cases before after with hno | ⟨_, _, count, hyes⟩
    · rw [hno]
    · rw [hyes]
  | allocatePage => exact absurd rfl hc
  | transition c => rfl

/-- **The page allocator never hands out a page twice or with the wrong backing.**
After one `initialize_contained` and any calls of the page manager and the
lifecycle: the ranges are disjoint and in order; the pages carved so far are
distinct, aligned and each inside one range; the next allocation is sound and no
other call writes memory; failed registrations and promotions leave the table. -/
theorem page_allocator_sound (hr : MemoryRun textStart bytes trace m) :
    (m.ranges.Pairwise ManagedRange.Apart ∧ ∀ range ∈ m.ranges, range.Ok) ∧
    ((carvedPages trace).Nodup ∧ ∀ page ∈ carvedPages trace, page.toNat % 4096 = 0 ∧
      ∃ range ∈ m.ranges, ∀ address, InPage page address → range.Contains address) ∧
    (AllocationSound m m.allocatePage.1 m.allocatePage.2 ∧
      ∀ c : MemoryCall, c ≠ .allocatePage → (c.apply m).2.bytes = m.bytes) ∧
    (∀ base size backing, (m.addRange base size backing).1 = false →
      (m.addRange base size backing).2.ranges = m.ranges) ∧
    ∀ before after, (m.promoteBacking before after).1 = 0 →
      (m.promoteBacking before after).2.ranges = m.ranges := by
  have h := MemoryRun.pagesOk hr
  refine ⟨⟨h.pool.apart, h.pool.ok⟩, ⟨h.pool.distinct, fun page hp => ?_⟩,
    ⟨h.allocationSound, fun c => bytes_of_not_allocate⟩, fun base size backing hfail => ?_,
    fun before after hfail => ?_⟩
  · obtain ⟨halign, range, hrange, hbase, hnext⟩ := h.pool.carved page hp
    have hle : range.next.toNat ≤ range.limit.toNat := (h.pool.ok range hrange).next_le
    refine ⟨halign, range, hrange, fun address hin => ?_⟩
    obtain ⟨hlow, hhigh⟩ := hin
    have hbase : range.base.toNat ≤ page.toNat := hbase
    exact ⟨BitVec.le_def.mpr (by omega), BitVec.lt_def.mpr (by omega)⟩
  · rcases m.addRange_cases base size backing with hno | ⟨limit, _, _, hyes⟩
    · rw [hno]
    · rw [hyes] at hfail
      cases hfail
  · rcases m.promoteBacking_cases before after with hno | ⟨_, _, count, hyes⟩
    · rw [hno]
    · rw [hyes] at hfail
      cases hfail

/-- Two pages of contained memory, and a third request that fails. -/
def twoPages : List (MemoryCall × MemoryAnswer) × PhysicalMemory :=
  Trace.exec MemoryCall.apply
    [.addRange 0x80100000 0x2000 .contained, .allocatePage, .allocatePage, .allocatePage]
    ([], containedMemory 0x80000000 fun _ => 0xff)

theorem page_allocator_sound_two :
    carvedPages twoPages.1 = [0x80100000, 0x80101000] ∧ (carvedPages twoPages.1).Nodup :=
  ⟨by decide, (page_allocator_sound (Trace.exec_trace _ _ _)).2.1.1⟩

end Jixia
