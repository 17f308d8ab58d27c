/-
Ranges of pages.

`map_range_4k` maps the pages of a range one after the other and returns false at the
first page that cannot be mapped.  It takes nothing back.

* `SpaceInv.mapPageRange` — the pages of a range, up to the first refusal, for any
  arguments;
* `canonicalPage` — the canonical address with the table indices of an address;
* `mapRange4k_all_or_nothing_iff` — when a call that fails leaves all translations, and
  when a call that succeeds translates the whole range.
-/
import Jixia.VmmManager

namespace Jixia

open PhysicalMemory

/-- Every page of the range translates to its page of the physical range. -/
def RangeTranslated (bytes : ByteMemory) (root virtualBase physicalBase size : Word) : Prop :=
  ∀ i < size.toNat / 4096, (walk bytes root (pageAt virtualBase i)).map
    Translation.physicalAddress = some (pageAt physicalBase i)

/-- A page and flags that an entry can hold so that the walk finds the page: flags above
bit 9 may only repeat bits of the page. -/
structure HoldsPage (physicalAddress flags : Word) : Prop
    extends LiveEntry physicalAddress flags where
  page : physicalAddress ||| (flags >>> 10) <<< 12 = physicalAddress

/-- The argument checks of `map_range_4k`. -/
structure RangeArgs (virtualBase physicalBase size : Word) : Prop where
  nonempty : size ≠ 0
  virtual_aligned : virtualBase.toNat % 4096 = 0
  physical_aligned : physicalBase.toNat % 4096 = 0
  whole : size % kPageSize = 0
  virtual_fits : ¬ virtualBase + size ≤ virtualBase
  physical_fits : ¬ physicalBase + size ≤ physicalBase

/-- The arguments pass the checks, the first page is free, and its entry is one that the
walk translates. -/
structure TakesFirst (m : PhysicalMemory) (space : AddressSpace)
    (virtualBase physicalBase size flags : Word) : Prop where
  args : RangeArgs virtualBase physicalBase size
  valid : space.valid = true
  writable : hasFlag flags PteFlag.write = true → hasFlag flags PteFlag.read = true
  free : Free m space.rootPhysicalAddress virtualBase
  live : LiveEntry physicalBase flags

/-- The canonical address with the table indices of an address. -/
def canonicalPage (virtualAddress : Word) : Word :=
  (virtualAddress.setWidth 39).signExtend 64

theorem setWidth_canonicalPage (virtualAddress : Word) :
    (canonicalPage virtualAddress).setWidth 39 = virtualAddress.setWidth 39 := by
  apply BitVec.eq_of_getLsbD_eq
  intro i hi
  simp [canonicalPage, BitVec.getElem_signExtend, hi, show i < 64 by omega]

theorem canonicalPage_canonical (virtualAddress : Word) :
    Canonical (canonicalPage virtualAddress) := by
  rw [Canonical, setWidth_canonicalPage, canonicalPage]

theorem vpnIndices_canonicalPage (virtualAddress : Word) :
    vpnIndices (canonicalPage virtualAddress) = vpnIndices virtualAddress := by
  have hlow := congrArg BitVec.toNat (setWidth_canonicalPage virtualAddress)
  rw [BitVec.toNat_setWidth, BitVec.toNat_setWidth] at hlow
  simp only [vpnIndices, List.cons.injEq, and_true, Fin.ext_iff, vpnIndex_val]
  omega

section Ranges

variable {m m' m'' : PhysicalMemory} {pages pages' : List Word} {g g' : PageTables}
  {space : AddressSpace} {virtualBase physicalBase size flags : Word} {count : ℕ} {mapped : Bool}

/-- The entry of page `i` of the physical range. -/
def leafAt (physicalBase flags : Word) (i : ℕ) : Word :=
  makePte (pageAt physicalBase i) (flags ||| PteFlag.valid)

/-- What the pages of a range do to the tables: entries of the range appear where there
was none, and all of them if the call returns true. -/
structure RangeMapped (g g' : PageTables) (root virtualBase physicalBase flags : Word)
    (count : ℕ) (mapped : Bool) : Prop where
  depth : ∀ {p d}, g.depth p = some d → g'.depth p = some d
  cases : ∀ {r l}, g.depth r = some 2 → l.length = 3 → g'.lookup r l = g.lookup r l ∨
    g.lookup r l = none ∧ ∃ i < count, g'.lookup r l = some (leafAt physicalBase flags i)
  all : mapped = true → ∀ i < count,
    g'.lookup root (vpnIndices (pageAt virtualBase i)) = some (leafAt physicalBase flags i)

/-- Entries that are there stay. -/
theorem RangeMapped.kept {root r pte : Word} {l : List TableIndex}
    (h : RangeMapped g g' root virtualBase physicalBase flags count mapped)
    (hr : g.depth r = some 2) (hl : l.length = 3) (hsome : g.lookup r l = some pte) :
    g'.lookup r l = some pte := by
  rcases h.cases hr hl with hsame | ⟨hnone, -⟩
  · rw [hsame, hsome]
  · rw [hsome] at hnone
    cases hnone

/-- **The pages of a range**, up to the first that cannot be mapped. -/
theorem SpaceInv.mapPageRange (count : ℕ) (h : SpaceInv m pages g)
    (hroot : g.depth space.rootPhysicalAddress = some 2)
    (virtualBase physicalBase flags : Word) :
    ∃ mapped m' pages' g',
      PhysicalMemory.mapPages space flags count virtualBase physicalBase m = (mapped, m') ∧
      SpaceInv m' pages' g' ∧
      RangeMapped g g' space.rootPhysicalAddress virtualBase physicalBase flags count mapped := by
  induction count generalizing m pages g virtualBase physicalBase with
  | zero =>
    refine ⟨true, m, pages, g, rfl, h, fun hd => hd, fun _ _ => .inl rfl, fun _ i hi => ?_⟩
    omega
  | succ count ih =>
    obtain ⟨mapped, m1, pages1, g1, heq, hinv1, hmapped, -⟩ :=
      h.mapPage4k hroot virtualBase physicalBase flags
    rw [PhysicalMemory.mapPages, heq]
    cases mapped with
    | false =>
      exact ⟨false, m1, pages1, g1, rfl, hinv1, hmapped.depth,
        fun hr _ => .inl (hmapped.refused rfl hr _), fun hm => Bool.noConfusion hm⟩
    | true =>
      obtain ⟨mapped, m', pages', g', heq', hinv', hrest⟩ :=
        ih hinv1 (hmapped.depth hroot) (virtualBase + kPageSize) (physicalBase + kPageSize)
      have hnext : ∀ i, leafAt (physicalBase + kPageSize) flags i =
          leafAt physicalBase flags (i + 1) := fun i => by rw [leafAt, pageAt_next, leafAt]
      have hfound : g1.lookup space.rootPhysicalAddress (vpnIndices virtualBase) =
          some (leafAt physicalBase flags 0) := by
        rw [hmapped.found rfl, leafAt, pageAt_zero]
      refine ⟨mapped, m', pages', g', heq', hinv', fun hd => hrest.depth (hmapped.depth hd),
        fun {r l} hr hl => ?_, fun hm i hi => ?_⟩
      · by_cases hsame : r = space.rootPhysicalAddress ∧ l = vpnIndices virtualBase
        · obtain ⟨rfl, rfl⟩ := hsame
          -- The entry of the first page, which the pages after it keep.
          exact .inr ⟨hmapped.absent rfl, 0, count.succ_pos,
            hrest.kept (hmapped.depth hr) rfl hfound⟩
        · rw [← hmapped.others hr hl hsame]
          rcases hrest.cases (hmapped.depth hr) hl with hkept | ⟨hnone, i, hi, hsome⟩
          · exact .inl hkept
          · exact .inr ⟨hnone, i + 1, Nat.succ_lt_succ hi, hnext i ▸ hsome⟩
      · cases i with
        | zero =>
          rw [pageAt_zero]
          exact hrest.kept (hmapped.depth hroot) rfl hfound
        | succ i =>
          rw [← pageAt_next, ← hnext]
          exact hrest.all hm i (Nat.lt_of_succ_lt_succ hi)

/-! ### The range -/

theorem mapRange4k_refused (h : ¬ RangeArgs virtualBase physicalBase size) :
    m.mapRange4k space virtualBase physicalBase size flags = (false, m) := by
  rw [PhysicalMemory.mapRange4k]
  split
  · rfl
  rename_i hguard
  split
  · rfl
  rename_i hwrap
  simp only [not_or, Bool.not_eq_false, not_not] at hguard hwrap
  exact absurd ⟨hguard.1, isPageAligned_iff.mp hguard.2.1, isPageAligned_iff.mp hguard.2.2.1,
    hguard.2.2.2, hwrap.1, hwrap.2⟩ h

/-- A range that passes the checks is a positive number of pages. -/
theorem mapRange4k_eq (h : RangeArgs virtualBase physicalBase size) :
    ∃ count, size.toNat / 4096 = count + 1 ∧
      m.mapRange4k space virtualBase physicalBase size flags =
        PhysicalMemory.mapPages space flags (count + 1) virtualBase physicalBase m := by
  have hmod := congrArg BitVec.toNat h.whole
  rw [BitVec.toNat_umod, toNat_kPageSize] at hmod
  have hzero : (0 : Word).toNat = 0 := rfl
  have hne : size.toNat ≠ 0 := fun h0 => h.nonempty (BitVec.eq_of_toNat_eq h0)
  have hpages : (size / kPageSize).toNat = size.toNat / 4096 := by
    rw [BitVec.toNat_udiv, toNat_kPageSize]
  refine ⟨size.toNat / 4096 - 1, by omega, ?_⟩
  have hv := isPageAligned_iff.mpr h.virtual_aligned
  have hp := isPageAligned_iff.mpr h.physical_aligned
  rw [PhysicalMemory.mapRange4k, if_neg (not_or.mpr ⟨h.nonempty, by simp [h.whole, hv, hp]⟩),
    if_neg (not_or.mpr ⟨h.virtual_fits, h.physical_fits⟩), hpages]
  congr 1
  omega

theorem RangeArgs.pageAt_aligned (h : RangeArgs virtualBase physicalBase size) (i : ℕ) :
    (pageAt virtualBase i).toNat % 4096 = 0 ∧ (pageAt physicalBase i).toNat % 4096 = 0 := by
  have hv := h.virtual_aligned
  have hp := h.physical_aligned
  constructor <;> rw [pageAt, BitVec.toNat_add, BitVec.toNat_ofNat] <;> omega

/-- The physical range does not wrap, so its pages come after the first. -/
theorem RangeArgs.base_le (h : RangeArgs virtualBase physicalBase size) {i : ℕ}
    (hi : i < size.toNat / 4096) : physicalBase.toNat ≤ (pageAt physicalBase i).toNat := by
  have hfits : physicalBase.toNat < (physicalBase + size).toNat :=
    BitVec.not_le.mp h.physical_fits
  have hadd := BitVec.toNat_add physicalBase size
  have := physicalBase.isLt
  have := size.isLt
  rw [pageAt, BitVec.toNat_add, BitVec.toNat_ofNat]
  omega

/-- The walk finds the page of an entry exactly when the entry can hold it. -/
theorem leafTranslation_page_iff {virtualAddress physicalAddress : Word}
    (hargs : MapChecks virtualAddress physicalAddress flags) :
    (leafTranslation virtualAddress (makePte physicalAddress (flags ||| PteFlag.valid))).map
        Translation.physicalAddress = some physicalAddress ↔ HoldsPage physicalAddress flags := by
  by_cases hlive : LiveEntry physicalAddress flags
  · rw [leafTranslation_of_live hlive hargs.physical_aligned hargs.writable, Option.map_some,
      Option.some_inj, and_offsetMask_zero hargs.virtual_aligned, BitVec.or_zero]
    exact ⟨fun h => ⟨hlive, h⟩, fun h => h.page⟩
  · rw [leafTranslation_eq_none hlive hargs.writable]
    exact iff_of_false nofun fun h => hlive h.toLiveEntry

/-- A range of which the first entry is not translated has none that is. -/
theorem RangeArgs.leafTranslation_none (h : RangeArgs virtualBase physicalBase size)
    (hwritable : hasFlag flags PteFlag.write = true → hasFlag flags PteFlag.read = true)
    (hdead : ¬ LiveEntry physicalBase flags) (virtualAddress : Word) {i : ℕ}
    (hi : i < size.toNat / 4096) :
    leafTranslation virtualAddress (leafAt physicalBase flags i) = none := by
  refine leafTranslation_eq_none (fun hlive => hdead ?_) hwritable
  exact ⟨lt_of_le_of_lt (h.base_le hi) hlive.physical, hlive.reserved, hlive.leaf⟩

/-- Entries that are not translated change no walk. -/
theorem SpaceInv.walk_range_dead {root : Word} (h : SpaceInv m pages g)
    (h' : SpaceInv m' pages' g')
    (hmapped : RangeMapped g g' root virtualBase physicalBase flags count mapped)
    (hnone : ∀ virtualAddress, ∀ i < count,
      leafTranslation virtualAddress (leafAt physicalBase flags i) = none) {r : Word}
    (hr : g.depth r = some 2) (virtualAddress : Word) :
    walk m'.bytes r virtualAddress = walk m.bytes r virtualAddress := by
  by_cases hc : Canonical virtualAddress
  · rw [h'.walk_eq (hmapped.depth hr) hc, h.walk_eq hr hc]
    rcases hmapped.cases hr (l := vpnIndices virtualAddress) rfl with
      hsame | ⟨habsent, i, hi, hsome⟩
    · rw [hsame]
    · rw [habsent, hsome, Option.bind_some, hnone virtualAddress i hi]
      rfl
  · rw [walk, walk, if_neg hc, if_neg hc]

/-- A first page that is mapped, and with an entry that is translated, can be seen at the
canonical address of the page, whatever the call returns. -/
theorem SpaceInv.walk_range_live {g1 : PageTables}
    (h : SpaceInv m pages g) (h' : SpaceInv m' pages' g')
    (hroot : g.depth space.rootPhysicalAddress = some 2)
    (hfirst : Mapped g g1 space.rootPhysicalAddress (vpnIndices virtualBase)
      (makePte physicalBase (flags ||| PteFlag.valid)) true)
    (hrest : RangeMapped g1 g' space.rootPhysicalAddress (virtualBase + kPageSize)
      (physicalBase + kPageSize) flags count mapped)
    (hargs : MapChecks virtualBase physicalBase flags) (hlive : LiveEntry physicalBase flags) :
    walk m'.bytes space.rootPhysicalAddress (canonicalPage virtualBase) ≠
      walk m.bytes space.rootPhysicalAddress (canonicalPage virtualBase) := by
  have hroot1 := hfirst.depth hroot
  have hc := canonicalPage_canonical virtualBase
  rw [h'.walk_eq (hrest.depth hroot1) hc, h.walk_eq hroot hc, vpnIndices_canonicalPage,
    hfirst.absent rfl, hrest.kept hroot1 rfl (hfirst.found rfl), Option.bind_some,
    leafTranslation_of_live hlive hargs.physical_aligned hargs.writable]
  exact Option.some_ne_none _

end Ranges

/-- **When `map_range_4k` is all-or-nothing.**  After any run, for any range and flags: a
call that returns true translates the whole range exactly when every page of it is
canonical and its entry can hold its physical page; a call that returns false leaves all
translations exactly unless its arguments pass the checks, its first page is free and the
entry of that page is one the walk translates. -/
theorem mapRange4k_all_or_nothing_iff {start m m' : PhysicalMemory} {spaces : List AddressSpace}
    (hpool : PagePool start) (hrun : SpaceRun start spaces m) {space : AddressSpace}
    (hspace : space ∈ spaces) {virtualBase physicalBase size flags : Word} {mapped : Bool}
    (hmap : m.mapRange4k space virtualBase physicalBase size flags = (mapped, m')) :
    (mapped = true →
      (RangeTranslated m'.bytes space.rootPhysicalAddress virtualBase physicalBase size ↔
        ∀ i < size.toNat / 4096,
          Canonical (pageAt virtualBase i) ∧ HoldsPage (pageAt physicalBase i) flags)) ∧
    (mapped = false →
      ((∀ space' ∈ spaces, space'.valid = true → ∀ virtualAddress,
          walk m'.bytes space'.rootPhysicalAddress virtualAddress =
            walk m.bytes space'.rootPhysicalAddress virtualAddress) ↔
        ¬ TakesFirst m space virtualBase physicalBase size flags)) := by
  obtain ⟨pages, g, hinv, hroots⟩ := hrun.inv hpool
  by_cases hargs : RangeArgs virtualBase physicalBase size
  swap
  · rw [mapRange4k_refused hargs] at hmap
    cases hmap
    exact ⟨Bool.noConfusion,
      fun _ => iff_of_true (fun _ _ _ _ => rfl) fun hfirst => hargs hfirst.args⟩
  obtain ⟨count, hcount, heq⟩ := @mapRange4k_eq m space virtualBase physicalBase size flags hargs
  rw [heq] at hmap
  -- The first page decides whether the space is valid and the flags are proper.
  by_cases hproper : space.valid = true ∧ MapChecks virtualBase physicalBase flags
  swap
  · rw [PhysicalMemory.mapPages, mapPage4k_unchecked hproper] at hmap
    cases hmap
    exact ⟨Bool.noConfusion, fun _ => iff_of_true (fun _ _ _ _ => rfl) fun hfirst => hproper
      ⟨hfirst.valid, hargs.virtual_aligned, hargs.physical_aligned, hfirst.writable⟩⟩
  obtain ⟨hvalid, hchecks⟩ := hproper
  have hroot := (hroots space.rootPhysicalAddress).mpr ⟨hspace, bne_iff_ne.mp hvalid⟩
  refine ⟨?_, ?_⟩
  · rintro rfl
    obtain ⟨mapped, m1, pages', g', heq', hinv', hall⟩ :=
      hinv.mapPageRange (count + 1) hroot virtualBase physicalBase flags
    rw [hmap] at heq'
    cases heq'
    refine forall₂_congr fun i hi => ?_
    obtain ⟨hv, hp⟩ := hargs.pageAt_aligned i
    by_cases hc : Canonical (pageAt virtualBase i)
    · rw [hinv'.walk_eq (hall.depth hroot) hc, hall.all rfl i (hcount ▸ hi), Option.bind_some,
        and_iff_right hc]
      exact leafTranslation_page_iff ⟨hv, hp, hchecks.writable⟩
    · rw [walk, if_neg hc]
      exact iff_of_false (Option.some_ne_none _).symm fun h => hc h.1
  · rintro rfl
    obtain ⟨first, m1, pages1, g1, heq1, hinv1, hmapped1, hiff⟩ :=
      hinv.mapPage4k hroot virtualBase physicalBase flags
    have hroot' : ∀ {space' : AddressSpace}, space' ∈ spaces → space'.valid = true →
        g.depth space'.rootPhysicalAddress = some 2 :=
      fun hmem hval => (hroots _).mpr ⟨hmem, bne_iff_ne.mp hval⟩
    by_cases hlive : LiveEntry physicalBase flags
    · have hmaps : TakesFirst m space virtualBase physicalBase size flags ↔ first = true :=
        ⟨fun h => hiff.mpr ⟨hchecks, h.free⟩,
          fun h => ⟨hargs, hvalid, hchecks.writable, (hiff.mp h).2, hlive⟩⟩
      rw [hmaps]
      rw [PhysicalMemory.mapPages, heq1] at hmap
      cases first with
      | false =>
        cases hmap
        refine iff_of_true (fun space' hmem hval address => ?_) Bool.false_ne_true
        have hr := hroot' hmem hval
        exact hinv.walk_congr hinv1 hr (hmapped1.depth hr) fun _ => hmapped1.refused rfl hr _
      | true =>
        refine iff_of_false (fun hsame => ?_) fun hno => hno rfl
        obtain ⟨mapped, m2, pages2, g2, heq2, hinv2, hrest⟩ :=
          hinv1.mapPageRange count (hmapped1.depth hroot) (virtualBase + kPageSize)
            (physicalBase + kPageSize) flags
        rw [if_pos rfl, heq2] at hmap
        cases hmap
        exact hinv.walk_range_live hinv2 hroot hmapped1 hrest hchecks hlive
          (hsame space hspace hvalid _)
    · refine iff_of_true (fun space' hmem hval address => ?_) fun hfirst => hlive hfirst.live
      obtain ⟨mapped, m2, pages2, g2, heq2, hinv2, hrange⟩ :=
        hinv.mapPageRange (count + 1) hroot virtualBase physicalBase flags
      rw [hmap] at heq2
      cases heq2
      exact hinv.walk_range_dead hinv2 hrange (fun virtualAddress i hi =>
        hargs.leafTranslation_none hchecks.writable hlive virtualAddress (hcount ▸ hi))
        (hroot' hmem hval) address

/-- The sample space with the page at 0x2000 mapped. -/
def samplePage : PhysicalMemory := (sampleMap 0x2000 0x80300000 PteFlag.read).2

theorem samplePage_run : SpaceRun samplePool [sampleSpace.1] samplePage :=
  .map (.create .start (Prod.eta sampleSpace).symm) (List.mem_singleton_self sampleSpace.1)
    (Prod.eta (sampleMap 0x2000 0x80300000 PteFlag.read)).symm

/-- A range that ends before the mapped page is translated, and one that begins with it is
refused as a whole. -/
theorem mapRange4k_all_or_nothing_iff_sample :
    RangeTranslated (samplePage.mapRange4k sampleSpace.1 0x1000 0x80200000 0x1000
        PteFlag.read).2.bytes sampleSpace.1.rootPhysicalAddress 0x1000 0x80200000 0x1000 ∧
    (samplePage.mapRange4k sampleSpace.1 0x2000 0x80200000 0x2000 PteFlag.read).1 = false ∧
      ∀ virtualAddress, walk (samplePage.mapRange4k sampleSpace.1 0x2000 0x80200000 0x2000
          PteFlag.read).2.bytes sampleSpace.1.rootPhysicalAddress virtualAddress =
        walk samplePage.bytes sampleSpace.1.rootPhysicalAddress virtualAddress := by
  have hspace := List.mem_singleton_self sampleSpace.1
  have hm : (samplePage.mapRange4k sampleSpace.1 0x2000 0x80200000 0x2000 PteFlag.read).1 =
      false := by decide +kernel
  refine ⟨((mapRange4k_all_or_nothing_iff samplePool_pool samplePage_run hspace
    (Prod.eta _).symm).1 (by decide +kernel)).mpr fun i hi => ?_, hm,
    ((mapRange4k_all_or_nothing_iff samplePool_pool samplePage_run hspace
      (Prod.eta _).symm).2 hm).mpr (fun hfirst => ?_) sampleSpace.1 hspace (by decide +kernel)⟩
  · have hi : i < 1 := hi
    obtain rfl : i = 0 := by omega
    exact ⟨by decide, ⟨by decide, by decide, by decide⟩, by decide⟩
  · -- The entry of the first page is in use.
    exact absurd (hfirst.free.entry (by decide +kernel)) (by decide +kernel)

/-- A range that runs into the mapped page is refused after its first page has been
mapped, and is refused again when it is tried again; and a range at an address that is not
canonical is accepted and not translated. -/
theorem mapRange4k_leaves_pages :
    ((samplePage.mapRange4k sampleSpace.1 0x1000 0x80200000 0x2000 PteFlag.read).1 = false ∧
      walk samplePage.bytes sampleSpace.1.rootPhysicalAddress 0x1000 = none ∧
      walk (samplePage.mapRange4k sampleSpace.1 0x1000 0x80200000 0x2000
          PteFlag.read).2.bytes sampleSpace.1.rootPhysicalAddress 0x1000 =
        some ⟨0x80200000, PteFlag.read ||| PteFlag.valid⟩ ∧
      ((samplePage.mapRange4k sampleSpace.1 0x1000 0x80200000 0x2000 PteFlag.read).2.mapRange4k
        sampleSpace.1 0x1000 0x80200000 0x2000 PteFlag.read).1 = false) ∧
    (sampleSpace.2.mapRange4k sampleSpace.1 0x4000000000 0x80200000 0x1000
        PteFlag.read).1 = true ∧
      walk (sampleSpace.2.mapRange4k sampleSpace.1 0x4000000000 0x80200000 0x1000
        PteFlag.read).2.bytes sampleSpace.1.rootPhysicalAddress 0x4000000000 = none := by
  refine ⟨⟨by decide +kernel, by decide +kernel, by decide +kernel, by decide +kernel⟩,
    by decide +kernel, ?_⟩
  rw [walk, if_neg (by decide)]

end Jixia
