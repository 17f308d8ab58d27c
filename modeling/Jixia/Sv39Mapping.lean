/-
Mapping calls over whole runs.

Any number of address spaces are created and filled, in any order, from one page
pool.

* `SpaceRun.inv` — after every run the tables of all address spaces form a forest;
* `sv39_mapping_correct` — a mapping is what the walk finds and disturbs no other, a
  mapped page is not overwritten, and every table has one parent or is a root;
* `mapPage4k_exact_iff` — an accepted mapping is what the walk finds exactly when the
  arguments fit Sv39, which the call does not check.
-/
import Jixia.AddressSpaces

namespace Jixia

open RadixTree RadixTree.Tables PhysicalMemory

/-- A page pool within the 56 bits of Sv39. -/
structure PagePool (m : PhysicalMemory) : Prop where
  ok : ∀ range ∈ m.ranges, range.Ok
  apart : m.ranges.Pairwise ManagedRange.Apart
  below : ∀ range ∈ m.ranges, range.limit.toNat ≤ 2 ^ 56

/-- The spaces created so far, and the memory. -/
inductive SpaceRun (start : PhysicalMemory) : List AddressSpace → PhysicalMemory → Prop
  | start : SpaceRun start [] start
  | create {spaces : List AddressSpace} {m m' : PhysicalMemory} {space : AddressSpace} :
      SpaceRun start spaces m → m.createAddressSpace = (space, m') →
      SpaceRun start (spaces ++ [space]) m'
  | map {spaces : List AddressSpace} {m m' : PhysicalMemory} {space : AddressSpace}
      {virtualAddress physicalAddress flags : Word} {mapped : Bool} :
      SpaceRun start spaces m → space ∈ spaces →
      m.mapPage4k space virtualAddress physicalAddress flags = (mapped, m') →
      SpaceRun start spaces m'

variable {start m m' : PhysicalMemory} {spaces : List AddressSpace} {pages : List Word}
  {g g' : PageTables}

/-- The roots of the forest are the spaces that were created. -/
def RootsAre (g : PageTables) (spaces : List AddressSpace) : Prop :=
  ∀ root, g.depth root = some 2 ↔ ⟨root⟩ ∈ spaces ∧ root ≠ 0

theorem PagePool.inv (h : PagePool start) :
    SpaceInv start [] ⟨fun _ _ => .empty, fun _ => none⟩ :=
  ⟨⟨⟨h.ok, h.apart, nofun, .nil⟩, h.below, nofun, nofun, nofun⟩,
    ⟨nofun, nofun, nofun, nofun, nofun⟩⟩

/-- A call for a space that was not created does nothing. -/
theorem mapPage4k_invalid {space : AddressSpace} (h : space.rootPhysicalAddress = 0)
    (virtualAddress physicalAddress flags : Word) :
    m.mapPage4k space virtualAddress physicalAddress flags = (false, m) := by
  rw [PhysicalMemory.mapPage4k, if_pos (.inl (by rw [AddressSpace.valid, h]; rfl))]

theorem Mapped.rootsAre {root : Word} {l : List TableIndex} {leaf : Word} {mapped : Bool}
    (h : Mapped g g' root l leaf mapped) (hr : RootsAre g spaces) : RootsAre g' spaces :=
  fun r => ⟨fun hd => (hr r).mp (h.roots hd), fun hs => h.depth ((hr r).mpr hs)⟩

/-- **The tables of all address spaces form a forest**, with the spaces as roots. -/
theorem SpaceRun.inv (hpool : PagePool start) (hrun : SpaceRun start spaces m) :
    ∃ pages g, SpaceInv m pages g ∧ RootsAre g spaces := by
  induction hrun with
  | start => exact ⟨[], _, hpool.inv, fun r => by simp⟩
  | @create spaces m m' space _ heq ih =>
    obtain ⟨pages, g, hinv, hroots⟩ := ih
    obtain ⟨root, m1, pages', g', heq', hinv', hroots', _, _⟩ := hinv.createAddressSpace
    rw [heq] at heq'
    cases heq'
    refine ⟨pages', g', hinv', fun r => ?_⟩
    rw [hroots', hroots, List.mem_append, List.mem_singleton, AddressSpace.mk.injEq]
    constructor
    · rintro (⟨hmem, hne⟩ | ⟨rfl, hne⟩)
      · exact ⟨.inl hmem, hne⟩
      · exact ⟨.inr rfl, hne⟩
    · rintro ⟨hmem | rfl, hne⟩
      · exact .inl ⟨hmem, hne⟩
      · exact .inr ⟨rfl, hne⟩
  | @map spaces m m' space virtualAddress physicalAddress flags mapped _ hspace heq ih =>
    obtain ⟨pages, g, hinv, hroots⟩ := ih
    by_cases hzero : space.rootPhysicalAddress = 0
    · rw [mapPage4k_invalid hzero] at heq
      cases heq
      exact ⟨pages, g, hinv, hroots⟩
    · have hroot := (hroots space.rootPhysicalAddress).mpr ⟨hspace, hzero⟩
      obtain ⟨mapped', m1, pages', g', heq', hinv', hmapped, -⟩ :=
        hinv.mapPage4k hroot virtualAddress physicalAddress flags
      rw [heq] at heq'
      cases heq'
      exact ⟨pages', g', hinv', hmapped.rootsAre hroots⟩

/-! ### The tables in memory -/

/-- The entry is a pointer to the table `child`. -/
def PointsTo (bytes : ByteMemory) (table : Word) (i : TableIndex) (child : Word) : Prop :=
  pteIsValid (bytes.load64 (tableSlot table i)) = true ∧
    pteIsLeaf (bytes.load64 (tableSlot table i)) = false ∧
    ptePhysicalAddress (bytes.load64 (tableSlot table i)) = child

/-- The table pages reachable from the roots, with their levels. -/
inductive TableAt (bytes : ByteMemory) (spaces : List AddressSpace) : ℕ → Word → Prop
  | root {space : AddressSpace} : space ∈ spaces → space.valid = true →
      TableAt bytes spaces 2 space.rootPhysicalAddress
  | child {level : ℕ} {table child : Word} {i : TableIndex} :
      TableAt bytes spaces (level + 1) table → PointsTo bytes table i child →
      TableAt bytes spaces level child

/-- Every table page is a root that no entry points to, or has exactly one parent
entry. -/
def TableForest (bytes : ByteMemory) (spaces : List AddressSpace) : Prop :=
  ∀ level page, TableAt bytes spaces level page →
    (⟨page⟩ ∈ spaces ∧ ∀ l table i, TableAt bytes spaces (l + 1) table →
      ¬ PointsTo bytes table i page) ∨
    (⟨page⟩ ∉ spaces ∧ ∃! parent : Word × TableIndex,
      (∃ l, TableAt bytes spaces (l + 1) parent.1) ∧ PointsTo bytes parent.1 parent.2 page)

theorem SpaceInv.pointsTo_iff (h : SpaceInv m pages g) {table child : Word} {level : ℕ}
    (ht : g.depth table = some (level + 1)) {i : TableIndex} :
    PointsTo m.bytes table i child ↔ g.entry table i = .table child := by
  have hload := h.entries ht i
  rw [PhysicalMemory.load] at hload
  rw [PointsTo, hload]
  cases hslot : g.entry table i with
  | empty => simp [encode, pteIsValid, hasFlag]
  | leaf value => exact absurd (h.forest.leaf ht hslot) (Nat.succ_ne_zero level)
  | table c =>
    obtain ⟨_, _, hc⟩ := h.forest.child ht hslot
    simp only [encode, pteIsValid_table, pteIsLeaf_table, ptePhysicalAddress_table (h.page hc),
      true_and, Slot.table.injEq]

theorem SpaceInv.depth_of_tableAt (h : SpaceInv m pages g) (hr : RootsAre g spaces) {level : ℕ}
    {page : Word} (ht : TableAt m.bytes spaces level page) : g.depth page = some level := by
  induction ht with
  | root hmem hvalid => exact (hr _).mpr ⟨hmem, bne_iff_ne.mp hvalid⟩
  | child _ hp ih =>
    obtain ⟨_, he, hd⟩ := h.forest.child ih ((h.pointsTo_iff ih).mp hp)
    cases he
    exact hd

theorem SpaceInv.tableForest (h : SpaceInv m pages g) (hr : RootsAre g spaces) :
    TableForest m.bytes spaces := by
  intro level page ht
  have hd := h.depth_of_tableAt hr ht
  cases ht with
  | @root space hmem hvalid =>
    refine .inl ⟨hmem, fun l table i htable hp => ?_⟩
    have hd' := h.depth_of_tableAt hr htable
    obtain ⟨e, he, hc⟩ := h.forest.child hd' ((h.pointsTo_iff hd').mp hp)
    have := h.forest.bounded hd'
    rw [hd, Option.some_inj] at hc
    omega
  | @child level table _ i htable hp =>
    have hd' := h.depth_of_tableAt hr htable
    have hlt := h.forest.bounded hd'
    refine .inr ⟨fun hmem => ?_, (table, i), ⟨⟨level, htable⟩, hp⟩, ?_⟩
    · have hroot := (hr page).mpr ⟨hmem, (h.carved hd).2⟩
      rw [hd, Option.some_inj] at hroot
      omega
    · rintro ⟨table', i'⟩ ⟨⟨l, htable'⟩, hp'⟩
      have hd'' := h.depth_of_tableAt hr htable'
      obtain ⟨rfl, rfl⟩ := h.forest.parent_unique hd'' hd' ((h.pointsTo_iff hd'').mp hp')
        ((h.pointsTo_iff hd').mp hp)
      rfl

/-! ### Correctness -/

/-- Equal lookups give equal walks. -/
theorem SpaceInv.walk_congr {pages' : List Word} (h : SpaceInv m pages g)
    (h' : SpaceInv m' pages' g') {root virtualAddress : Word} (hroot : g.depth root = some 2)
    (hroot' : g'.depth root = some 2)
    (hl : Canonical virtualAddress →
      g'.lookup root (vpnIndices virtualAddress) = g.lookup root (vpnIndices virtualAddress)) :
    walk m'.bytes root virtualAddress = walk m.bytes root virtualAddress := by
  by_cases hc : Canonical virtualAddress
  · rw [h'.walk_eq hroot' hc, h.walk_eq hroot hc, hl hc]
  · rw [walk, walk, if_neg hc, if_neg hc]

theorem SpaceInv.walk_none (h : SpaceInv m pages g) {root : Word} (hroot : g.depth root = some 2)
    (hl : ∀ l, g.lookup root l = none) (virtualAddress : Word) :
    walk m.bytes root virtualAddress = none := by
  by_cases hc : Canonical virtualAddress
  · rw [h.walk_eq hroot hc, hl]
    rfl
  · rw [walk, if_neg hc]

/-- **Sv39 mapping is correct and never disturbs other translations.**  In every run:
a call that returns true maps a page that faulted to exactly its frame and flags; a
mapped page is refused; every other page of the space, and every page of the other
spaces, translates as before, and so does the page itself when the call returns
false; the table pages form a forest. -/
theorem sv39_mapping_correct (hpool : PagePool start) (hrun : SpaceRun start spaces m)
    {space : AddressSpace} (hspace : space ∈ spaces)
    {virtualAddress physicalAddress flags : Word}
    (hargs : MapArgs virtualAddress physicalAddress flags) :
    ∃ mapped m', m.mapPage4k space virtualAddress physicalAddress flags = (mapped, m') ∧
      (mapped = true →
        walk m.bytes space.rootPhysicalAddress virtualAddress = none ∧
        walk m'.bytes space.rootPhysicalAddress virtualAddress =
          some ⟨physicalAddress, flags ||| PteFlag.valid⟩) ∧
      (walk m.bytes space.rootPhysicalAddress virtualAddress ≠ none → mapped = false) ∧
      (∀ space' ∈ spaces, space'.valid = true → ∀ virtualAddress' : Word,
        (mapped = true → ¬ (space' = space ∧
          virtualAddress'.toNat / 4096 = virtualAddress.toNat / 4096)) →
        walk m'.bytes space'.rootPhysicalAddress virtualAddress' =
          walk m.bytes space'.rootPhysicalAddress virtualAddress') ∧
      TableForest m.bytes spaces ∧ TableForest m'.bytes spaces := by
  obtain ⟨pages, g, hinv, hroots⟩ := hrun.inv hpool
  by_cases hzero : space.rootPhysicalAddress = 0
  · refine ⟨false, m, mapPage4k_invalid hzero .., nofun, fun _ => rfl, fun _ _ _ _ _ => rfl, ?_⟩
    exact ⟨hinv.tableForest hroots, hinv.tableForest hroots⟩
  have hroot := (hroots space.rootPhysicalAddress).mpr ⟨hspace, hzero⟩
  obtain ⟨mapped, m', pages', g', heq, hinv', hmapped, -⟩ :=
    hinv.mapPage4k hroot virtualAddress physicalAddress flags
  have hwalk := hinv.walk_eq hroot hargs.canonical
  have hwalk' := hinv'.walk_eq (hmapped.depth hroot) hargs.canonical
  have habsent : mapped = true →
      walk m.bytes space.rootPhysicalAddress virtualAddress = none := by
    intro hm
    rw [hwalk, hmapped.absent hm]
    rfl
  refine ⟨mapped, m', heq, fun hm => ⟨habsent hm, ?_⟩, fun hne => ?_,
    fun space' hmem hvalid virtualAddress' hother => ?_, hinv.tableForest hroots,
    hinv'.tableForest (hmapped.rootsAre hroots)⟩
  · rw [hwalk', hmapped.found hm, Option.bind_some,
      leafTranslation_low hargs.physical hargs.low hargs.leaf hargs.writable,
      and_offsetMask_zero hargs.virtual_aligned, BitVec.or_zero]
  · exact Bool.eq_false_iff.mpr fun hm => hne (habsent hm)
  · have hroot' := (hroots space'.rootPhysicalAddress).mpr ⟨hmem, bne_iff_ne.mp hvalid⟩
    refine hinv.walk_congr hinv' hroot' (hmapped.depth hroot') fun hc => ?_
    cases hm : mapped with
    | false => exact hmapped.refused hm hroot' _
    | true =>
      refine hmapped.others hroot' rfl fun hsame => hother hm ⟨?_, ?_⟩
      · obtain ⟨root⟩ := space
        obtain ⟨root'⟩ := space'
        rw [AddressSpace.mk.injEq]
        exact hsame.1
      · exact vpnIndices_inj hc hargs.canonical hsame.2

/-- A pool of sixteen pages in contained memory. -/
def samplePool : PhysicalMemory :=
  { lifecycle := .initializeContained 0x80000000
    ranges := [⟨0x80100000, 0x80100000, 0x80110000, .contained⟩] }

/-- The first address space of the pool. -/
def sampleSpace : AddressSpace × PhysicalMemory := samplePool.createAddressSpace

theorem samplePool_pool : PagePool samplePool := by
  refine ⟨fun range hr => ?_, List.pairwise_singleton _ _, fun range hr => ?_⟩
  · cases List.mem_singleton.mp hr
    exact ⟨by decide, by decide, by decide, by decide, by decide⟩
  · cases List.mem_singleton.mp hr
    decide

theorem sv39_mapping_correct_first :
    ∃ m', sampleSpace.2.mapPage4k sampleSpace.1 0x1000 0x80200000 PteFlag.read = (true, m') ∧
      walk m'.bytes sampleSpace.1.rootPhysicalAddress 0x1000 =
        some ⟨0x80200000, PteFlag.read ||| PteFlag.valid⟩ := by
  obtain ⟨mapped, m', heq, hmap, _⟩ := sv39_mapping_correct samplePool_pool
    (.create .start (Prod.eta sampleSpace).symm) (List.mem_singleton_self sampleSpace.1)
    (show MapArgs 0x1000 0x80200000 PteFlag.read from
      ⟨by decide, by decide, ⟨by decide, by decide⟩, by decide, by decide, by decide⟩)
  have hm : mapped = true := by
    rw [← show (sampleSpace.2.mapPage4k sampleSpace.1 0x1000 0x80200000 PteFlag.read).1 = mapped
      from congrArg Prod.fst heq]
    decide +kernel
  exact ⟨m', hm ▸ heq, (hmap hm).2⟩

/-! ### What is accepted -/

/-- Arguments that an entry of the tables can hold and the walk can reach. -/
structure Representable (virtualAddress physicalAddress flags : Word) : Prop where
  canonical : Canonical virtualAddress
  physical : physicalAddress.toNat < 2 ^ 56
  low : flags.toNat < 2 ^ 8
  leaf : hasFlag flags kLeafMask = true

section Admission

variable {virtualAddress physicalAddress flags : Word}

theorem hasFlag_kLeafMask (flags : Word) : hasFlag flags kLeafMask =
    (hasFlag flags PteFlag.read || hasFlag flags PteFlag.write ||
      hasFlag flags PteFlag.execute) := by
  simp only [hasFlag, kLeafMask]
  grind

theorem mapPage4k_checks {space : AddressSpace}
    (h : m.mapPage4k space virtualAddress physicalAddress flags = (true, m')) :
    space.valid = true ∧ MapChecks virtualAddress physicalAddress flags := by
  by_contra hno
  rw [mapPage4k_unchecked hno] at h
  cases h

/-- **What an accepted mapping leaves for the walk.** -/
theorem SpaceInv.walk_mapped (h : SpaceInv m pages g) {space : AddressSpace}
    (hroot : g.depth space.rootPhysicalAddress = some 2)
    (hmap : m.mapPage4k space virtualAddress physicalAddress flags = (true, m'))
    (hc : Canonical virtualAddress) :
    walk m'.bytes space.rootPhysicalAddress virtualAddress =
      leafTranslation virtualAddress (makePte physicalAddress (flags ||| PteFlag.valid)) := by
  obtain ⟨mapped, m1, pages', g', heq, hinv', hmapped, -⟩ :=
    h.mapPage4k hroot virtualAddress physicalAddress flags
  rw [hmap] at heq
  cases heq
  rw [hinv'.walk_eq (hmapped.depth hroot) hc, hmapped.found rfl, Option.bind_some]

/-- The entry is translated with the arguments of the call exactly when it can hold them. -/
theorem leafTranslation_exact_iff (hargs : MapChecks virtualAddress physicalAddress flags) :
    leafTranslation virtualAddress (makePte physicalAddress (flags ||| PteFlag.valid)) =
        some ⟨physicalAddress, flags ||| PteFlag.valid⟩ ↔
      physicalAddress.toNat < 2 ^ 56 ∧ flags.toNat < 2 ^ 8 ∧ hasFlag flags kLeafMask = true := by
  have hwritable := hargs.writable
  have hmask : hasFlag flags kLeafMask = true ↔
      (hasFlag flags PteFlag.read || hasFlag flags PteFlag.execute) = true := by
    rw [hasFlag_kLeafMask]
    grind
  rw [hmask]
  constructor
  · intro h
    have hlive : LiveEntry physicalAddress flags := by
      by_contra hno
      rw [leafTranslation_eq_none hno hwritable] at h
      cases h
    rw [leafTranslation_of_live hlive hargs.physical_aligned hwritable, Option.some_inj,
      Translation.mk.injEq] at h
    refine ⟨hlive.physical, (toNat_or_valid_lt (by decide)).mp ?_, hlive.leaf⟩
    rw [← h.2, BitVec.toNat_and]
    exact lt_of_le_of_lt Nat.and_le_right (by decide)
  · rintro ⟨hphysical, hlow, hleaf⟩
    rw [leafTranslation_low ⟨hargs.physical_aligned, hphysical⟩ hlow hleaf hwritable,
      and_offsetMask_zero hargs.virtual_aligned, BitVec.or_zero]

end Admission

/-- **An accepted mapping is translated exactly iff its arguments are representable.**
After any run, for a call of `map_page_4k` with any three words that returns true: the
walk finds the physical address with the flags of the call exactly when the virtual
address is canonical, the physical address has 56 bits, the flags fit the low eight
bits and one of them is a permission. -/
theorem mapPage4k_exact_iff (hpool : PagePool start) (hrun : SpaceRun start spaces m)
    {space : AddressSpace} (hspace : space ∈ spaces)
    {virtualAddress physicalAddress flags : Word}
    (hmap : m.mapPage4k space virtualAddress physicalAddress flags = (true, m')) :
    walk m'.bytes space.rootPhysicalAddress virtualAddress =
        some ⟨physicalAddress, flags ||| PteFlag.valid⟩ ↔
      Representable virtualAddress physicalAddress flags := by
  obtain ⟨hvalid, hargs⟩ := mapPage4k_checks hmap
  obtain ⟨pages, g, hinv, hroots⟩ := hrun.inv hpool
  have hroot := (hroots space.rootPhysicalAddress).mpr ⟨hspace, bne_iff_ne.mp hvalid⟩
  by_cases hc : Canonical virtualAddress
  · rw [hinv.walk_mapped hroot hmap hc, leafTranslation_exact_iff hargs]
    exact ⟨fun h => ⟨hc, h.1, h.2.1, h.2.2⟩, fun h => ⟨h.physical, h.low, h.leaf⟩⟩
  · rw [walk, if_neg hc]
    exact iff_of_false (Option.some_ne_none _).symm fun h => hc h.canonical

/-- A call for the sample space. -/
def sampleMap (virtualAddress physicalAddress flags : Word) : Bool × PhysicalMemory :=
  sampleSpace.2.mapPage4k sampleSpace.1 virtualAddress physicalAddress flags

/-- What the walk finds at an address after such a call. -/
def sampleWalk (virtualAddress physicalAddress flags : Word) : Option Translation :=
  walk (sampleMap virtualAddress physicalAddress flags).2.bytes
    sampleSpace.1.rootPhysicalAddress virtualAddress

theorem mapPage4k_exact_iff_first :
    (sampleMap 0x1000 0x80200000 PteFlag.read).1 = true ∧
      sampleWalk 0x1000 0x80200000 PteFlag.read =
        some ⟨0x80200000, PteFlag.read ||| PteFlag.valid⟩ := by
  have hm : (sampleMap 0x1000 0x80200000 PteFlag.read).1 = true := by decide +kernel
  have heq := (Prod.eta (sampleMap 0x1000 0x80200000 PteFlag.read)).symm
  rw [hm] at heq
  refine ⟨hm, (mapPage4k_exact_iff samplePool_pool (.create .start (Prod.eta sampleSpace).symm)
    (List.mem_singleton_self sampleSpace.1) heq).mpr ?_⟩
  exact ⟨by decide, by decide, by decide, by decide⟩

/-- Four calls are accepted and not translated as asked: a virtual address that is not
canonical, a physical address of 57 bits, flags without a permission, and a flag beyond
the low bits, which changes the frame. -/
theorem mapPage4k_accepts_unrepresentable :
    ((sampleMap 0x4000000000 0x80200000 PteFlag.read).1 = true ∧
      sampleWalk 0x4000000000 0x80200000 PteFlag.read = none) ∧
    ((sampleMap 0x1000 0x100000000000000 PteFlag.read).1 = true ∧
      sampleWalk 0x1000 0x100000000000000 PteFlag.read ≠
        some ⟨0x100000000000000, PteFlag.read ||| PteFlag.valid⟩) ∧
    ((sampleMap 0x1000 0x80200000 0).1 = true ∧
      sampleWalk 0x1000 0x80200000 0 ≠ some ⟨0x80200000, 0 ||| PteFlag.valid⟩) ∧
    (sampleMap 0x1000 0x80200000 (PteFlag.read ||| 0x400)).1 = true ∧
      sampleWalk 0x1000 0x80200000 (PteFlag.read ||| 0x400) =
        some ⟨0x80201000, PteFlag.read ||| PteFlag.valid⟩ := by
  refine ⟨⟨by decide +kernel, by rw [sampleWalk, walk, if_neg (by decide)]⟩,
    ⟨by decide +kernel, by decide +kernel⟩, ⟨by decide +kernel, by decide +kernel⟩,
    by decide +kernel, by decide +kernel⟩

end Jixia
