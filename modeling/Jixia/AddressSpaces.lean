/-
Address spaces as a forest of tables.

The page tables of all address spaces are read as one `RadixTree` forest, entry by
entry: a word of a table page encodes an empty entry, a table or a leaf.  Fresh
tables come from the page allocator, which never gives out a page twice, so no table
is shared.

* `SpaceInv.walk_eq` — the walk of the architecture is the lookup in the forest;
* `SpaceInv.ensureChildTable`, `SpaceInv.mapPage4k` — what the mapping calls do to
  the forest, and when they succeed;
* `leafTranslation_of_live`, `leafTranslation_eq_none` — what the walk makes of the
  entry that a mapping call writes.
-/
import Jixia.PageAccounting
import Jixia.RadixTree
import Jixia.Sv39

namespace Jixia

open RadixTree RadixTree.Tables PhysicalMemory

/-! ### Slots of table pages -/

section Slots

variable {table table' : Word} {i j : TableIndex}

theorem toNat_tableSlot (h : table.toNat % 4096 = 0) (i : TableIndex) :
    (tableSlot table i).toNat = table.toNat + 8 * i := by
  have := page_lt h
  have := i.isLt
  rw [tableSlot, BitVec.toNat_add, BitVec.toNat_ofNat]
  omega

theorem tableSlot_inj (h : table.toNat % 4096 = 0) (h' : table'.toNat % 4096 = 0)
    (heq : tableSlot table i = tableSlot table' j) : table = table' ∧ i = j := by
  have hn := congrArg BitVec.toNat heq
  rw [toNat_tableSlot h, toNat_tableSlot h'] at hn
  have := i.isLt
  have := j.isLt
  exact ⟨BitVec.eq_of_toNat_eq (by omega), Fin.ext (by omega)⟩

/-- A store to one entry is seen by that entry only. -/
theorem load64_store64_slot {bytes : ByteMemory} {value : Word} (h : table.toNat % 4096 = 0)
    (h' : table'.toNat % 4096 = 0) (hne : ¬ (table' = table ∧ j = i)) :
    (bytes.store64 (tableSlot table i) value).load64 (tableSlot table' j) =
      bytes.load64 (tableSlot table' j) := by
  apply ByteMemory.load64_store64_ne
  · rw [toNat_tableSlot h]
    omega
  · rw [toNat_tableSlot h']
    omega
  · exact fun heq => hne (tableSlot_inj h' h heq)

/-- The bytes of an entry lie in the page of its table. -/
theorem inPage_tableSlot (h : table.toNat % 4096 = 0) (i : TableIndex) (b : Fin 8) :
    InPage table (tableSlot table i + BitVec.ofNat 64 b) := by
  have hslot := toNat_tableSlot h i
  have := page_lt h
  have := i.isLt
  have := b.isLt
  rw [InPage, BitVec.toNat_add, BitVec.toNat_ofNat, hslot]
  omega

theorem load64_zeroPage_same {bytes : ByteMemory} (h : table.toNat % 4096 = 0) (i : TableIndex) :
    (zeroPage bytes table).load64 (tableSlot table i) = 0 :=
  ByteMemory.load64_eq_zero fun b => (zeroPage_apply h _).1 (inPage_tableSlot h i b)

theorem load64_zeroPage_ne {bytes : ByteMemory} (h : table.toNat % 4096 = 0)
    (h' : table'.toNat % 4096 = 0) (hne : table' ≠ table) (j : TableIndex) :
    (zeroPage bytes table).load64 (tableSlot table' j) = bytes.load64 (tableSlot table' j) := by
  refine ByteMemory.load64_congr fun b => (zeroPage_apply h _).2 fun hin => ?_
  obtain ⟨hlow, hhigh⟩ := hin
  obtain ⟨hlow', hhigh'⟩ := inPage_tableSlot h' j b
  exact hne (BitVec.eq_of_toNat_eq (by omega))

end Slots

/-! ### Entries as words -/

/-- The tables of Sv39; a leaf holds its entry. -/
abbrev PageTables := Tables Word TableIndex Word

/-- The word of an entry. -/
def encode : Slot Word Word → Word
  | .empty => 0
  | .table child => makePte child PteFlag.valid
  | .leaf pte => pte

/-- A page of physical memory within the 56 bits of Sv39. -/
structure PhysicalPage (page : Word) : Prop where
  aligned : page.toNat % 4096 = 0
  below : page.toNat < 2 ^ 56

/-- An entry that `map_page_4k` writes. -/
def PteSlotOk : Slot Word Word → Prop
  | .empty => True
  | .table child => PhysicalPage child
  | .leaf pte => pteIsValid pte = true

/-- Memory `m` holds the tables `g`, all of them carved from the page pool. -/
structure Stored (m : PhysicalMemory) (pages : List Word) (g : PageTables) : Prop where
  pool : PoolOk m.ranges pages
  below : ∀ range ∈ m.ranges, range.limit.toNat ≤ 2 ^ 56
  carved : ∀ {p d}, g.depth p = some d → p ∈ pages ∧ p ≠ 0
  entries : ∀ {p d}, g.depth p = some d → ∀ i, m.load (tableSlot p i) = encode (g.entry p i)
  slots : ∀ {p d}, g.depth p = some d → ∀ i, PteSlotOk (g.entry p i)

/-- The tables of all address spaces. -/
structure SpaceInv (m : PhysicalMemory) (pages : List Word) (g : PageTables) : Prop
    extends Stored m pages g where
  forest : Forest 2 g

variable {m : PhysicalMemory} {pages : List Word} {g : PageTables} {p q c : Word} {d : ℕ}
  {i : TableIndex}

theorem pteIsValid_table (child : Word) : pteIsValid (makePte child PteFlag.valid) = true := by
  rw [pteIsValid, hasFlag_makePte (by decide)]
  decide

/-- The entry that `map_page_4k` writes. -/
theorem pteIsValid_leaf (physicalAddress flags : Word) :
    pteIsValid (makePte physicalAddress (flags ||| PteFlag.valid)) = true := by
  rw [pteIsValid, hasFlag_makePte (by decide), hasFlag_or]
  exact Bool.or_eq_true_iff.mpr (.inr (by decide))

theorem encode_empty_iff {slot : Slot Word Word} (h : PteSlotOk slot) :
    pteIsValid (encode slot) = false ↔ slot = .empty := by
  cases slot with
  | empty => simp [encode, pteIsValid, hasFlag]
  | table child => simp [encode, pteIsValid_table]
  | leaf pte => simp [encode, show pteIsValid pte = true from h]

theorem pteIsLeaf_table (child : Word) : pteIsLeaf (makePte child PteFlag.valid) = false := by
  rw [pteIsLeaf, hasFlag_makePte (by decide)]
  decide

theorem ptePhysicalAddress_table {child : Word} (h : PhysicalPage child) :
    ptePhysicalAddress (makePte child PteFlag.valid) = child := by
  rw [ptePhysicalAddress_makePte h.below h.aligned (by decide),
    shiftRight_ten_eq_zero (by decide)]
  exact BitVec.or_zero

namespace Stored

theorem page (h : Stored m pages g) (hp : g.depth p = some d) : PhysicalPage p := by
  obtain ⟨halign, range, hr, _, hnext⟩ := h.pool.carved p (h.carved hp).1
  have hle : range.next.toNat ≤ range.limit.toNat := (h.pool.ok range hr).next_le
  have := h.below range hr
  exact ⟨halign, by omega⟩

/-- A page from the pool that no table uses, with every entry empty. -/
theorem allocatePage (h : Stored m pages g) :
    m.allocatePage = ({}, m) ∨ ∃ c backing m', m.allocatePage = (⟨c, backing⟩, m') ∧
      backing ≠ .unavailable ∧ c ∉ pages ∧ PhysicalPage c ∧ Stored m' (pages ++ [c]) g ∧
      ∀ i, m'.load (tableSlot c i) = 0 := by
  rcases m.allocatePage_cases with hno | ⟨range, ranges', hc, hb, hyes⟩
  · exact .inl hno
  refine .inr ⟨range.next, range.backing, _, hyes, ?_, (h.pool.fresh hc).1, ?_⟩
  · intro hun
    rw [hun] at hb
    exact hb
  have hok := h.pool.ok range hc.mem
  have hlt := hok.next_lt hc.room
  have hlimit := h.below range hc.mem
  refine ⟨⟨hok.next_aligned, by omega⟩, ⟨h.pool.carve hc, fun r hr => ?_, fun hp => ?_,
    fun hp i => ?_, h.slots⟩, fun i => load64_zeroPage_same hok.next_aligned i⟩
  · rcases hc.mem_cases r hr with rfl | hr
    · rw [ManagedRange.advanced_limit]
      exact hlimit
    · exact h.below r hr
  · exact ⟨List.mem_append_left _ (h.carved hp).1, (h.carved hp).2⟩
  · have hne : _ ≠ range.next := fun heq => (h.pool.fresh hc).1 (heq ▸ (h.carved hp).1)
    exact (load64_zeroPage_ne hok.next_aligned (h.page hp).aligned hne i).trans (h.entries hp i)

/-- Storing an entry of a table. -/
theorem store (h : Stored m pages g) (hp : g.depth p = some d) {slot : Slot Word Word}
    (hs : PteSlotOk slot) :
    Stored (m.store (tableSlot p i) (encode slot)) pages (g.set p i slot) := by
  have halign := (h.page hp).aligned
  refine ⟨h.pool, h.below, h.carved, fun {q e} hq j => ?_, fun {q e} hq j => ?_⟩
  · by_cases hslot : q = p ∧ j = i
    · obtain ⟨rfl, rfl⟩ := hslot
      rw [set_entry_same]
      exact ByteMemory.load64_store64 ..
    · rw [set_entry_ne hslot]
      exact (load64_store64_slot halign (h.page hq).aligned hslot).trans (h.entries hq j)
  · by_cases hslot : q = p ∧ j = i
    · obtain ⟨rfl, rfl⟩ := hslot
      rwa [set_entry_same]
    · rw [set_entry_ne hslot]
      exact h.slots hq j

theorem not_table (h : Stored m pages g) (hfresh : c ∉ pages) : g.depth c = none := by
  cases hd : g.depth c with
  | none => rfl
  | some e => exact absurd (h.carved hd).1 hfresh

/-- A fresh page becomes a table. -/
theorem addTable (h : Stored m pages g) (hc : g.depth c = none) (hmem : c ∈ pages)
    (hne : c ≠ 0) (hzero : ∀ i, m.load (tableSlot c i) = 0) (e : ℕ) :
    Stored m pages (g.addTable c e) := by
  have hold : ∀ {p d}, (g.addTable c e).depth p = some d → p = c ∨ g.depth p = some d := by
    intro p d hp
    by_cases hpc : p = c
    · exact .inl hpc
    · rw [addTable_depth_ne hpc] at hp
      exact .inr hp
  refine ⟨h.pool, h.below, fun {p d} hp => ?_, fun {p d} hp i => ?_, fun {p d} hp i => ?_⟩
  · rcases hold hp with rfl | hg
    · exact ⟨hmem, hne⟩
    · exact h.carved hg
  · rcases hold hp with rfl | hg
    · rw [addTable_entry_same]
      exact hzero i
    · rw [addTable_entry_ne (Forest.ne_of_fresh hg hc)]
      exact h.entries hg i
  · rcases hold hp with rfl | hg
    · rw [addTable_entry_same]
      exact trivial
    · rw [addTable_entry_ne (Forest.ne_of_fresh hg hc)]
      exact h.slots hg i

end Stored

/-- Tables were added, and every old lookup is as before. -/
structure Extends (g g' : PageTables) : Prop where
  depth : ∀ {p d}, g.depth p = some d → g'.depth p = some d
  roots : ∀ {p}, g'.depth p = some 2 → g.depth p = some 2
  table : ∀ {p d i c}, g.depth p = some d → g.entry p i = .table c → g'.entry p i = .table c
  lookup : ∀ {p d}, g.depth p = some d → ∀ l, g'.lookup p l = g.lookup p l

theorem Extends.refl (g : PageTables) : Extends g g :=
  ⟨id, id, fun _ => id, fun _ _ => rfl⟩

theorem Extends.trans {g1 g2 g3 : PageTables} (h : Extends g1 g2) (h' : Extends g2 g3) :
    Extends g1 g3 :=
  ⟨fun hp => h'.depth (h.depth hp), fun hp => h.roots (h'.roots hp),
    fun hp ht => h'.table (h.depth hp) (h.table hp ht),
    fun hp l => (h'.lookup (h.depth hp) l).trans (h.lookup hp l)⟩

theorem extends_link (hf : Forest 2 g) (hp : g.depth p = some (d + 1))
    (he : g.entry p i = .empty) (hc : g.depth c = none) : Extends g (g.link p i c d) := by
  refine ⟨link_depth_old hc, fun hq => ?_, link_entry_table he hc, lookup_link hf hp he hc⟩
  rcases link_depth_cases hq with ⟨_, hd⟩ | hg
  · have := hf.bounded hp
    omega
  · exact hg

/-- The entry of a table in memory. -/
theorem Stored.load_valid_iff (h : Stored m pages g) (hp : g.depth p = some d) (i : TableIndex) :
    pteIsValid (m.bytes.load64 (tableSlot p i)) = false ↔ g.entry p i = .empty := by
  rw [show m.bytes.load64 (tableSlot p i) = encode (g.entry p i) from h.entries hp i]
  exact encode_empty_iff (h.slots hp i)

/-- What `ensure_child_table` does with the entry `i` of the table `p`: it hands out the
table `c` below it, a fresh one where there was none, or fails. -/
structure Ensured (m m' : PhysicalMemory) (g g' : PageTables) (p : Word) (i : TableIndex)
    (d : ℕ) (c : Word) : Prop where
  extend : Extends g g'
  child : c ≠ 0 → g'.depth c = some d ∧ g'.entry p i = .table c
  old : g.entry p i ≠ .empty → m' = m ∧ g' = g ∧ c ≠ 0
  fresh : g.entry p i = .empty → (c ≠ 0 ↔ 0 < m.usablePages)
  empty : g.entry p i = .empty → c ≠ 0 →
    m.usablePages = m'.usablePages + 1 ∧ ∀ j, g'.entry c j = .empty

/-- **`ensure_child_table` hands out the table below an entry**, or fails; no lookup
changes. -/
theorem SpaceInv.ensureChildTable (h : SpaceInv m pages g) (hp : g.depth p = some (d + 1))
    (i : TableIndex) : ∃ c m' pages' g', m.ensureChildTable (tableSlot p i) = (c, m') ∧
      SpaceInv m' pages' g' ∧ Ensured m m' g g' p i d c := by
  rw [PhysicalMemory.ensureChildTable, h.entries hp i]
  cases hslot : g.entry p i with
  | leaf value => exact absurd (h.forest.leaf hp hslot) (Nat.succ_ne_zero d)
  | table c =>
    obtain ⟨e, hde, hc⟩ := h.forest.child hp hslot
    cases hde
    simp only [encode, pteIsValid_table, pteIsLeaf_table, if_true, Bool.false_eq_true, if_false,
      ptePhysicalAddress_table (h.page hc)]
    refine ⟨c, m, pages, g, rfl, h, .refl g, fun _ => ⟨hc, hslot⟩,
      fun _ => ⟨rfl, rfl, (h.carved hc).2⟩, ?_, ?_⟩
    all_goals
      rw [hslot]
      exact nofun
  | empty =>
    have hinvalid : pteIsValid (encode .empty) = false := by decide
    simp only [hinvalid, Bool.false_eq_true, if_false]
    have husable := allocatePage_usable h.pool.ok
    rcases h.allocatePage with hno | ⟨c, backing, m', hpage, hb, hfresh, hphys, hinv, hzero⟩
    · rw [hno] at husable ⊢
      rcases husable with ⟨hvalid, -⟩ | ⟨-, hnone⟩
      · cases hvalid
      exact ⟨0, m, pages, g, rfl, h, .refl g, fun hne => absurd rfl hne,
        fun hne => absurd hslot hne, fun _ => by simp [hnone], fun _ hne => absurd rfl hne⟩
    rw [hpage] at husable ⊢
    rcases husable with ⟨hvalid, hone⟩ | ⟨hvalid, hnone⟩
    · simp only [hvalid, if_true]
      have hne : c ≠ 0 := (Allocation.valid_iff.mp hvalid).1
      have hnone := h.not_table hfresh
      have hnew := hinv.addTable hnone (by simp) hne hzero d
      have hp' : (g.addTable c d).depth p = some (d + 1) := by
        rw [addTable_depth_ne (Forest.ne_of_fresh hp hnone), hp]
      refine ⟨c, _, pages ++ [c], g.link p i c d, rfl,
        ⟨hnew.store hp' (show PteSlotOk (.table c) from hphys), h.forest.link hp hslot hnone⟩,
        extends_link h.forest hp hslot hnone, fun _ => ⟨link_depth_new, set_entry_same _⟩,
        fun hold => absurd hslot hold, fun _ => iff_of_true hne (by omega),
        fun _ _ => ⟨hone, fun j => ?_⟩⟩
      exact (set_entry_ne fun heq => Forest.ne_of_fresh hp hnone heq.1.symm).trans
        (addTable_entry_same ..)
    · -- The page at address 0 is given out and refused: it is lost.
      simp only [hvalid, Bool.false_eq_true, if_false]
      exact ⟨0, m', _, g, rfl, ⟨hinv, h.forest⟩, .refl g, fun hne => absurd rfl hne,
        fun hne => absurd hslot hne, fun _ => by simp [hnone], fun _ hne => absurd rfl hne⟩

theorem lookup_addTable_same (g : PageTables) (c : Word) (d : ℕ) (l : List TableIndex) :
    (g.addTable c d).lookup c l = none := by
  cases l with
  | nil => rfl
  | cons i l => rw [lookup, addTable_entry_same]

/-- **`create_address_space` gives an empty tree**, or fails. -/
theorem SpaceInv.createAddressSpace (h : SpaceInv m pages g) :
    ∃ root m' pages' g', m.createAddressSpace = (⟨root⟩, m') ∧ SpaceInv m' pages' g' ∧
      (∀ p, g'.depth p = some 2 ↔ g.depth p = some 2 ∨ p = root ∧ root ≠ 0) ∧
      (∀ {p d}, g.depth p = some d → ∀ l, g'.lookup p l = g.lookup p l) ∧
      (root ≠ 0 → ∀ l, g'.lookup root l = none) := by
  rw [PhysicalMemory.createAddressSpace]
  rcases h.allocatePage with hno | ⟨c, backing, m', hpage, hb, hfresh, hphys, hinv, hzero⟩
  · rw [hno]
    exact ⟨0, m, pages, g, rfl, h, fun p => by simp, fun _ _ => rfl, fun hne => absurd rfl hne⟩
  rw [hpage]
  by_cases hzeroPage : c = 0
  · have hvalid : Allocation.valid ⟨c, backing⟩ = false := by simp [Allocation.valid, hzeroPage]
    simp only [hvalid, Bool.false_eq_true, if_false]
    exact ⟨0, m', _, g, rfl, ⟨hinv, h.forest⟩, fun p => by simp, fun _ _ => rfl,
      fun hne => absurd rfl hne⟩
  · have hvalid : Allocation.valid ⟨c, backing⟩ = true :=
      Allocation.valid_iff.mpr ⟨hzeroPage, hb⟩
    simp only [hvalid, if_true]
    have hnone := h.not_table hfresh
    refine ⟨c, m', _, g.addTable c 2, rfl, ⟨hinv.addTable hnone (by simp) hzeroPage hzero 2,
      h.forest.addRoot hnone⟩, fun p => ?_, lookup_addTable h.forest hnone,
      fun _ => lookup_addTable_same g c 2⟩
    by_cases hpc : p = c
    · subst hpc
      rw [addTable_depth_same]
      exact iff_of_true rfl (.inr ⟨rfl, hzeroPage⟩)
    · rw [addTable_depth_ne hpc]
      exact ⟨.inl, fun hor => hor.resolve_right fun hc => hpc hc.1⟩

/-! ### Mapping a page -/

/-- Arguments with which `map_page_4k` is called. -/
structure MapArgs (virtualAddress physicalAddress flags : Word) : Prop where
  canonical : Canonical virtualAddress
  virtual_aligned : virtualAddress.toNat % 4096 = 0
  physical : PhysicalPage physicalAddress
  low : flags.toNat < 2 ^ 8
  leaf : (hasFlag flags PteFlag.read || hasFlag flags PteFlag.execute) = true
  writable : hasFlag flags PteFlag.write = true → hasFlag flags PteFlag.read = true

/-- What `map_page_4k` checks of its arguments before it touches a table. -/
structure MapChecks (virtualAddress physicalAddress flags : Word) : Prop where
  virtual_aligned : virtualAddress.toNat % 4096 = 0
  physical_aligned : physicalAddress.toNat % 4096 = 0
  writable : hasFlag flags PteFlag.write = true → hasFlag flags PteFlag.read = true

/-- The tables that are missing on the path to the entry of a page. -/
def missingTables (bytes : ByteMemory) (root virtualAddress : Word) : ℕ :=
  let pte := bytes.load64 (tableSlot root (vpnIndex virtualAddress 2))
  if pteIsValid pte = false then 2
  else if pteIsValid (bytes.load64
      (tableSlot (ptePhysicalAddress pte) (vpnIndex virtualAddress 1))) = false then 1
  else 0

/-- The entry of a page, where no table is missing on the path to it. -/
def leafEntry (bytes : ByteMemory) (root virtualAddress : Word) : Word :=
  let pte := bytes.load64 (tableSlot root (vpnIndex virtualAddress 2))
  let pte := bytes.load64 (tableSlot (ptePhysicalAddress pte) (vpnIndex virtualAddress 1))
  bytes.load64 (tableSlot (ptePhysicalAddress pte) (vpnIndex virtualAddress 0))

/-- The entry of the page is not in use, and the pool has the tables that are missing on
the path to it. -/
structure Free (m : PhysicalMemory) (root virtualAddress : Word) : Prop where
  tables : missingTables m.bytes root virtualAddress ≤ m.usablePages
  entry : missingTables m.bytes root virtualAddress = 0 →
    pteIsValid (leafEntry m.bytes root virtualAddress) = false

/-- What a call of `map_page_4k` does to the tables: a leaf at the page where there
was none, or no change that a walk could see. -/
structure Mapped (g g' : PageTables) (root : Word) (l : List TableIndex) (leaf : Word)
    (mapped : Bool) : Prop where
  depth : ∀ {p d}, g.depth p = some d → g'.depth p = some d
  roots : ∀ {p}, g'.depth p = some 2 → g.depth p = some 2
  absent : mapped = true → g.lookup root l = none
  found : mapped = true → g'.lookup root l = some leaf
  refused : mapped = false → ∀ {p d}, g.depth p = some d → ∀ l', g'.lookup p l' = g.lookup p l'
  others : ∀ {r l'}, g.depth r = some 2 → l'.length = 3 → ¬ (r = root ∧ l' = l) →
    g'.lookup r l' = g.lookup r l'

theorem Extends.mapped_false {g g' : PageTables} (h : Extends g g') {root : Word}
    {l : List TableIndex} {leaf : Word} : Mapped g g' root l leaf false :=
  ⟨h.depth, h.roots, nofun, nofun, fun _ => h.lookup, fun hr _ _ => h.lookup hr _⟩

/-- The last level of a mapping call. -/
theorem SpaceInv.mapLeaf {g0 : PageTables} (h : SpaceInv m pages g) (hext : Extends g0 g)
    {root c1 c0 : Word} {i2 i1 : TableIndex} (hroot0 : g0.depth root = some 2)
    (h2 : g.entry root i2 = .table c1) (h1 : g.entry c1 i1 = .table c0)
    (hd : g.depth c0 = some 0) (i0 : TableIndex) (physicalAddress flags : Word) :
    ∃ mapped m' g', m.mapLeaf (tableSlot c0 i0) physicalAddress flags = (mapped, m') ∧
      SpaceInv m' pages g' ∧
      Mapped g0 g' root [i2, i1, i0] (makePte physicalAddress (flags ||| PteFlag.valid)) mapped ∧
      (mapped = true ↔ g.entry c0 i0 = .empty) := by
  have hroot := hext.depth hroot0
  have hpath : Path g root [i2, i1] c0 := .cons h2 (.cons h1 (.nil c0))
  have hslot := h.load_valid_iff hd i0
  rw [PhysicalMemory.mapLeaf, PhysicalMemory.load]
  split
  · rename_i hvalid
    rw [hvalid] at hslot
    exact ⟨false, m, g, rfl, h, hext.mapped_false, by simpa using hslot⟩
  · rename_i hinvalid
    have hempty : g.entry c0 i0 = .empty := hslot.mp (Bool.eq_false_iff.mpr hinvalid)
    have hstored := h.toStored.store hd (i := i0)
      (show PteSlotOk (.leaf (makePte physicalAddress (flags ||| PteFlag.valid))) from
        pteIsValid_leaf ..)
    obtain ⟨habsent, hfound⟩ :=
      lookup_setLeaf (a := makePte physicalAddress (flags ||| PteFlag.valid)) hempty hpath
    refine ⟨true, _, _, rfl, ⟨hstored, h.forest.setLeaf hd hempty⟩, ⟨hext.depth, hext.roots,
      fun _ => ?_, fun _ => hfound, nofun, fun {r l'} hr hl hne => ?_⟩, iff_of_true rfl hempty⟩
    · rw [← hext.lookup hroot0]
      exact habsent
    · rw [← hext.lookup hr]
      refine lookup_setLeaf_ne h.forest hd hempty (hext.depth hr) hl fun l'' hl'' hp => hne ?_
      -- Another page that led to the same entry would be the same page.
      obtain ⟨rfl, rfl⟩ := h.forest.path_unique hroot (hext.depth hr) hpath hp
      exact ⟨rfl, hl''⟩

section Equations

variable {space : AddressSpace} {virtualAddress physicalAddress flags level1 level0 : Word}
  {m1 m0 : PhysicalMemory}

/-- A call with arguments that do not pass the checks does nothing. -/
theorem mapPage4k_unchecked
    (h : ¬ (space.valid = true ∧ MapChecks virtualAddress physicalAddress flags)) :
    m.mapPage4k space virtualAddress physicalAddress flags = (false, m) := by
  rw [PhysicalMemory.mapPage4k]
  split
  · rfl
  rename_i hargs
  simp only [not_or, Bool.not_eq_false] at hargs
  refine if_pos (by_contra fun hflags => h ⟨hargs.1, isPageAligned_iff.mp hargs.2.1,
    isPageAligned_iff.mp hargs.2.2, ?_⟩)
  simpa using hflags

theorem mapPage4k_level1 (hargs : MapChecks virtualAddress physicalAddress flags)
    (hspace : space.valid = true)
    (h1 : m.ensureChildTable (tableSlot space.rootPhysicalAddress (vpnIndex virtualAddress 2)) =
      (level1, m1)) :
    m.mapPage4k space virtualAddress physicalAddress flags =
      if level1 = 0 then (false, m1)
      else m1.mapLevel1 level1 virtualAddress physicalAddress flags := by
  have hvirtual := isPageAligned_iff.mpr hargs.virtual_aligned
  have hphysical := isPageAligned_iff.mpr hargs.physical_aligned
  rw [PhysicalMemory.mapPage4k, if_neg (by simp [hspace, hvirtual, hphysical]),
    if_neg (by simpa using hargs.writable), h1]

theorem mapLevel1_eq
    (h0 : m1.ensureChildTable (tableSlot level1 (vpnIndex virtualAddress 1)) = (level0, m0)) :
    m1.mapLevel1 level1 virtualAddress physicalAddress flags =
      if level0 = 0 then (false, m0)
      else m0.mapLeaf (tableSlot level0 (vpnIndex virtualAddress 0)) physicalAddress flags := by
  rw [PhysicalMemory.mapLevel1, h0]

end Equations

/-- The page is free, seen from the table `c1` of level 1. -/
def FreeBelow (m : PhysicalMemory) (g : PageTables) (c1 virtualAddress : Word) : Prop :=
  (g.entry c1 (vpnIndex virtualAddress 1) = .empty ∧ 1 ≤ m.usablePages) ∨
    ∃ c0, g.entry c1 (vpnIndex virtualAddress 1) = .table c0 ∧
      g.entry c0 (vpnIndex virtualAddress 0) = .empty

/-- What is free, in terms of the forest. -/
theorem SpaceInv.free_iff (h : SpaceInv m pages g) {root : Word} (hroot : g.depth root = some 2)
    (virtualAddress : Word) : Free m root virtualAddress ↔
      (g.entry root (vpnIndex virtualAddress 2) = .empty ∧ 2 ≤ m.usablePages) ∨
      ∃ c1, g.entry root (vpnIndex virtualAddress 2) = .table c1 ∧
        FreeBelow m g c1 virtualAddress := by
  have hfree : Free m root virtualAddress ↔
      missingTables m.bytes root virtualAddress ≤ m.usablePages ∧
      (missingTables m.bytes root virtualAddress = 0 →
        pteIsValid (leafEntry m.bytes root virtualAddress) = false) :=
    ⟨fun hf => ⟨hf.tables, hf.entry⟩, fun hf => ⟨hf.1, hf.2⟩⟩
  have hvalid2 := h.load_valid_iff hroot (vpnIndex virtualAddress 2)
  rw [hfree]
  cases hslot2 : g.entry root (vpnIndex virtualAddress 2) with
  | leaf pte => exact absurd (h.forest.leaf hroot hslot2) (by decide)
  | empty => simp [missingTables, hvalid2.mpr hslot2]
  | table c1 =>
    obtain ⟨d, hd, hc1⟩ := h.forest.child hroot hslot2
    cases hd
    have hload2 : m.bytes.load64 (tableSlot root (vpnIndex virtualAddress 2)) =
        makePte c1 PteFlag.valid := (h.entries hroot _).trans (by rw [hslot2, encode])
    have hvalid1 := h.load_valid_iff hc1 (vpnIndex virtualAddress 1)
    unfold missingTables leafEntry
    dsimp only
    rw [hload2, ptePhysicalAddress_table (h.page hc1), if_neg (by simp [pteIsValid_table])]
    cases hslot1 : g.entry c1 (vpnIndex virtualAddress 1) with
    | leaf pte => exact absurd (h.forest.leaf hc1 hslot1) (by decide)
    | empty => simp [FreeBelow, hvalid1.mpr hslot1, hslot1]
    | table c0 =>
      obtain ⟨d, hd, hc0⟩ := h.forest.child hc1 hslot1
      cases hd
      have hload1 : m.bytes.load64 (tableSlot c1 (vpnIndex virtualAddress 1)) =
          makePte c0 PteFlag.valid := (h.entries hc1 _).trans (by rw [hslot1, encode])
      have hvalid0 := h.load_valid_iff hc0 (vpnIndex virtualAddress 0)
      rw [hload1, ptePhysicalAddress_table (h.page hc0), if_neg (by simp [pteIsValid_table])]
      simp [FreeBelow, hvalid0, hslot1]

/-- The mapping call from the table of level 1 on. -/
theorem SpaceInv.mapLevel1 {g0 : PageTables} (h : SpaceInv m pages g) (hext : Extends g0 g)
    {root c1 virtualAddress : Word} (hroot : g0.depth root = some 2)
    (h2 : g.entry root (vpnIndex virtualAddress 2) = .table c1) (hd : g.depth c1 = some 1)
    (physicalAddress flags : Word) :
    ∃ mapped m' pages' g', m.mapLevel1 c1 virtualAddress physicalAddress flags = (mapped, m') ∧
      SpaceInv m' pages' g' ∧ Mapped g0 g' root (vpnIndices virtualAddress)
        (makePte physicalAddress (flags ||| PteFlag.valid)) mapped ∧
      (mapped = true ↔ FreeBelow m g c1 virtualAddress) := by
  obtain ⟨c0, m1, pages1, g1, heq, hinv, hens⟩ := h.ensureChildTable hd (vpnIndex virtualAddress 1)
  rw [mapLevel1_eq heq]
  by_cases hne : c0 = 0
  · rw [if_pos hne]
    refine ⟨false, m1, pages1, g1, rfl, hinv, (hext.trans hens.extend).mapped_false,
      iff_of_false Bool.false_ne_true ?_⟩
    rintro (⟨hempty, hpages⟩ | ⟨c, htable, -⟩)
    · exact (hens.fresh hempty).mpr hpages hne
    · exact (hens.old (by rw [htable]; exact nofun)).2.2 hne
  rw [if_neg hne]
  obtain ⟨hd0, h1⟩ := hens.child hne
  obtain ⟨mapped, m', g', heq', hinv', hmapped, hiff⟩ := hinv.mapLeaf (hext.trans hens.extend)
    hroot (hens.extend.table (hext.depth hroot) h2) h1 hd0
    (vpnIndex virtualAddress 0) physicalAddress flags
  refine ⟨mapped, m', pages1, g', heq', hinv', hmapped, hiff.trans ?_⟩
  by_cases hempty : g.entry c1 (vpnIndex virtualAddress 1) = .empty
  · exact iff_of_true ((hens.empty hempty hne).2 _) (.inl ⟨hempty, (hens.fresh hempty).mp hne⟩)
  · obtain ⟨-, rfl, -⟩ := hens.old hempty
    refine ⟨fun hfree => .inr ⟨c0, h1, hfree⟩, ?_⟩
    rintro (⟨hfree, -⟩ | ⟨c, htable, hfree⟩)
    · exact absurd hfree hempty
    · rw [h1] at htable
      cases htable
      exact hfree

/-- **`map_page_4k` on the tables**: it succeeds exactly when the arguments pass its checks
and the page is free. -/
theorem SpaceInv.mapPage4k (h : SpaceInv m pages g) {space : AddressSpace}
    (hroot : g.depth space.rootPhysicalAddress = some 2)
    (virtualAddress physicalAddress flags : Word) :
    ∃ mapped m' pages' g',
      m.mapPage4k space virtualAddress physicalAddress flags = (mapped, m') ∧
      SpaceInv m' pages' g' ∧ Mapped g g' space.rootPhysicalAddress (vpnIndices virtualAddress)
        (makePte physicalAddress (flags ||| PteFlag.valid)) mapped ∧
      (mapped = true ↔ MapChecks virtualAddress physicalAddress flags ∧
        Free m space.rootPhysicalAddress virtualAddress) := by
  have hspace : space.valid = true := bne_iff_ne.mpr (h.carved hroot).2
  by_cases hargs : MapChecks virtualAddress physicalAddress flags
  swap
  · rw [mapPage4k_unchecked fun hall => hargs hall.2]
    exact ⟨false, m, pages, g, rfl, h, (Extends.refl g).mapped_false,
      iff_of_false Bool.false_ne_true fun hall => hargs hall.1⟩
  rw [and_iff_right hargs, h.free_iff hroot]
  obtain ⟨level1, m1, pages1, g1, heq1, hinv1, hens1⟩ :=
    h.ensureChildTable hroot (vpnIndex virtualAddress 2)
  rw [mapPage4k_level1 hargs hspace heq1]
  by_cases hne1 : level1 = 0
  · rw [if_pos hne1]
    refine ⟨false, m1, pages1, g1, rfl, hinv1, hens1.extend.mapped_false,
      iff_of_false Bool.false_ne_true ?_⟩
    rintro (⟨hempty, hpages⟩ | ⟨c1, htable, -⟩)
    · exact (hens1.fresh hempty).mpr (by omega) hne1
    · exact (hens1.old (by rw [htable]; exact nofun)).2.2 hne1
  rw [if_neg hne1]
  obtain ⟨hd1, h2⟩ := hens1.child hne1
  obtain ⟨mapped, m', pages', g', heq, hinv', hmapped, hiff⟩ :=
    hinv1.mapLevel1 hens1.extend hroot h2 hd1 physicalAddress flags
  refine ⟨mapped, m', pages', g', heq, hinv', hmapped, hiff.trans ?_⟩
  by_cases hempty : g.entry space.rootPhysicalAddress (vpnIndex virtualAddress 2) = .empty
  · obtain ⟨hone, hnew⟩ := hens1.empty hempty hne1
    constructor
    · rintro (⟨-, hpages⟩ | ⟨c, htable, -⟩)
      · exact .inl ⟨hempty, by omega⟩
      · rw [hnew] at htable
        cases htable
    · rintro (⟨-, hpages⟩ | ⟨c, htable, -⟩)
      · exact .inl ⟨hnew _, by omega⟩
      · rw [hempty] at htable
        cases htable
  · obtain ⟨rfl, rfl, -⟩ := hens1.old hempty
    refine ⟨fun hfree => .inr ⟨level1, h2, hfree⟩, ?_⟩
    rintro (⟨hfree, -⟩ | ⟨c, htable, hfree⟩)
    · exact absurd hfree hempty
    · rw [h2] at htable
      cases htable
      exact hfree

/-! ### The walk -/

/-- What a walk makes of an entry of the last level. -/
def leafTranslation (virtualAddress pte : Word) : Option Translation :=
  (walkStep virtualAddress 0 pte).resume fun _ => none

/-- An entry of `map_page_4k` that the walk translates: the page has 56 bits, no reserved
bit is set, and the page can be read or executed. -/
structure LiveEntry (physicalAddress flags : Word) : Prop where
  physical : physicalAddress.toNat < 2 ^ 56
  reserved : flags.toNat < 2 ^ 54
  leaf : (hasFlag flags PteFlag.read || hasFlag flags PteFlag.execute) = true

/-- The table indices from a level down. -/
def indicesFrom (virtualAddress : Word) : ℕ → List TableIndex
  | 0 => [vpnIndex virtualAddress 0]
  | level + 1 => vpnIndex virtualAddress (level + 1) :: indicesFrom virtualAddress level

section Steps

variable {virtualAddress : Word} {level : ℕ}

theorem walkStep_empty : walkStep virtualAddress level 0 = .fault :=
  if_pos (by decide)

theorem walkStep_table {c : Word} (h : PhysicalPage c) :
    walkStep virtualAddress level (makePte c PteFlag.valid) = .table c := by
  have hfaults : pteFaults (makePte c PteFlag.valid) = false := by
    rw [pteFaults, hasFlag_makePte (by decide), hasFlag_makePte (by decide),
      hasFlag_makePte (by decide), makePte_high_iff.mpr ⟨h.below, by decide⟩]
    decide
  have hleaf : (hasFlag (makePte c PteFlag.valid) PteFlag.read ||
      hasFlag (makePte c PteFlag.valid) PteFlag.execute) = false := by
    rw [hasFlag_makePte (by decide), hasFlag_makePte (by decide)]
    decide
  have hreserved : hasFlag (makePte c PteFlag.valid)
      (PteFlag.user ||| PteFlag.accessed ||| PteFlag.dirty) = false := by
    rw [hasFlag_makePte (by decide)]
    decide
  rw [walkStep, hfaults, hleaf, hreserved, ptePhysicalAddress_table h]
  rfl

theorem and_offsetMask_zero {page : Word} (h : page.toNat % 4096 = 0) :
    page &&& offsetMask 0 = 0#64 := by
  apply BitVec.eq_of_toNat_eq
  rw [BitVec.toNat_and, show (offsetMask 0).toNat = 2 ^ 12 - 1 from rfl,
    Nat.and_two_pow_sub_one_eq_mod]
  exact h

section Leaf

variable {physicalAddress flags : Word}

/-- What the walk sees of the flags with which a page was mapped. -/
theorem hasFlag_leaf {flag : Word} (hflag : flag.toNat < 2 ^ 10)
    (hne : hasFlag PteFlag.valid flag = false) :
    hasFlag (makePte physicalAddress (flags ||| PteFlag.valid)) flag = hasFlag flags flag := by
  rw [hasFlag_makePte hflag, hasFlag_or, hne, Bool.or_false]

theorem toNat_or_valid_lt {n : ℕ} (hn : 1 < 2 ^ n) :
    (flags ||| PteFlag.valid).toNat < 2 ^ n ↔ flags.toNat < 2 ^ n := by
  rw [BitVec.toNat_or]
  exact ⟨lt_of_le_of_lt Nat.left_le_or, fun h => Nat.or_lt_two_pow h hn⟩

theorem or_valid_shiftRight : (flags ||| PteFlag.valid) >>> 10 = flags >>> 10 := by
  rw [BitVec.ushiftRight_or_distrib]
  exact BitVec.or_zero

/-- The walk faults at an entry of `map_page_4k` exactly for the reserved bits. -/
theorem pteFaults_leaf (hwritable : hasFlag flags PteFlag.write = true →
      hasFlag flags PteFlag.read = true) :
    pteFaults (makePte physicalAddress (flags ||| PteFlag.valid)) = false ↔
      physicalAddress.toNat < 2 ^ 56 ∧ flags.toNat < 2 ^ 54 := by
  have hvalid : hasFlag (makePte physicalAddress (flags ||| PteFlag.valid)) PteFlag.valid = true :=
    pteIsValid_leaf ..
  rw [← @toNat_or_valid_lt flags 54 (by decide), ← makePte_high_iff, pteFaults, hvalid,
    hasFlag_leaf (by decide) (by decide), hasFlag_leaf (by decide) (by decide)]
  cases hw : hasFlag flags PteFlag.write with
  | false => simp
  | true => simp [hwritable hw]

/-- **What the walk makes of an entry of `map_page_4k`.** -/
theorem leafTranslation_of_live (h : LiveEntry physicalAddress flags)
    (halign : physicalAddress.toNat % 4096 = 0)
    (hwritable : hasFlag flags PteFlag.write = true → hasFlag flags PteFlag.read = true) :
    leafTranslation virtualAddress (makePte physicalAddress (flags ||| PteFlag.valid)) =
      some ⟨physicalAddress ||| (flags >>> 10) <<< 12 ||| (virtualAddress &&& offsetMask 0),
        (flags ||| PteFlag.valid) &&& 0xff⟩ := by
  have hfaults := (pteFaults_leaf hwritable).mpr ⟨h.physical, h.reserved⟩
  have haddress := ptePhysicalAddress_makePte h.physical halign
    ((toNat_or_valid_lt (by decide)).mpr h.reserved)
  have hmask := and_offsetMask_zero (ptePhysicalAddress_aligned
    (makePte physicalAddress (flags ||| PteFlag.valid)))
  rw [leafTranslation, walkStep, hfaults, hasFlag_leaf (by decide) (by decide),
    hasFlag_leaf (by decide) (by decide), h.leaf, hmask, haddress, or_valid_shiftRight,
    makePte_and (by decide)]
  rfl

theorem leafTranslation_eq_none (h : ¬ LiveEntry physicalAddress flags)
    (hwritable : hasFlag flags PteFlag.write = true → hasFlag flags PteFlag.read = true) :
    leafTranslation virtualAddress (makePte physicalAddress (flags ||| PteFlag.valid)) = none := by
  rw [leafTranslation, walkStep]
  split
  · rfl
  rename_i hfaults
  obtain ⟨hphysical, hreserved⟩ := (pteFaults_leaf hwritable).mp (Bool.eq_false_iff.mpr hfaults)
  rw [hasFlag_leaf (by decide) (by decide), hasFlag_leaf (by decide) (by decide),
    if_neg fun hleaf => h ⟨hphysical, hreserved, hleaf⟩]
  split <;> rfl

/-- Flags of eight bits leave the page as it is, and are found as they are. -/
theorem leafTranslation_low (hp : PhysicalPage physicalAddress) (hlow : flags.toNat < 2 ^ 8)
    (hleaf : (hasFlag flags PteFlag.read || hasFlag flags PteFlag.execute) = true)
    (hwritable : hasFlag flags PteFlag.write = true → hasFlag flags PteFlag.read = true) :
    leafTranslation virtualAddress (makePte physicalAddress (flags ||| PteFlag.valid)) =
      some ⟨physicalAddress ||| (virtualAddress &&& offsetMask 0), flags ||| PteFlag.valid⟩ := by
  rw [leafTranslation_of_live ⟨hp.below, hlow.trans (by decide), hleaf⟩ hp.aligned hwritable,
    shiftRight_ten_eq_zero (hlow.trans (by decide)),
    and_eq_self ((toNat_or_valid_lt (by decide)).mpr hlow)]
  simp

end Leaf

end Steps

/-- The walk from a table follows the entries of the forest. -/
theorem SpaceInv.walkFrom_eq (h : SpaceInv m pages g) (virtualAddress : Word)
    (hp : g.depth p = some d) : walkFrom m.bytes virtualAddress d p =
      (g.lookup p (indicesFrom virtualAddress d)).bind (leafTranslation virtualAddress) := by
  induction d generalizing p with
  | zero =>
    have hload := h.entries hp (vpnIndex virtualAddress 0)
    rw [PhysicalMemory.load] at hload
    rw [walkFrom, indicesFrom, lookup, hload]
    cases hslot : g.entry p (vpnIndex virtualAddress 0) with
    | empty => rw [encode, walkStep_empty]; rfl
    | table c =>
      obtain ⟨_, hd, _⟩ := h.forest.child hp hslot
      cases hd
    | leaf pte => rfl
  | succ d ih =>
    have hload := h.entries hp (vpnIndex virtualAddress (d + 1))
    rw [PhysicalMemory.load] at hload
    rw [walkFrom, indicesFrom, lookup, hload]
    cases hslot : g.entry p (vpnIndex virtualAddress (d + 1)) with
    | empty => rw [encode, walkStep_empty]; rfl
    | table c =>
      obtain ⟨_, hd, hc⟩ := h.forest.child hp hslot
      cases hd
      rw [encode, walkStep_table (h.page hc)]
      exact ih hc
    | leaf value => exact absurd (h.forest.leaf hp hslot) (Nat.succ_ne_zero d)

/-- **The walk of the architecture is the lookup in the forest.** -/
theorem SpaceInv.walk_eq (h : SpaceInv m pages g) {root : Word} (hroot : g.depth root = some 2)
    {virtualAddress : Word} (hc : Canonical virtualAddress) : walk m.bytes root virtualAddress =
      (g.lookup root (vpnIndices virtualAddress)).bind (leafTranslation virtualAddress) := by
  rw [walk, if_pos hc]
  exact h.walkFrom_eq virtualAddress hroot

end Jixia
