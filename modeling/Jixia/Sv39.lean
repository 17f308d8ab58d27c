/-
Sv39 address spaces.

`sv39.cpp`: page tables in physical memory, filled by `map_page_4k` with tables from
the page manager.  `walk` is the address translation of the architecture: three
levels, superpages and the reserved encodings included, without the update of the
accessed and dirty bits.

* `makePte_and`, `ptePhysicalAddress_makePte` — what an entry of `make_pte` says;
* `vpnIndices_inj` — the three table indices determine a canonical page.
-/
import Jixia.PageManager

namespace Jixia

/-! ### Page table entries -/

namespace PteFlag

def valid : Word := 1 <<< 0
def read : Word := 1 <<< 1
def write : Word := 1 <<< 2
def execute : Word := 1 <<< 3
def user : Word := 1 <<< 4
def global : Word := 1 <<< 5
def accessed : Word := 1 <<< 6
def dirty : Word := 1 <<< 7

end PteFlag

def kPpnMask : Word := (1 <<< 44) - 1

def kLeafMask : Word := PteFlag.read ||| PteFlag.write ||| PteFlag.execute

/-- An index into a table of 512 entries. -/
abbrev TableIndex := Fin 512

def vpnIndex (virtualAddress : Word) (level : ℕ) : TableIndex :=
  Fin.ofNat 512 ((virtualAddress >>> (12 + 9 * level)) &&& 0x1ff).toNat

def makePte (physicalAddress flags : Word) : Word := ((physicalAddress >>> 12) <<< 10) ||| flags

def ptePhysicalAddress (pte : Word) : Word := ((pte >>> 10) &&& kPpnMask) <<< 12

/-- The flag is set in the entry. -/
def hasFlag (pte flag : Word) : Bool := pte &&& flag != 0

def pteIsValid (pte : Word) : Bool := hasFlag pte PteFlag.valid

def pteIsLeaf (pte : Word) : Bool := hasFlag pte kLeafMask

/-- The address of an entry of the table at `table`. -/
def tableSlot (table : Word) (index : TableIndex) : Word := table + BitVec.ofNat 64 (8 * index)

/-! ### The mapping calls -/

namespace PhysicalMemory

variable (m : PhysicalMemory)

def load (address : Word) : Word := m.bytes.load64 address

def store (address value : Word) : PhysicalMemory :=
  { m with bytes := m.bytes.store64 address value }

/-- `ensure_child_table` on the entry at `slot`; the null address stands for failure. -/
def ensureChildTable (slot : Word) : Word × PhysicalMemory :=
  let parentPte := m.load slot
  if pteIsValid parentPte then
    if pteIsLeaf parentPte then (0, m) else (ptePhysicalAddress parentPte, m)
  else
    let (allocation, m) := m.allocatePage
    if allocation.valid then
      (allocation.physicalAddress,
        m.store slot (makePte allocation.physicalAddress PteFlag.valid))
    else (0, m)

def createAddressSpace : AddressSpace × PhysicalMemory :=
  let (allocation, m) := m.allocatePage
  if allocation.valid then (⟨allocation.physicalAddress⟩, m) else (⟨0⟩, m)

/-- The last level of `map_page_4k`; a valid leaf is not overwritten. -/
def mapLeaf (slot physicalAddress flags : Word) : Bool × PhysicalMemory :=
  if pteIsValid (m.load slot) then (false, m)
  else (true, m.store slot (makePte physicalAddress (flags ||| PteFlag.valid)))

/-- `map_page_4k` from the table of level 1 on. -/
def mapLevel1 (level1 virtualAddress physicalAddress flags : Word) : Bool × PhysicalMemory :=
  let level0 := m.ensureChildTable (tableSlot level1 (vpnIndex virtualAddress 1))
  if level0.1 = 0 then (false, level0.2)
  else level0.2.mapLeaf (tableSlot level0.1 (vpnIndex virtualAddress 0)) physicalAddress flags

def mapPage4k (space : AddressSpace) (virtualAddress physicalAddress flags : Word) :
    Bool × PhysicalMemory :=
  if space.valid = false ∨ isPageAligned virtualAddress = false ∨
      isPageAligned physicalAddress = false then (false, m)
  else if hasFlag flags PteFlag.write ∧ hasFlag flags PteFlag.read = false then (false, m)
  else
    let level1 :=
      m.ensureChildTable (tableSlot space.rootPhysicalAddress (vpnIndex virtualAddress 2))
    if level1.1 = 0 then (false, level1.2)
    else level1.2.mapLevel1 level1.1 virtualAddress physicalAddress flags

/-- The loop of `map_range_4k` over the pages that are left; it ends at the first
page that cannot be mapped. -/
def mapPages (space : AddressSpace) (flags : Word) : ℕ → Word → Word → PhysicalMemory →
    Bool × PhysicalMemory
  | 0, _, _, m => (true, m)
  | pages + 1, virtualAddress, physicalAddress, m =>
    let page := m.mapPage4k space virtualAddress physicalAddress flags
    if page.1 then
      mapPages space flags pages (virtualAddress + kPageSize) (physicalAddress + kPageSize) page.2
    else (false, page.2)

def mapRange4k (space : AddressSpace) (virtualBase physicalBase size flags : Word) :
    Bool × PhysicalMemory :=
  if size = 0 ∨ isPageAligned virtualBase = false ∨ isPageAligned physicalBase = false ∨
      size % kPageSize ≠ 0 then (false, m)
  else if virtualBase + size ≤ virtualBase ∨ physicalBase + size ≤ physicalBase then (false, m)
  else mapPages space flags (size / kPageSize).toNat virtualBase physicalBase m

end PhysicalMemory

/-! ### The translation of the architecture -/

/-- What a walk finds: the physical address and the low eight bits of the leaf. -/
structure Translation where
  physicalAddress : Word
  flags : Word
  deriving DecidableEq

/-- The bits above bit 38 repeat it. -/
def Canonical (virtualAddress : Word) : Prop :=
  (virtualAddress.setWidth 39).signExtend 64 = virtualAddress

instance (virtualAddress : Word) : Decidable (Canonical virtualAddress) :=
  inferInstanceAs (Decidable (_ = _))

/-- An entry that raises a page fault at any level: not valid, writable without being
readable, or with a reserved high bit. -/
def pteFaults (pte : Word) : Bool :=
  !hasFlag pte PteFlag.valid || (hasFlag pte PteFlag.write && !hasFlag pte PteFlag.read) ||
    pte >>> 54 != 0

/-- The bits of an address that are an offset into a leaf at a level. -/
def offsetMask (level : ℕ) : Word := (1 <<< (12 + 9 * level)) - 1

/-- What the walk makes of an entry. -/
inductive WalkStep
  | fault
  | leaf (translation : Translation)
  | table (next : Word)

def walkStep (virtualAddress : Word) (level : ℕ) (pte : Word) : WalkStep :=
  if pteFaults pte then .fault
  else if hasFlag pte PteFlag.read || hasFlag pte PteFlag.execute then
    -- A leaf; above level 0 it is a superpage and must be aligned.
    if ptePhysicalAddress pte &&& offsetMask level != 0 then .fault
    else .leaf ⟨ptePhysicalAddress pte ||| (virtualAddress &&& offsetMask level), pte &&& 0xff⟩
  else if hasFlag pte (PteFlag.user ||| PteFlag.accessed ||| PteFlag.dirty) then .fault
  else .table (ptePhysicalAddress pte)

/-- The end of the walk, or the rest of it from the next table. -/
def WalkStep.resume (rest : Word → Option Translation) : WalkStep → Option Translation
  | .fault => none
  | .leaf translation => some translation
  | .table next => rest next

/-- The walk from a table of the given level. -/
def walkFrom (bytes : ByteMemory) (virtualAddress : Word) : ℕ → Word → Option Translation
  | 0, table =>
    (walkStep virtualAddress 0 (bytes.load64 (tableSlot table (vpnIndex virtualAddress 0)))).resume
      fun _ => none
  | level + 1, table =>
    (walkStep virtualAddress (level + 1)
      (bytes.load64 (tableSlot table (vpnIndex virtualAddress (level + 1))))).resume
      (walkFrom bytes virtualAddress level)

/-- The Sv39 walk from the root table. -/
def walk (bytes : ByteMemory) (root virtualAddress : Word) : Option Translation :=
  if Canonical virtualAddress then walkFrom bytes virtualAddress 2 root else none

/-! ### What an entry says -/

section Entries

variable {physicalAddress flags mask pte : Word}

theorem makePte_and (hmask : mask.toNat < 2 ^ 10) :
    makePte physicalAddress flags &&& mask = flags &&& mask := by
  apply BitVec.eq_of_getLsbD_eq
  intro i hi
  simp only [makePte, BitVec.getLsbD_and, BitVec.getLsbD_or, BitVec.getLsbD_shiftLeft]
  by_cases hlow : i < 10
  · simp [hlow]
  · have hbit : mask.getLsbD i = false :=
      Nat.testBit_lt_two_pow (hmask.trans_le (Nat.pow_le_pow_right (by decide) (by omega)))
    simp [hbit]

theorem hasFlag_makePte (hmask : mask.toNat < 2 ^ 10) :
    hasFlag (makePte physicalAddress flags) mask = hasFlag flags mask := by
  rw [hasFlag, makePte_and hmask, hasFlag]

theorem hasFlag_or (a b mask : Word) :
    hasFlag (a ||| b) mask = (hasFlag a mask || hasFlag b mask) := by
  simp only [hasFlag]
  grind

/-- The reserved bits of an entry are clear when the page has 56 bits and the flags stay
below the reserved bits. -/
theorem makePte_high_iff : makePte physicalAddress flags >>> 54 = 0 ↔
    physicalAddress.toNat < 2 ^ 56 ∧ flags.toNat < 2 ^ 54 := by
  have hshift :
      ((physicalAddress >>> 12) <<< 10).toNat = physicalAddress.toNat / 4096 * 1024 := by
    rw [BitVec.toNat_shiftLeft, BitVec.toNat_ushiftRight, Nat.shiftRight_eq_div_pow,
      Nat.shiftLeft_eq]
    omega
  have hpte : (makePte physicalAddress flags).toNat =
      physicalAddress.toNat / 4096 * 1024 ||| flags.toNat := by
    rw [makePte, BitVec.toNat_or, hshift]
  have hzero : makePte physicalAddress flags >>> 54 = 0 ↔
      (makePte physicalAddress flags).toNat < 2 ^ 54 := by
    rw [← BitVec.toNat_inj, BitVec.toNat_ushiftRight, Nat.shiftRight_eq_div_pow]
    exact Nat.div_eq_zero_iff_lt (by decide)
  rw [hzero, hpte]
  constructor
  · intro h
    have hleft := lt_of_le_of_lt Nat.left_le_or h
    exact ⟨by omega, lt_of_le_of_lt Nat.right_le_or h⟩
  · intro h
    exact Nat.or_lt_two_pow (by omega) h.2

/-- The page of an entry: flags above bit 9 are read as bits of the page number. -/
theorem ptePhysicalAddress_makePte (ha : physicalAddress.toNat < 2 ^ 56)
    (halign : physicalAddress.toNat % 4096 = 0) (hf : flags.toNat < 2 ^ 54) :
    ptePhysicalAddress (makePte physicalAddress flags) =
      physicalAddress ||| (flags >>> 10) <<< 12 := by
  have hlow : ∀ i < 12, physicalAddress.getLsbD i = false := by
    intro i hi
    have hmod : (physicalAddress.toNat % 2 ^ 12).testBit i = false := by
      rw [show physicalAddress.toNat % 2 ^ 12 = 0 from halign, Nat.zero_testBit]
    rwa [Nat.testBit_mod_two_pow, decide_eq_true hi, Bool.true_and] at hmod
  have hhigh : ∀ {word : Word} {n i}, word.toNat < 2 ^ n → n ≤ i → word.getLsbD i = false :=
    fun hw hi => Nat.testBit_lt_two_pow (hw.trans_le (Nat.pow_le_pow_right (by decide) hi))
  have hmask : ∀ i, kPpnMask.getLsbD i = decide (i < 44) := by
    intro i
    rw [show kPpnMask.getLsbD i = (2 ^ 44 - 1).testBit i from rfl, Nat.testBit_two_pow_sub_one]
  apply BitVec.eq_of_getLsbD_eq
  intro i hi
  simp only [ptePhysicalAddress, makePte, BitVec.getLsbD_or, BitVec.getLsbD_shiftLeft,
    BitVec.getLsbD_and, BitVec.getLsbD_ushiftRight, hmask]
  by_cases h12 : i < 12
  · simp [h12, hlow i h12]
  by_cases h56 : i < 56
  · have hindex : 12 + (i - 12) = i := by omega
    simp [h12, hi, hindex, show i - 12 < 44 by omega, show 10 + (i - 12) < 64 by omega,
      show ¬ 10 + (i - 12) < 10 by omega]
  · simp [h12, show ¬ i - 12 < 44 by omega, hhigh ha (show 56 ≤ i by omega),
      hhigh hf (show 54 ≤ 10 + (i - 12) by omega)]

theorem shiftRight_ten_eq_zero (hf : flags.toNat < 2 ^ 10) : flags >>> 10 = 0 := by
  apply BitVec.eq_of_toNat_eq
  rw [BitVec.toNat_ushiftRight, Nat.shiftRight_eq_div_pow]
  exact Nat.div_eq_of_lt hf

theorem ptePhysicalAddress_aligned (pte : Word) : (ptePhysicalAddress pte).toNat % 4096 = 0 := by
  rw [ptePhysicalAddress, BitVec.toNat_shiftLeft, Nat.shiftLeft_eq]
  omega

theorem and_eq_self (hf : flags.toNat < 2 ^ 8) : flags &&& 0xff = flags := by
  apply BitVec.eq_of_toNat_eq
  rw [BitVec.toNat_and, show (0xff : Word).toNat = 2 ^ 8 - 1 from rfl,
    Nat.and_two_pow_sub_one_eq_mod, Nat.mod_eq_of_lt hf]

end Entries

/-! ### Virtual pages -/

section Indices

variable {virtualAddress virtualAddress' : Word}

theorem vpnIndex_val (virtualAddress : Word) (level : ℕ) :
    (vpnIndex virtualAddress level).val = virtualAddress.toNat / 2 ^ (12 + 9 * level) % 512 := by
  have hand : ((virtualAddress >>> (12 + 9 * level)) &&& 0x1ff).toNat =
      virtualAddress.toNat / 2 ^ (12 + 9 * level) % 512 := by
    rw [BitVec.toNat_and, BitVec.toNat_ushiftRight, Nat.shiftRight_eq_div_pow,
      show (0x1ff : Word).toNat = 2 ^ 9 - 1 from rfl, Nat.and_two_pow_sub_one_eq_mod]
  rw [vpnIndex, Fin.val_ofNat, hand, Nat.mod_mod]

/-- The canonical addresses are the lowest and the highest 256 GiB. -/
theorem canonical_iff : Canonical virtualAddress ↔
    virtualAddress.toNat < 2 ^ 38 ∨ 2 ^ 64 - 2 ^ 38 ≤ virtualAddress.toNat := by
  have hwidth : (virtualAddress.setWidth 39).toNat = virtualAddress.toNat % 2 ^ 39 :=
    BitVec.toNat_setWidth ..
  rw [Canonical, ← BitVec.toInt_inj, BitVec.toInt_signExtend_of_le (by decide),
    BitVec.toInt_eq_toNat_cond, BitVec.toInt_eq_toNat_cond, hwidth]
  split <;> split <;> omega

/-- The table indices of an address, from the root down. -/
def vpnIndices (virtualAddress : Word) : List TableIndex :=
  [vpnIndex virtualAddress 2, vpnIndex virtualAddress 1, vpnIndex virtualAddress 0]

/-- **The three table indices determine the page of a canonical address.** -/
theorem vpnIndices_inj (hc : Canonical virtualAddress) (hc' : Canonical virtualAddress')
    (h : vpnIndices virtualAddress = vpnIndices virtualAddress') :
    virtualAddress.toNat / 4096 = virtualAddress'.toNat / 4096 := by
  simp only [vpnIndices, List.cons.injEq, and_true, Fin.ext_iff, vpnIndex_val] at h
  obtain ⟨h2, h1, h0⟩ := h
  rw [canonical_iff] at hc hc'
  have := virtualAddress.isLt
  have := virtualAddress'.isLt
  -- The bits below bit 39 agree, and they determine the half of the address space.
  have hlow : virtualAddress.toNat / 4096 % 2 ^ 27 = virtualAddress'.toNat / 4096 % 2 ^ 27 := by
    omega
  omega

end Indices

end Jixia
