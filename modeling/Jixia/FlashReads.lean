/-
Every read of the loaders stays in the flash.

The programs of `FirmwareStore` and `Stage0` with every read checked: outside of the window
of the flash there is nothing, and the program does not go on.

* `readByte_gives` — what can be read;
* `inside_of_found` — a partition that is found lies in the device;
* `readExtendedPage_eq` — which pages are read, and what they leave in memory;
* `loaders_stay_inside` — all of it, for every content of the flash.
-/
import Jixia.PageManager
import Jixia.Stage0

namespace Jixia

open ByteBuffer

namespace FlashReads

open Stage0

/-! ### Checked reads -/

section Code

variable (mem : ByteMemory)

/-- A read of a byte; only the window of the flash can be read. -/
def readByte (address : Word) : Option Byte :=
  if Pflash.base ≤ address ∧ address < Pflash.base + Pflash.size then some (mem address) else none

/-- A byte of the flash, by its offset. -/
def flashAt (offset : ℕ) : Option Byte := readByte mem (flashAddress offset)

def findPartition (name : List Byte) : Option (Option PartitionInfo) :=
  Ffs.findPartition (flashAt mem) name

def validate : Option Bool := Ffs.validate (flashAt mem)

def Boot.stage0 (a0 : Word) : Option Stage0Result := start readByte mem a0

end Code

theorem readByte_gives : Gives readByte := by
  intro mem i hi
  have hend : (Pflash.base + Pflash.size).toNat = 0x22000000 := rfl
  have hbase : Pflash.base.toNat = 0x20000000 := rfl
  refine if_pos ⟨BitVec.le_def.mpr ?_, BitVec.lt_def.mpr ?_⟩
  · rw [toNat_flashAddress (by omega), hbase]
    omega
  · rw [toNat_flashAddress (by omega), hend]
    omega

theorem flashAt_gives (mem : ByteMemory) : Ffs.Gives (flashAt mem) (flashWindow mem) :=
  readByte_gives mem

/-! ### What is found -/

section Found

variable {flash : Flash} {name : List Byte} {info : PartitionInfo}

/-- **A partition that is found lies in the device**, and the conversions have kept all
numbers of its entry. -/
structure Inside (flash : Flash) (name : List Byte) (info : PartitionInfo) : Prop where
  allocated_pos : 0 < info.allocatedSize.toNat
  inside : info.flashOffset.toNat + info.allocatedSize.toNat ≤ 0x2000000
  actual_le : info.actualSize.toNat ≤ info.allocatedSize.toNat
  address : info.flashAddress.toNat = 0x20000000 + info.flashOffset.toNat
  exact : ∃ entry, Ffs.Finds flash name entry ∧
    info.flashOffset.toNat = (be32 flash (entry + Ffs.entryBaseOffset)).toNat * 0x1000 ∧
    info.allocatedSize.toNat = (be32 flash (entry + Ffs.entrySizeOffset)).toNat * 0x1000 ∧
    info.actualSize.toNat = (be32 flash (entry + Ffs.entryActualOffset)).toNat

theorem inside_of_found (h : flash.findPartition name = some info) : Inside flash name info := by
  obtain ⟨entry, hfinds, rfl⟩ := Flash.findPartition_eq_some_iff.mp h
  have hpos := hfinds.range.size_pos
  have hin := hfinds.range.inside
  have hactual := hfinds.range.actual_le
  have hbase : Pflash.base.toNat = 0x20000000 := rfl
  have hoffset : (flash.partitionInfo entry).flashOffset.toNat =
      (be32 flash (entry + Ffs.entryBaseOffset)).toNat * 0x1000 := by
    rw [Flash.partitionInfo, BitVec.toNat_setWidth, Flash.toNat_blocks]
    omega
  have hallocated : (flash.partitionInfo entry).allocatedSize.toNat =
      (be32 flash (entry + Ffs.entrySizeOffset)).toNat * 0x1000 := Flash.toNat_blocks _
  have hsize : (flash.partitionInfo entry).actualSize.toNat =
      (be32 flash (entry + Ffs.entryActualOffset)).toNat := toNat_field _
  refine ⟨by omega, by omega, by omega, ?_, entry, hfinds, hoffset, hallocated, hsize⟩
  rw [hoffset, Flash.partitionInfo, BitVec.toNat_add, Flash.toNat_blocks, hbase]
  omega

/-- The size of the table is not cut off either. -/
theorem tableSize_exact {header : ParsedHeader} (h : flash.parseHeader = some header) :
    header.tableSize.toNat =
      (be32 flash (Pflash.tocOffset + Ffs.hdrSizeOffset)).toNat * 0x1000 := by
  obtain ⟨hgood, rfl⟩ := Flash.parseHeader_eq_some.mp h
  rw [hgood.tableBlocks]
  rfl

end Found

/-! ### `flash_provider.cpp` -/

/-- `copy_from_flash` from an index on. -/
def copyFromFlash (flashAddress destination : Word) : ℕ → ℕ → ByteMemory → Option ByteMemory
  | 0, _, mem => some mem
  | left + 1, index, mem => do
    let byte ← readByte mem (flashAddress + BitVec.ofNat 64 index)
    copyFromFlash flashAddress destination left (index + 1)
      (Function.update mem (destination + BitVec.ofNat 64 index) byte)

/-- `read_extended_page`, with the memory that it leaves. -/
def readExtendedPage (mem : ByteMemory) (pageIndex destination : Word) :
    Option (Bool × ByteMemory) :=
  if destination &&& (kPageSize - 1) ≠ 0 then some (false, mem)
  else do
    match ← findPartition mem Flash.extendedPartition with
    | none => return (false, mem)
    | some extended =>
      if extended.actualSize < kPageSize then return (false, mem)
      else
        let pageOffset := pageIndex * kPageSize
        if pageOffset / kPageSize ≠ pageIndex ∨ pageOffset ≥ extended.actualSize ∨
            extended.actualSize - pageOffset < kPageSize then return (false, mem)
        else do
          let memory ← copyFromFlash (extended.flashAddress + pageOffset) destination
            kPageSize.toNat 0 mem
          return (true, memory)

variable {mem : ByteMemory}

section Copies

variable {source destination : Word}

theorem sub_aligned (hs : source.toNat % 4096 = 0) (hd : destination.toNat % 4096 = 0) :
    (source - destination).toNat % 4096 = 0 := by
  have := source.isLt
  have := destination.isLt
  rw [BitVec.toNat_sub]
  omega

theorem add_sub_toNat {k : ℕ} (hs : (source - destination).toNat % 4096 = 0) (hk : k < 4096) :
    (source + BitVec.ofNat 64 k - destination).toNat = (source - destination).toNat + k := by
  have := source.isLt
  have := destination.isLt
  rw [BitVec.toNat_sub] at hs ⊢
  rw [BitVec.toNat_sub, BitVec.toNat_add, BitVec.toNat_ofNat]
  omega

/-- **The copy of a page**, read byte by byte from the flash. -/
theorem copyFromFlash_ok {page left index : ℕ} (hpage : page + 4096 ≤ 0x2000000)
    (hs : (flashAddress page - destination).toNat % 4096 = 0) (hleft : index + left ≤ 4096) :
    copyFromFlash (flashAddress page) destination left index
        (mem.copied (flashAddress page) destination index) =
      some (mem.copied (flashAddress page) destination (index + left)) := by
  induction left generalizing index with
  | zero => rfl
  | succ left ih =>
    -- What is still to be copied is as it was: two pages are the same or do not meet.
    have hbyte : flashWindow (mem.copied (flashAddress page) destination index) (page + index) =
        mem (flashAddress page + BitVec.ofNat 64 index) := by
      have hfar := add_sub_toNat hs (show index < 4096 by omega)
      rw [flashAddress_add] at hfar ⊢
      refine if_neg ?_
      show ¬ (flashAddress (page + index) - destination).toNat < index
      omega
    rw [copyFromFlash, flashAddress_add, readByte_gives _ _ (by omega), hbyte]
    refine (congrArg (copyFromFlash _ _ left (index + 1)) (ByteMemory.copied_succ (by omega))).trans
      ?_
    rw [ih (by omega), Nat.add_assoc, Nat.add_comm 1 left]

end Copies

/-- The checks on the page number, without wrapping around. -/
theorem page_fits {pageIndex actual : Word} (hactual : actual.toNat < 2 ^ 32) :
    ¬ (actual < kPageSize ∨ pageIndex * kPageSize / kPageSize ≠ pageIndex ∨
        pageIndex * kPageSize ≥ actual ∨ actual - pageIndex * kPageSize < kPageSize) ↔
      (pageIndex.toNat + 1) * 4096 ≤ actual.toNat := by
  have hindex := pageIndex.isLt
  simp only [not_or, not_not, ge_iff_le, BitVec.le_def, BitVec.lt_def,
    ← BitVec.toNat_inj, BitVec.toNat_udiv, BitVec.toNat_sub, BitVec.toNat_mul,
    toNat_kPageSize]
  omega

/-- **Which pages are read, and what they leave in memory.** -/
theorem readExtendedPage_eq (mem : ByteMemory) (pageIndex : Word) {destination : Word}
    (hd : destination.toNat % 4096 = 0) :
    (∃ info, (flashWindow mem).findPartition Flash.extendedPartition = some info ∧
      (pageIndex.toNat + 1) * 4096 ≤ info.actualSize.toNat ∧
      readExtendedPage mem pageIndex destination = some (true, mem.copied
        (flashAddress (info.flashOffset.toNat + 4096 * pageIndex.toNat)) destination 4096)) ∨
    (¬ ∃ info, (flashWindow mem).findPartition Flash.extendedPartition = some info ∧
      (pageIndex.toNat + 1) * 4096 ≤ info.actualSize.toNat) ∧
      readExtendedPage mem pageIndex destination = some (false, mem) := by
  have haligned : ¬ destination &&& (kPageSize - 1) ≠ 0 :=
    not_not.mpr (beq_iff_eq.mp (isPageAligned_iff.mpr hd))
  have hlookup : findPartition mem Flash.extendedPartition =
      some ((flashWindow mem).findPartition Flash.extendedPartition) :=
    Flash.findPartition_gives (flashAt_gives mem) _
  rw [readExtendedPage, if_neg haligned, hlookup, Option.bind_eq_bind, Option.bind_some]
  cases hfind : (flashWindow mem).findPartition Flash.extendedPartition with
  | none =>
    refine .inr ⟨?_, rfl⟩
    rintro ⟨info, h, -⟩
    exact Option.some_ne_none _ h.symm
  | some info =>
    have hin := inside_of_found hfind
    have hinside := hin.inside
    have hle := hin.actual_le
    have hchecks := @page_fits pageIndex info.actualSize (by omega)
    by_cases hfits : (pageIndex.toNat + 1) * 4096 ≤ info.actualSize.toNat
    · obtain ⟨hsize, hpage⟩ := not_or.mp (hchecks.mpr hfits)
      obtain ⟨entry, -, hoffset, -⟩ := hin.exact
      -- The blocks are pages, and so are the source and the destination of the copy.
      have hpages : (pageIndex * kPageSize).toNat = pageIndex.toNat * 4096 := by
        rw [BitVec.toNat_mul, toNat_kPageSize]
        omega
      have hsource : info.flashAddress + pageIndex * kPageSize =
          flashAddress (info.flashOffset.toNat + 4096 * pageIndex.toNat) := by
        apply BitVec.eq_of_toNat_eq
        rw [toNat_flashAddress (by omega), BitVec.toNat_add, hin.address, hpages]
        omega
      have haligned : (flashAddress (info.flashOffset.toNat + 4096 * pageIndex.toNat) -
          destination).toNat % 4096 = 0 := by
        refine sub_aligned ?_ hd
        rw [toNat_flashAddress (by omega)]
        omega
      have hcopy := @copyFromFlash_ok mem destination _ 4096 0
        (show info.flashOffset.toNat + 4096 * pageIndex.toNat + 4096 ≤ 0x2000000 by omega)
        haligned (le_refl _)
      rw [ByteMemory.copied_zero] at hcopy
      refine .inl ⟨info, rfl, hfits, ?_⟩
      refine (if_neg hsize).trans ((if_neg hpage).trans ?_)
      rw [hsource, toNat_kPageSize, hcopy]
      rfl
    · refine .inr ⟨?_, ?_⟩
      · rintro ⟨info', h, hfits'⟩
        cases h
        exact hfits hfits'
      · have hfail := not_not.mp fun h => hfits (hchecks.mp h)
        rcases hfail with hsize | hpage
        · exact if_pos hsize
        · by_cases hsize : info.actualSize < kPageSize
          · exact if_pos hsize
          · exact (if_neg hsize).trans (if_pos hpage)

/-- **No content of the flash makes the loaders leave it.**  For every memory: Stage0,
`find_partition` and `validate` read only the window of the flash, a partition that is found
lies in the device and no conversion has lost anything, and a page of the extended partition
is copied exactly if it lies in what the partition holds; otherwise nothing is written. -/
theorem loaders_stay_inside (mem : ByteMemory) :
    (∀ a0, Boot.stage0 mem a0 = some (Stage0.stage0 mem a0)) ∧
    (∀ name, findPartition mem name = some ((flashWindow mem).findPartition name)) ∧
    validate mem = some (flashWindow mem).validate ∧
    (∀ header, (flashWindow mem).parseHeader = some header → header.tableSize.toNat =
      (be32 (flashWindow mem) (Pflash.tocOffset + Ffs.hdrSizeOffset)).toNat * 0x1000) ∧
    (∀ name info, (flashWindow mem).findPartition name = some info →
      Inside (flashWindow mem) name info) ∧
    ∀ pageIndex destination : Word, destination.toNat % 4096 = 0 → ∃ done memory,
      readExtendedPage mem pageIndex destination = some (done, memory) ∧
      (done = true ↔ ∃ info, (flashWindow mem).findPartition Flash.extendedPartition = some info ∧
        (pageIndex.toNat + 1) * 4096 ≤ info.actualSize.toNat) ∧
      (done = false → memory = mem) ∧
      (done = true → ∀ info,
        (flashWindow mem).findPartition Flash.extendedPartition = some info →
        (∀ j < 4096, memory (destination + BitVec.ofNat 64 j) =
          flashWindow mem (info.flashOffset.toNat + 4096 * pageIndex.toNat + j)) ∧
        ∀ a, (∀ j < 4096, a ≠ destination + BitVec.ofNat 64 j) → memory a = mem a) := by
  refine ⟨start_gives readByte_gives mem, Flash.findPartition_gives (flashAt_gives mem),
    Flash.validate_gives (flashAt_gives mem), fun _ => tableSize_exact,
    fun _ _ => inside_of_found, fun pageIndex destination hd => ?_⟩
  rcases readExtendedPage_eq mem pageIndex hd with ⟨info, hfind, hfits, heq⟩ | ⟨hnone, heq⟩
  · refine ⟨true, _, heq, ⟨fun _ => ⟨info, hfind, hfits⟩, fun _ => rfl⟩,
      fun h => Bool.noConfusion h, fun _ info' hfind' => ?_⟩
    cases hfind.symm.trans hfind'
    obtain ⟨hpage, hrest⟩ := mem.copied_bytes
      (flashAddress (info.flashOffset.toNat + 4096 * pageIndex.toNat)) destination
      (show 4096 ≤ 2 ^ 64 by decide)
    refine ⟨fun j hj => (hpage j hj).trans ?_, hrest⟩
    rw [flashAddress_add]
    rfl
  · exact ⟨false, mem, heq, ⟨fun h => Bool.noConfusion h, fun h => absurd h hnone⟩,
      fun _ => rfl, fun h => Bool.noConfusion h⟩

end FlashReads

end Jixia
