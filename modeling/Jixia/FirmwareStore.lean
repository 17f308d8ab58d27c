/-
The firmware store.

`ffs.cpp` and `flash_provider.cpp`: the partition table of the flash device, in the FFS
v1 format, as the kernel reads it.  A pointer into the device is an offset.  The code is
written once, over the function that reads a byte: with `Flash.bytes` every byte can be
read, with a checked read a byte outside of the device ends the program.  A call that fills
a record and returns true gives the record.

* `Ffs.parseHeader_cases`, `Ffs.findPartition_eq`, `Ffs.validate_eq` — what the code computes
  from the bytes of the device;
* `Flash.findPartition_eq_some` — which entry a lookup finds, and when it is accepted;
* `Flash.findPartition_gives`, `Flash.validate_gives` — nothing else is read.
-/
import Mathlib.Data.List.TakeWhile
import Jixia.ByteBuffer
import Jixia.Kernel

namespace Jixia

open ByteBuffer

/-- The contents of the flash device, by offset. -/
abbrev Flash := ℕ → Byte

/-! ### Format and layout -/

namespace Ffs

def magic : BitVec 32 := 0x50415254
def version : BitVec 32 := 1
abbrev partNameMax : ℕ := 15
abbrev headerSize : ℕ := 48
abbrev entrySize : ℕ := 128

abbrev hdrMagicOffset : ℕ := 0
abbrev hdrVersionOffset : ℕ := 4
abbrev hdrSizeOffset : ℕ := 8
abbrev hdrEntrySizeOffset : ℕ := 12
abbrev hdrEntryCountOffset : ℕ := 16
abbrev hdrBlockSizeOffset : ℕ := 20
abbrev hdrBlockCountOffset : ℕ := 24

abbrev entryNameOffset : ℕ := 0
abbrev entryBaseOffset : ℕ := 16
abbrev entrySizeOffset : ℕ := 20
abbrev entryFlagsOffset : ℕ := 36
abbrev entryActualOffset : ℕ := 40
abbrev entryUserOffset : ℕ := 60

end Ffs

namespace Pflash

def base : Word := 0x20000000
def size : Word := 0x02000000
abbrev tocOffset : ℕ := 0x1000
def tocSize : Word := 0x8000
def dataOffset : Word := 0x10000
def blockSize : BitVec 32 := 0x1000
def blockCount : BitVec 32 := 0x2000
def maxFfsEntries : BitVec 32 := 255

end Pflash

/-! ### The readers -/

structure ParsedHeader where
  tableSize : BitVec 32
  entryCount : BitVec 32
  blockSize : BitVec 32
  blockCount : BitVec 32
  deriving DecidableEq

structure PartitionInfo where
  flashOffset : BitVec 32
  flashAddress : Word
  allocatedSize : Word
  actualSize : Word
  flags : BitVec 32
  dataIntegrity : BitVec 16
  versionCheck : Byte
  miscFlags : Byte
  deriving DecidableEq

structure ImageInfo where
  baseFlashAddress : Word
  baseSize : Word
  extendedFlashAddress : Word
  extendedSize : Word
  deriving DecidableEq

/-- `"JXBASE"`. -/
def Flash.basePartition : List Byte := [0x4a, 0x58, 0x42, 0x41, 0x53, 0x45]

/-- `"JXEXT"`. -/
def Flash.extendedPartition : List Byte := [0x4a, 0x58, 0x45, 0x58, 0x54]

namespace Ffs

section Readers

variable {m : Type → Type} [Monad m] (read : ℕ → m Byte)

def loadBe32 (address : ℕ) : m (BitVec 32) := do
  let a ← read address
  let b ← read (address + 1)
  let c ← read (address + 2)
  let d ← read (address + 3)
  return (a.setWidth 32 <<< 24) ||| (b.setWidth 32 <<< 16) ||| (c.setWidth 32 <<< 8) |||
    d.setWidth 32

def loadBe16 (address : ℕ) : m (BitVec 16) := do
  let a ← read address
  let b ← read (address + 1)
  return (a.setWidth 16 <<< 8) ||| b.setWidth 16

/-- The loop of `checksum_is_zero`, over the words that are left. -/
def checksumLoop : ℕ → ℕ → BitVec 32 → m (BitVec 32)
  | 0, _, checksum => pure checksum
  | words + 1, address, checksum => do
    let word ← loadBe32 read address
    checksumLoop words (address + 4) (checksum ^^^ word)

def checksumIsZero (address size : ℕ) : m Bool :=
  if size % 4 ≠ 0 then pure false
  else do
    let checksum ← checksumLoop read (size / 4) address 0
    return checksum == 0

/-- The loop of `name_matches`, over the characters that are left; `expected` is a C
string without its terminator. -/
def nameLoop (entry : ℕ) (expected : List Byte) : ℕ → ℕ → m Bool
  | 0, _ => pure false
  | left + 1, index => do
    let actual ← read (entry + entryNameOffset + index)
    let wanted := expected.getD index 0
    if actual ≠ wanted then return false
    else if wanted = 0 then return true
    else nameLoop entry expected left (index + 1)

def nameMatches (entry : ℕ) (expected : List Byte) : m Bool :=
  nameLoop read entry expected (partNameMax + 1) 0

/-- The part of `parse_header` after the format has been checked. -/
def parseGeometry (header : ℕ) : m (Option ParsedHeader) := do
  let tableBlocks ← loadBe32 read (header + hdrSizeOffset)
  let entryCount ← loadBe32 read (header + hdrEntryCountOffset)
  let blockSize ← loadBe32 read (header + hdrBlockSizeOffset)
  let blockCount ← loadBe32 read (header + hdrBlockCountOffset)
  if entryCount = 0 ∨ entryCount > Pflash.maxFfsEntries ∨ blockSize ≠ Pflash.blockSize ∨
      blockCount ≠ Pflash.blockCount then return none
  else
    let tableSize : Word := tableBlocks.setWidth 64 * blockSize.setWidth 64
    let deviceSize : Word := blockCount.setWidth 64 * blockSize.setWidth 64
    let entriesEnd : Word :=
      BitVec.ofNat 64 headerSize + entryCount.setWidth 64 * BitVec.ofNat 64 entrySize
    if tableSize ≠ Pflash.tocSize ∨ deviceSize ≠ Pflash.size ∨ entriesEnd > tableSize then
      return none
    else return some ⟨tableSize.setWidth 32, entryCount, blockSize, blockCount⟩

def parseHeader : m (Option ParsedHeader) := do
  let header := Pflash.tocOffset
  let checked ← checksumIsZero read header headerSize
  if checked = false then return none
  else do
    let magic' ← loadBe32 read (header + hdrMagicOffset)
    if magic' ≠ magic then return none
    else do
      let version' ← loadBe32 read (header + hdrVersionOffset)
      if version' ≠ version then return none
      else do
        let size ← loadBe32 read (header + hdrEntrySizeOffset)
        if size ≠ BitVec.ofNat 32 entrySize then return none
        else parseGeometry read header

/-- The part of `parse_partition` that fills the record. -/
def fillPartition (entry : ℕ) (flashOffset allocatedSize : Word) (actualSize : BitVec 32) :
    m PartitionInfo := do
  let flags ← loadBe32 read (entry + entryFlagsOffset)
  let dataIntegrity ← loadBe16 read (entry + entryUserOffset + 2)
  let versionCheck ← read (entry + entryUserOffset + 4)
  let miscFlags ← read (entry + entryUserOffset + 5)
  return {
    flashOffset := flashOffset.setWidth 32
    flashAddress := Pflash.base + flashOffset
    allocatedSize := allocatedSize
    actualSize := actualSize.setWidth 64
    flags := flags
    dataIntegrity := dataIntegrity
    versionCheck := versionCheck
    miscFlags := miscFlags }

def parsePartition (entry : ℕ) (header : ParsedHeader) : m (Option PartitionInfo) := do
  let checked ← checksumIsZero read entry entrySize
  if checked = false then return none
  else do
    let baseBlocks ← loadBe32 read (entry + entryBaseOffset)
    let sizeBlocks ← loadBe32 read (entry + entrySizeOffset)
    let actualSize ← loadBe32 read (entry + entryActualOffset)
    let flashOffset : Word := baseBlocks.setWidth 64 * header.blockSize.setWidth 64
    let allocatedSize : Word := sizeBlocks.setWidth 64 * header.blockSize.setWidth 64
    let flashEnd := flashOffset + allocatedSize
    let deviceSize : Word := header.blockCount.setWidth 64 * header.blockSize.setWidth 64
    if sizeBlocks = 0 ∨ flashEnd ≤ flashOffset ∨ flashEnd > deviceSize ∨
        actualSize.setWidth 64 > allocatedSize then return none
    else do
      let info ← fillPartition read entry flashOffset allocatedSize actualSize
      return some info

/-- The loop of `validate`, over the entries that are left. -/
def validateLoop : ℕ → ℕ → m Bool
  | 0, _ => pure true
  | left + 1, entry => do
    let checked ← checksumIsZero read entry entrySize
    if checked = false then return false
    else validateLoop left (entry + entrySize)

def validate : m Bool := do
  match ← parseHeader read with
  | none => return false
  | some header => validateLoop read header.entryCount.toNat (Pflash.tocOffset + headerSize)

/-- The loop of `find_partition`, over the entries that are left. -/
def findLoop (name : List Byte) (header : ParsedHeader) : ℕ → ℕ → m (Option PartitionInfo)
  | 0, _ => pure none
  | left + 1, entry => do
    let checked ← checksumIsZero read entry entrySize
    if checked = false then return none
    else do
      let named ← nameMatches read entry name
      if named then parsePartition read entry header
      else findLoop name header left (entry + entrySize)

def findPartition (name : List Byte) : m (Option PartitionInfo) := do
  match ← parseHeader read with
  | none => return none
  | some header =>
    findLoop read name header header.entryCount.toNat (Pflash.tocOffset + headerSize)

/-- `image_info` of the flash provider. -/
def imageInfo : m (Option ImageInfo) := do
  match ← findPartition read Flash.basePartition with
  | none => return none
  | some base =>
    if base.actualSize = 0 then return none
    else
      match ← findPartition read Flash.extendedPartition with
      | none => return some ⟨base.flashAddress, base.actualSize, 0, 0⟩
      | some extended =>
        return some
          ⟨base.flashAddress, base.actualSize, extended.flashAddress, extended.actualSize⟩

end Readers

end Ffs

/-! ### Tables -/

namespace Flash

variable {flash : Flash} {entry : ℕ}

/-- The name stands at the entry, with its terminator. -/
def Named (flash : Flash) (entry : ℕ) (name : List Byte) : Prop :=
  name.length ≤ Ffs.partNameMax ∧ ∀ i ≤ name.length, flash (entry + i) = name.getD i 0

instance (name : List Byte) : Decidable (flash.Named entry name) :=
  inferInstanceAs (Decidable (_ ∧ ∀ i ≤ name.length, flash (entry + i) = name.getD i 0))

/-- A header that describes a table of this platform. -/
structure GoodHeader (flash : Flash) : Prop where
  checksum : xorFrom flash Pflash.tocOffset 12 = 0
  magic : be32 flash (Pflash.tocOffset + Ffs.hdrMagicOffset) = Ffs.magic
  version : be32 flash (Pflash.tocOffset + Ffs.hdrVersionOffset) = Ffs.version
  entrySize : be32 flash (Pflash.tocOffset + Ffs.hdrEntrySizeOffset) = 128
  count_pos : 0 < (be32 flash (Pflash.tocOffset + Ffs.hdrEntryCountOffset)).toNat
  count_le : (be32 flash (Pflash.tocOffset + Ffs.hdrEntryCountOffset)).toNat ≤ 255
  blockSize : be32 flash (Pflash.tocOffset + Ffs.hdrBlockSizeOffset) = Pflash.blockSize
  blockCount : be32 flash (Pflash.tocOffset + Ffs.hdrBlockCountOffset) = Pflash.blockCount
  tableBlocks : be32 flash (Pflash.tocOffset + Ffs.hdrSizeOffset) = 8

/-- The number of entries that the header declares. -/
def entryCount (flash : Flash) : ℕ :=
  (be32 flash (Pflash.tocOffset + Ffs.hdrEntryCountOffset)).toNat

/-- The checksum of an entry is right. -/
def GoodEntry (flash : Flash) (entry : ℕ) : Prop := xorFrom flash entry 32 = 0

instance : Decidable (flash.GoodEntry entry) :=
  inferInstanceAs (Decidable (xorFrom flash entry 32 = 0))

/-- The scan of a table: the entry is the first one that is `named`, and the checksums
up to it are right. -/
def FirstEntry (flash : Flash) (named : ℕ → Prop) (count start entry : ℕ) : Prop :=
  ∃ k < count, entry = start + Ffs.entrySize * k ∧
    (∀ j ≤ k, flash.GoodEntry (start + Ffs.entrySize * j)) ∧
    (∀ j < k, ¬ named (start + Ffs.entrySize * j)) ∧ named entry

theorem not_firstEntry_zero {named : ℕ → Prop} {start : ℕ} :
    ¬ flash.FirstEntry named 0 start entry := by
  rintro ⟨k, hk, _⟩
  omega

/-- One step of the scan. -/
theorem firstEntry_succ {named : ℕ → Prop} {count start : ℕ} :
    flash.FirstEntry named (count + 1) start entry ↔ flash.GoodEntry start ∧
      (named start ∧ entry = start ∨
        ¬ named start ∧ flash.FirstEntry named count (start + Ffs.entrySize) entry) := by
  have hshift : ∀ j, start + Ffs.entrySize + Ffs.entrySize * j = start + Ffs.entrySize * (j + 1) :=
    fun j => by rw [Nat.mul_add_one, Nat.add_assoc, Nat.add_comm Ffs.entrySize]
  constructor
  · rintro ⟨k, hk, rfl, hgood, hother, hnamed⟩
    refine ⟨hgood 0 (Nat.zero_le k), ?_⟩
    cases k with
    | zero => exact .inl ⟨hnamed, rfl⟩
    | succ k =>
      refine .inr ⟨hother 0 (by omega), k, by omega, (hshift k).symm, fun j hj => ?_,
        fun j hj => ?_, hnamed⟩
      · rw [hshift]
        exact hgood (j + 1) (by omega)
      · rw [hshift]
        exact hother (j + 1) (by omega)
  · rintro ⟨hgood, ⟨hnamed, rfl⟩ | ⟨hnot, k, hk, rfl, hgoods, hother, hnamed⟩⟩
    · exact ⟨0, by omega, rfl, fun j hj => by rwa [Nat.le_zero.mp hj], fun j hj => by omega, hnamed⟩
    · refine ⟨k + 1, by omega, hshift k, fun j hj => ?_, fun j hj => ?_, hnamed⟩
      · cases j with
        | zero => exact hgood
        | succ j =>
          rw [← hshift]
          exact hgoods j (by omega)
      · cases j with
        | zero => exact hnot
        | succ j =>
          rw [← hshift]
          exact hother j (by omega)

/-- The scan itself. -/
def scan (flash : Flash) (named : ℕ → Prop) [DecidablePred named] : ℕ → ℕ → Option ℕ
  | 0, _ => none
  | count + 1, start =>
    if ¬ flash.GoodEntry start then none
    else if named start then some start
    else scan flash named count (start + Ffs.entrySize)

theorem scan_eq_some {named : ℕ → Prop} [DecidablePred named] {count start : ℕ} :
    flash.scan named count start = some entry ↔ flash.FirstEntry named count start entry := by
  induction count generalizing start with
  | zero => exact iff_of_false (fun h => Option.some_ne_none _ h.symm) not_firstEntry_zero
  | succ count ih =>
    rw [scan, firstEntry_succ, ← ih]
    by_cases hgood : flash.GoodEntry start
    · by_cases hnamed : named start <;> simp [hgood, hnamed, eq_comm]
    · simp [hgood]

/-- A scan has one result. -/
theorem FirstEntry.eq {named : ℕ → Prop} {count start entry' : ℕ}
    (h : flash.FirstEntry named count start entry)
    (h' : flash.FirstEntry named count start entry') : entry = entry' := by
  classical exact Option.some.inj ((scan_eq_some.mpr h).symm.trans (scan_eq_some.mpr h'))

/-! ### What the readers compute -/

/-- The header, when it is accepted. -/
def platformHeader (flash : Flash) : ParsedHeader :=
  ⟨0x8000, be32 flash (Pflash.tocOffset + Ffs.hdrEntryCountOffset), Pflash.blockSize,
    Pflash.blockCount⟩

theorem tableSize_eq_iff {tableBlocks : BitVec 32} :
    tableBlocks.setWidth 64 * Pflash.blockSize.setWidth 64 = Pflash.tocSize ↔ tableBlocks = 8 := by
  have hlt := tableBlocks.isLt
  have hblock : (Pflash.blockSize.setWidth 64).toNat = 4096 := rfl
  have htoc : Pflash.tocSize.toNat = 32768 := rfl
  have height : (8 : BitVec 32).toNat = 8 := rfl
  rw [← BitVec.toNat_inj, ← BitVec.toNat_inj, BitVec.toNat_mul, BitVec.toNat_setWidth, hblock, htoc,
    height]
  omega

theorem entriesEnd_le {entryCount : BitVec 32} (hcount : entryCount.toNat ≤ 255) :
    ¬ BitVec.ofNat 64 Ffs.headerSize + entryCount.setWidth 64 * BitVec.ofNat 64 Ffs.entrySize >
      Pflash.tocSize := by
  have hsize : (BitVec.ofNat 64 Ffs.entrySize).toNat = 128 := rfl
  have hheader : (BitVec.ofNat 64 Ffs.headerSize).toNat = 48 := rfl
  have htoc : Pflash.tocSize.toNat = 32768 := rfl
  rw [gt_iff_lt, BitVec.lt_def, BitVec.toNat_add, BitVec.toNat_mul, BitVec.toNat_setWidth, hsize,
    hheader, htoc]
  omega

/-- The blocks of an entry lie in the device, and the data lies in the blocks. -/
structure GoodRange (flash : Flash) (entry : ℕ) : Prop where
  size_pos : 0 < (be32 flash (entry + Ffs.entrySizeOffset)).toNat
  inside : (be32 flash (entry + Ffs.entryBaseOffset)).toNat +
    (be32 flash (entry + Ffs.entrySizeOffset)).toNat ≤ 0x2000
  actual_le : (be32 flash (entry + Ffs.entryActualOffset)).toNat ≤
    (be32 flash (entry + Ffs.entrySizeOffset)).toNat * 0x1000

/-- The record that an entry describes. -/
def partitionInfo (flash : Flash) (entry : ℕ) : PartitionInfo :=
  let flashOffset : Word :=
    (be32 flash (entry + Ffs.entryBaseOffset)).setWidth 64 * Pflash.blockSize.setWidth 64
  { flashOffset := flashOffset.setWidth 32
    flashAddress := Pflash.base + flashOffset
    allocatedSize :=
      (be32 flash (entry + Ffs.entrySizeOffset)).setWidth 64 * Pflash.blockSize.setWidth 64
    actualSize := (be32 flash (entry + Ffs.entryActualOffset)).setWidth 64
    flags := be32 flash (entry + Ffs.entryFlagsOffset)
    dataIntegrity := be16 flash (entry + Ffs.entryUserOffset + 2)
    versionCheck := flash (entry + Ffs.entryUserOffset + 4)
    miscFlags := flash (entry + Ffs.entryUserOffset + 5) }

open Classical in
/-- What a lookup gives for the entry that it has found. -/
noncomputable def partitionAt (flash : Flash) (entry : ℕ) : Option PartitionInfo :=
  if flash.GoodRange entry then some (flash.partitionInfo entry) else none

/-- A number of blocks, in bytes. -/
theorem toNat_blocks (blocks : BitVec 32) :
    (blocks.setWidth 64 * Pflash.blockSize.setWidth 64).toNat = blocks.toNat * 0x1000 := by
  have hlt := blocks.isLt
  have hblock : (Pflash.blockSize.setWidth 64).toNat = 0x1000 := rfl
  rw [BitVec.toNat_mul, BitVec.toNat_setWidth, hblock]
  omega

theorem goodRange_iff : flash.GoodRange entry ↔
    ¬ (be32 flash (entry + Ffs.entrySizeOffset) = 0 ∨
      (be32 flash (entry + Ffs.entryBaseOffset)).setWidth 64 * Pflash.blockSize.setWidth 64 +
        (be32 flash (entry + Ffs.entrySizeOffset)).setWidth 64 * Pflash.blockSize.setWidth 64 ≤
          (be32 flash (entry + Ffs.entryBaseOffset)).setWidth 64 * Pflash.blockSize.setWidth 64 ∨
      (be32 flash (entry + Ffs.entryBaseOffset)).setWidth 64 * Pflash.blockSize.setWidth 64 +
        (be32 flash (entry + Ffs.entrySizeOffset)).setWidth 64 * Pflash.blockSize.setWidth 64 >
          Pflash.blockCount.setWidth 64 * Pflash.blockSize.setWidth 64 ∨
      (be32 flash (entry + Ffs.entryActualOffset)).setWidth 64 >
        (be32 flash (entry + Ffs.entrySizeOffset)).setWidth 64 * Pflash.blockSize.setWidth 64) := by
  generalize hbase : be32 flash (entry + Ffs.entryBaseOffset) = base
  generalize hsize : be32 flash (entry + Ffs.entrySizeOffset) = size
  generalize hactual : be32 flash (entry + Ffs.entryActualOffset) = actual
  have hbaseLt := base.isLt
  have hsizeLt := size.isLt
  have hactualLt := actual.isLt
  have hzero : size = 0 ↔ size.toNat = 0 := BitVec.toNat_inj.symm
  have hcount : Pflash.blockCount.toNat = 0x2000 := rfl
  simp only [hzero, gt_iff_lt, BitVec.le_def, BitVec.lt_def, BitVec.toNat_add, toNat_blocks,
    BitVec.toNat_setWidth, hcount]
  constructor
  · rintro ⟨hpos, hin, hle⟩
    rw [hsize] at hpos
    rw [hbase, hsize] at hin
    rw [hactual, hsize] at hle
    omega
  · intro h
    refine ⟨?_, ?_, ?_⟩
    · rw [hsize]
      omega
    · rw [hbase, hsize]
      omega
    · rw [hactual, hsize]
      omega

end Flash

namespace Ffs

open Flash

variable {m : Type → Type} [Monad m] [LawfulMonad m] {read : ℕ → m Byte} {flash : Flash}
  {entry : ℕ}

/-- All bytes of the device can be read. -/
def Gives (read : ℕ → m Byte) (flash : Flash) : Prop := ∀ i < 0x2000000, read i = pure (flash i)

theorem loadBe32_eq (h : Gives read flash) {i : ℕ} (hi : i + 4 ≤ 0x2000000) :
    loadBe32 read i = pure (be32 flash i) := by
  rw [loadBe32, h i (by omega), pure_bind, h _ (by omega), pure_bind, h _ (by omega), pure_bind,
    h _ (by omega), pure_bind, shifted_bytes (le_refl 32), BitVec.setWidth_eq, be32]

theorem loadBe16_eq (h : Gives read flash) {i : ℕ} (hi : i + 2 ≤ 0x2000000) :
    loadBe16 read i = pure (be16 flash i) := by
  have hbyte : ∀ b : Byte, (b.setWidth 16).toNat = b.toNat := by
    intro b
    have := b.isLt
    rw [BitVec.toNat_setWidth]
    omega
  have hlt := (flash i).isLt
  have hlt' := (flash (i + 1)).isLt
  rw [loadBe16, h i (by omega), pure_bind, h _ (by omega), pure_bind]
  congr 1
  apply BitVec.eq_of_toNat_eq
  rw [toNat_shiftLeft_or (by rw [hbyte]; omega) (by rw [hbyte]; omega), hbyte, hbyte, be16,
    toNat_word16]

theorem checksumLoop_eq (h : Gives read flash) {words i : ℕ} (hi : i + 4 * words ≤ 0x2000000)
    (checksum : BitVec 32) :
    checksumLoop read words i checksum = pure (checksum ^^^ xorFrom flash i words) := by
  induction words generalizing i checksum with
  | zero => exact congrArg pure BitVec.xor_zero.symm
  | succ words ih =>
    rw [checksumLoop, loadBe32_eq h (by omega), pure_bind, ih (by omega), xorFrom,
      BitVec.xor_assoc]

theorem checksumIsZero_eq (h : Gives read flash) {i size : ℕ} (hi : i + size ≤ 0x2000000)
    (hsize : size % 4 = 0) :
    checksumIsZero read i size = pure (decide (xorFrom flash i (size / 4) = 0)) := by
  have hzero : (0 : BitVec 32) ^^^ xorFrom flash i (size / 4) = xorFrom flash i (size / 4) :=
    BitVec.zero_xor
  rw [checksumIsZero, if_neg (not_not.mpr hsize), checksumLoop_eq h (by omega), pure_bind, hzero]
  exact congrArg pure (Bool.beq_eq_decide_eq _ _)

/-- The characters of a name up to the first zero. -/
def cString (name : List Byte) : List Byte := name.takeWhile (· ≠ 0)

theorem zero_notMem_cString (name : List Byte) : 0 ∉ cString name := by
  intro h
  have hne := List.mem_takeWhile_imp h
  exact of_decide_eq_true hne rfl

theorem cString_eq_self {name : List Byte} (hname : 0 ∉ name) : cString name = name :=
  List.takeWhile_eq_self_iff.mpr fun _ hb => decide_eq_true fun hzero => hname (hzero ▸ hb)

theorem nameLoop_eq (h : Gives read flash) {name : List Byte} {left index : ℕ}
    (hi : entry + index + left ≤ 0x2000000) (hindex : index ≤ (cString name).length) :
    nameLoop read entry name left index = pure (decide ((cString name).length < index + left ∧
      ∀ i ≤ (cString name).length, index ≤ i → flash (entry + i) = (cString name).getD i 0)) := by
  have hwanted : ∀ i ≤ (cString name).length, name.getD i 0 = (cString name).getD i 0 :=
    (takeWhile_eq_iff (zero_notMem_cString name)).mp rfl
  have hzero : ∀ i ≤ (cString name).length,
      ((cString name).getD i 0 = 0 ↔ i = (cString name).length) := by
    intro i hi
    rw [List.getD_eq_getElem?_getD]
    rcases Nat.lt_or_eq_of_le hi with hlt | heq
    · rw [List.getElem?_eq_getElem hlt, Option.getD_some]
      refine ⟨fun hz => absurd (hz ▸ List.getElem_mem hlt) (zero_notMem_cString name), ?_⟩
      omega
    · rw [heq]
      simp
  induction left generalizing index with
  | zero =>
    refine congrArg pure (decide_eq_false ?_).symm
    omega
  | succ left ih =>
    rw [nameLoop, h _ (show entry + 0 + index < 0x2000000 by omega), pure_bind, Nat.add_zero]
    simp only [hwanted index hindex]
    by_cases hchar : flash (entry + index) = (cString name).getD index 0
    · rw [if_neg (not_not.mpr hchar)]
      by_cases hend : index = (cString name).length
      · rw [if_pos ((hzero index hindex).mpr hend)]
        refine congrArg pure (decide_eq_true ⟨by omega, fun i hi hle => ?_⟩).symm
        obtain rfl : i = index := by omega
        exact hchar
      · have hlt : index + 1 ≤ (cString name).length := by omega
        rw [if_neg ((hzero index hindex).not.mpr hend), ih (by omega) hlt]
        refine congrArg pure (decide_eq_decide.mpr (and_congr (by omega) ?_))
        refine ⟨fun hall i hi hle => ?_, fun hall i hi hle => hall i hi (by omega)⟩
        rcases Nat.eq_or_lt_of_le hle with rfl | hlt
        · exact hchar
        · exact hall i hi hlt
    · rw [if_pos hchar]
      exact congrArg pure (decide_eq_false fun hall => hchar (hall.2 index hindex le_rfl)).symm

theorem nameMatches_eq (h : Gives read flash) {name : List Byte} (he : entry + 128 ≤ 0x2000000) :
    nameMatches read entry name = pure (decide (flash.Named entry (cString name))) := by
  rw [nameMatches, nameLoop_eq h (show entry + 0 + 16 ≤ 0x2000000 by omega) (Nat.zero_le _),
    Nat.zero_add]
  refine congrArg pure (decide_eq_decide.mpr (and_congr Nat.lt_succ_iff ?_))
  exact ⟨fun hall i hi => hall i hi (Nat.zero_le i), fun hall i hi _ => hall i hi⟩

/-- `parse_header` accepts the good headers. -/
theorem parseHeader_cases (h : Gives read flash) :
    flash.GoodHeader ∧ parseHeader read = pure (some flash.platformHeader) ∨
      ¬ flash.GoodHeader ∧ parseHeader read = pure none := by
  have hmax : Pflash.maxFfsEntries.toNat = 255 := rfl
  have hzero : (0 : BitVec 32).toNat = 0 := rfl
  have hfield {offset : ℕ} (ho : offset ≤ 24) : loadBe32 read (Pflash.tocOffset + offset) =
      pure (be32 flash (Pflash.tocOffset + offset)) :=
    loadBe32_eq h (show 0x1000 + offset + 4 ≤ 0x2000000 by omega)
  have hcheck : checksumIsZero read Pflash.tocOffset headerSize =
      pure (decide (xorFrom flash Pflash.tocOffset 12 = 0)) :=
    checksumIsZero_eq h (by decide) (by decide)
  simp (disch := decide) only [parseHeader, parseGeometry, hcheck, hfield, pure_bind,
    decide_eq_false_iff_not, ne_eq, show BitVec.ofNat 32 entrySize = 128 from rfl]
  by_cases hgood : flash.GoodHeader
  · refine .inl ⟨hgood, ?_⟩
    have hpos := hgood.count_pos
    have hle := hgood.count_le
    rw [if_neg (not_not.mpr hgood.checksum), if_neg (not_not.mpr hgood.magic),
      if_neg (not_not.mpr hgood.version), if_neg (not_not.mpr hgood.entrySize), if_neg, if_neg,
      hgood.blockSize, hgood.tableBlocks, hgood.blockCount]
    · rfl
    · rw [hgood.blockSize, hgood.tableBlocks, hgood.blockCount]
      rintro (h | h | h)
      · exact h (by decide)
      · exact h (by decide)
      · exact entriesEnd_le hle h
    · rintro (h | h | h | h)
      · rw [h, hzero] at hpos
        omega
      · rw [gt_iff_lt, BitVec.lt_def, hmax] at h
        omega
      · exact h hgood.blockSize
      · exact h hgood.blockCount
  · refine .inr ⟨hgood, ?_⟩
    refine ite_eq_left_iff.mpr fun hsum => ite_eq_left_iff.mpr fun hmagic =>
      ite_eq_left_iff.mpr fun hversion => ite_eq_left_iff.mpr fun hentry =>
      ite_eq_left_iff.mpr fun hgeometry => ite_eq_left_iff.mpr fun hsize => ?_
    -- Every check has passed, so the header is good.
    simp only [not_or, not_not] at hsum hmagic hversion hentry hgeometry hsize
    obtain ⟨hpos, hle, hblock, hcount⟩ := hgeometry
    rw [hblock, tableSize_eq_iff] at hsize
    rw [gt_iff_lt, BitVec.not_lt, BitVec.le_def, hmax] at hle
    refine absurd ⟨hsum, hmagic, hversion, hentry, ?_, hle, hblock, hcount, hsize.1⟩ hgood
    exact Nat.pos_of_ne_zero fun h => hpos (BitVec.eq_of_toNat_eq (h.trans hzero.symm))

theorem checksumIsZero_entry (h : Gives read flash) (he : entry + 128 ≤ 0x2000000) :
    checksumIsZero read entry entrySize = pure (decide (flash.GoodEntry entry)) :=
  checksumIsZero_eq h he (by decide)

/-- `parse_partition` accepts the good ranges. -/
theorem parsePartition_eq (h : Gives read flash) (he : entry + 128 ≤ 0x2000000)
    (hgood : flash.GoodEntry entry) :
    parsePartition read entry flash.platformHeader = pure (flash.partitionAt entry) := by
  have hfield {offset : ℕ} (ho : offset ≤ 40) : loadBe32 read (entry + offset) =
      pure (be32 flash (entry + offset)) := loadBe32_eq h (by omega)
  have hintegrity : loadBe16 read (entry + entryUserOffset + 2) =
      pure (be16 flash (entry + entryUserOffset + 2)) :=
    loadBe16_eq h (show entry + 60 + 2 + 2 ≤ 0x2000000 by omega)
  have hbyte {offset : ℕ} (ho : offset < 8) : read (entry + entryUserOffset + offset) =
      pure (flash (entry + entryUserOffset + offset)) :=
    h _ (show entry + 60 + offset < 0x2000000 by omega)
  simp (disch := decide) only [parsePartition, fillPartition, checksumIsZero_entry h he,
    decide_eq_true hgood, hfield, hintegrity, hbyte, pure_bind, Bool.true_eq_false, if_false]
  rw [partitionAt]
  by_cases hrange : flash.GoodRange entry
  · rw [if_pos hrange]
    exact if_neg (goodRange_iff.mp hrange)
  · rw [if_neg hrange]
    exact if_pos (not_not.mp fun h => hrange (goodRange_iff.mpr h))

/-- **The loop of a lookup** reads the first entry with the name. -/
theorem findLoop_eq (h : Gives read flash) (name : List Byte) {left start : ℕ}
    (he : start + 128 * left ≤ 0x2000000) :
    findLoop read name flash.platformHeader left start =
      pure ((flash.scan (flash.Named · (cString name)) left start).bind flash.partitionAt) := by
  induction left generalizing start with
  | zero => rfl
  | succ left ih =>
    have he' : start + 128 ≤ 0x2000000 := by omega
    simp only [findLoop, scan, checksumIsZero_entry h he', nameMatches_eq h he', pure_bind,
      decide_eq_false_iff_not, decide_eq_true_eq]
    by_cases hgood : flash.GoodEntry start
    · rw [if_neg (not_not.mpr hgood), if_neg (not_not.mpr hgood)]
      by_cases hnamed : flash.Named start (cString name)
      · rw [if_pos hnamed, if_pos hnamed, parsePartition_eq h he' hgood]
        rfl
      · rw [if_neg hnamed, if_neg hnamed]
        exact ih (show start + 128 + 128 * left ≤ 0x2000000 by omega)
    · rw [if_pos hgood, if_pos hgood]
      rfl

/-- The entry that a lookup finds. -/
structure Finds (flash : Flash) (name : List Byte) (entry : ℕ) : Prop where
  header : flash.GoodHeader
  first : flash.FirstEntry (flash.Named · (cString name)) flash.entryCount
    (Pflash.tocOffset + headerSize) entry
  range : flash.GoodRange entry

/-- The table ends inside of the flash. -/
theorem entries_inside (h : flash.GoodHeader) :
    Pflash.tocOffset + headerSize + 128 * flash.entryCount ≤ 0x2000000 := by
  have hle := h.count_le
  show 4144 + 128 * (be32 flash _).toNat ≤ 0x2000000
  omega

open Classical in
/-- What a lookup finds. -/
noncomputable def lookup (flash : Flash) (name : List Byte) : Option PartitionInfo :=
  if flash.GoodHeader then (flash.scan (flash.Named · (cString name)) flash.entryCount
    (Pflash.tocOffset + headerSize)).bind flash.partitionAt
  else none

/-- **A lookup reads only the device.** -/
theorem findPartition_eq (h : Gives read flash) (name : List Byte) :
    findPartition read name = pure (lookup flash name) := by
  rcases parseHeader_cases h with ⟨hgood, heq⟩ | ⟨hgood, heq⟩
  · rw [findPartition, heq, pure_bind, lookup, if_pos hgood]
    exact findLoop_eq h name (entries_inside hgood)
  · rw [findPartition, heq, pure_bind, lookup, if_neg hgood]

theorem validateLoop_eq (h : Gives read flash) {left start : ℕ}
    (he : start + 128 * left ≤ 0x2000000) : validateLoop read left start =
      pure (decide (∀ j < left, flash.GoodEntry (start + entrySize * j))) := by
  induction left generalizing start with
  | zero => exact congrArg pure (decide_eq_true fun j hj => absurd hj (Nat.not_lt_zero j)).symm
  | succ left ih =>
    rw [validateLoop, checksumIsZero_entry h (by omega), pure_bind]
    by_cases hgood : flash.GoodEntry start
    · rw [if_neg (by simp [hgood]), ih (show start + 128 + 128 * left ≤ 0x2000000 by omega)]
      refine congrArg pure (decide_eq_decide.mpr ⟨fun hall j hj => ?_, fun hall j hj => ?_⟩)
      · cases j with
        | zero => exact hgood
        | succ j =>
          rw [Nat.mul_add_one, Nat.add_comm _ entrySize, ← Nat.add_assoc]
          exact hall j (by omega)
      · rw [Nat.add_assoc, Nat.add_comm entrySize, ← Nat.mul_add_one]
        exact hall (j + 1) (by omega)
    · rw [if_pos (decide_eq_false hgood)]
      exact congrArg pure (decide_eq_false fun hall => hgood (hall 0 (by omega))).symm

open Classical in
/-- `validate` checks the header and every entry. -/
theorem validate_eq (h : Gives read flash) : validate read = pure (decide (flash.GoodHeader ∧
    ∀ j < flash.entryCount, flash.GoodEntry (Pflash.tocOffset + headerSize + entrySize * j))) := by
  rcases parseHeader_cases h with ⟨hgood, heq⟩ | ⟨hgood, heq⟩
  · rw [validate, heq, pure_bind]
    refine (validateLoop_eq h (entries_inside hgood)).trans
      (congrArg pure (decide_eq_decide.mpr ?_))
    exact (and_iff_right hgood).symm
  · rw [validate, heq, pure_bind, decide_eq_false fun h => hgood h.1]

end Ffs

/-! ### A device -/

namespace Flash

variable (flash : Flash)

/-- A device that can be read everywhere. -/
def bytes (i : ℕ) : Id Byte := pure (flash i)

theorem bytes_gives : Ffs.Gives flash.bytes flash := fun _ _ => rfl

def parseHeader : Option ParsedHeader := Id.run (Ffs.parseHeader flash.bytes)

def validate : Bool := Id.run (Ffs.validate flash.bytes)

def findPartition (name : List Byte) : Option PartitionInfo :=
  Id.run (Ffs.findPartition flash.bytes name)

def imageInfo : Option ImageInfo := Id.run (Ffs.imageInfo flash.bytes)

variable {flash : Flash} {name : List Byte}

theorem parseHeader_eq_some {header : ParsedHeader} :
    flash.parseHeader = some header ↔ flash.GoodHeader ∧ header = flash.platformHeader := by
  rcases Ffs.parseHeader_cases (bytes_gives flash) with
    ⟨hgood, heq⟩ | ⟨hgood, heq⟩
  · exact ⟨fun h => ⟨hgood, Option.some.inj (h.symm.trans heq)⟩, fun h => h.2 ▸ heq⟩
  · exact ⟨fun h => absurd (h.symm.trans heq) (Option.some_ne_none _), fun h => absurd h.1 hgood⟩

theorem findPartition_eq_some_iff {info : PartitionInfo} : flash.findPartition name = some info ↔
    ∃ entry, Ffs.Finds flash name entry ∧ info = flash.partitionInfo entry := by
  have heq : flash.findPartition name = Ffs.lookup flash name :=
    Ffs.findPartition_eq (bytes_gives flash) name
  simp only [heq, Ffs.lookup, Option.ite_none_right_eq_some, Option.bind_eq_some_iff, scan_eq_some,
    partitionAt, Option.some.injEq]
  constructor
  · rintro ⟨hgood, entry, hfirst, hrange, hinfo⟩
    exact ⟨entry, ⟨hgood, hfirst, hrange⟩, hinfo.symm⟩
  · rintro ⟨entry, ⟨hgood, hfirst, hrange⟩, hinfo⟩
    exact ⟨hgood, entry, hfirst, hrange, hinfo.symm⟩

/-- A lookup of a C string. -/
theorem findPartition_eq_some (hname : 0 ∉ name) {info : PartitionInfo} :
    flash.findPartition name = some info ↔ flash.GoodHeader ∧
      ∃ entry, flash.FirstEntry (flash.Named · name) flash.entryCount
          (Pflash.tocOffset + Ffs.headerSize) entry ∧
        flash.GoodRange entry ∧ info = flash.partitionInfo entry := by
  rw [findPartition_eq_some_iff]
  constructor
  · rintro ⟨entry, ⟨hgood, hfirst, hrange⟩, hinfo⟩
    rw [Ffs.cString_eq_self hname] at hfirst
    exact ⟨hgood, entry, hfirst, hrange, hinfo⟩
  · rintro ⟨hgood, entry, hfirst, hrange, hinfo⟩
    refine ⟨entry, ⟨hgood, ?_, hrange⟩, hinfo⟩
    rwa [Ffs.cString_eq_self hname]

section Reads

variable {m : Type → Type} [Monad m] [LawfulMonad m] {read : ℕ → m Byte}

/-- **A lookup depends on the bytes of the device only.** -/
theorem findPartition_gives (h : Ffs.Gives read flash) (name : List Byte) :
    Ffs.findPartition read name = pure (flash.findPartition name) :=
  (Ffs.findPartition_eq h name).trans
    (congrArg pure (Ffs.findPartition_eq (bytes_gives flash) name).symm)

theorem validate_gives (h : Ffs.Gives read flash) : Ffs.validate read = pure flash.validate :=
  (Ffs.validate_eq h).trans (congrArg pure (Ffs.validate_eq (bytes_gives flash)).symm)

end Reads

/-- The two hold the same bytes in the device. -/
def Agrees (flash flash' : Flash) : Prop := ∀ i < 0x2000000, flash i = flash' i

theorem Agrees.refl (flash : Flash) : flash.Agrees flash := fun _ _ => rfl

/-- What is found in the device is found in both. -/
theorem findPartition_of_agrees {flash' : Flash} (h : flash.Agrees flash') :
    flash'.findPartition name = flash.findPartition name := by
  have hgives : Ffs.Gives flash'.bytes flash := fun i hi => congrArg pure (h i hi).symm
  exact findPartition_gives hgives name

/-- The image is described by the partition of the base. -/
theorem imageInfo_of_findPartition {base : PartitionInfo}
    (hfind : flash.findPartition basePartition = some base) (hsize : base.actualSize ≠ 0) :
    ∃ image, flash.imageInfo = some image ∧ image.baseFlashAddress = base.flashAddress ∧
      image.baseSize = base.actualSize := by
  have hfind' : Ffs.findPartition flash.bytes basePartition = pure (some base) := hfind
  simp only [imageInfo, Ffs.imageInfo, hfind', pure_bind]
  rw [if_neg hsize]
  cases hextended : Ffs.findPartition flash.bytes extendedPartition with
  | none => exact ⟨_, rfl, rfl, rfl⟩
  | some extended => exact ⟨_, rfl, rfl, rfl⟩

end Flash

end Jixia
