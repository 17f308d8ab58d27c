/-
Stage0.

`stage0.S`: the loader that runs from flash at reset.  It checks the partition table,
looks for the partition `JXBASE`, copies it to memory and jumps there.  Registers keep
their names; a register that only counts a loop down is a natural number, so the loops
are structural.  The lines on the serial port are left out.  Like the firmware store, the
code is written once, over the function that reads a byte.

* `stage0_cases` — what Stage0 does with the bytes of the flash;
* `stage0_eq_transfer` — when Stage0 transfers control, and what it has copied;
* `start_gives` — nothing else is read;
* `stage0_agrees_with_kernel` — when the kernel finds the partition that Stage0 booted.
-/
import Jixia.ByteMemory
import Jixia.FirmwareStore

namespace Jixia

open ByteBuffer

/-- How Stage0 ends: a hart that is not the first parks, a bad table ends in
`.Ltoc_fail`, and otherwise control is transferred with `size` bytes copied from the
offset `offset` of the flash. -/
inductive Stage0Result where
  | parked
  | tocFail
  | transfer (offset size : Word) (memory : ByteMemory)

/-- What was copied from where. -/
def Stage0Result.copied : Stage0Result → Option (Word × Word)
  | .transfer offset size _ => some (offset, size)
  | _ => none

theorem Stage0Result.eq_transfer {r : Stage0Result} {offset size : Word}
    (h : r.copied = some (offset, size)) : ∃ memory, r = .transfer offset size memory := by
  cases r with
  | parked => cases h
  | tocFail => cases h
  | transfer offset' size' memory =>
    obtain ⟨rfl, rfl⟩ := Prod.mk.inj (Option.some.inj h)
    exact ⟨memory, rfl⟩

namespace Stage0

def containedBaseAddress : Word := 0x80000000

section Code

variable {m : Type → Type} [Monad m] (read : ByteMemory → Word → m Byte) (mem : ByteMemory)

/-- `lbu`. -/
def lbu (address : Word) : m Word := do
  let b ← read mem address
  return b.setWidth 64

/-- `lw`: the low byte first, and the sign is extended. -/
def lw (address : Word) : m Word := do
  let b0 ← read mem address
  let b1 ← read mem (address + 1)
  let b2 ← read mem (address + 2)
  let b3 ← read mem (address + 3)
  return (word32 b3 b2 b1 b0).signExtend 64

def loadBe32 (t5 : Word) : m Word := do
  let b0 ← lbu read mem t5
  let b1 ← lbu read mem (t5 + 1)
  let b2 ← lbu read mem (t5 + 2)
  let b3 ← lbu read mem (t5 + 3)
  return b0 <<< 24 ||| b1 <<< 16 ||| b2 <<< 8 ||| b3

/-- `.Lchecksum_next`, over the words that are left. -/
def checksumNext : ℕ → Word → Word → m Word
  | 0, _, t6 => pure t6
  | words + 1, t5, t6 => do
    let t0 ← lw read mem t5
    checksumNext words (t5 + 4) (t6 ^^^ t0)

/-- `.Lxor_checksum`, for a size that is a multiple of four. -/
def xorChecksum (t5 : Word) (t4 : ℕ) : m Word := checksumNext read mem (t4 / 4) t5 0

/-- `.Lcopy_base`; `s2` counts down. -/
def copyBase : ℕ → Word → Word → ByteMemory → m ByteMemory
  | 0, _, _, mem => pure mem
  | s2 + 1, s1, s3, mem => do
    let t0 ← read mem s1
    copyBase s2 (s1 + 1) (s3 + 1) (Function.update mem s3 t0)

/-- The characters of the name, with its terminator; the first that differs ends it. -/
def compareName (s3 : Word) : List Byte → ℕ → m Bool
  | [], _ => pure true
  | t1 :: name, offset => do
    let t0 ← lbu read mem (s3 + BitVec.ofNat 64 offset)
    if t0 ≠ t1.setWidth 64 then return false else compareName s3 name (offset + 1)

/-- The table entry at `s3` has the name, and its terminator. -/
def isBase (s3 : Word) : m Bool :=
  compareName read mem s3 [0x4a, 0x58, 0x42, 0x41, 0x53, 0x45, 0] 0

/-- What follows a name that matches: the range checks and the copy. -/
def transferBase (s2 s3 : Word) : m Stage0Result := do
  let s1 ← loadBe32 read mem (s3 + BitVec.ofNat 64 Ffs.entryBaseOffset)
  let s4 ← loadBe32 read mem (s3 + BitVec.ofNat 64 Ffs.entrySizeOffset)
  let s5 ← loadBe32 read mem (s3 + BitVec.ofNat 64 Ffs.entryActualOffset)
  if s5 = 0 then return .tocFail
  else
    let t0 := s1 * s2
    let t1 := s4 * s2
    if s5 > t1 then return .tocFail
    else if t0 < Pflash.dataOffset then return .tocFail
    else
      let t2 := t0 + s5
      if t2 < t0 then return .tocFail
      else if t2 > Pflash.size then return .tocFail
      else do
        let memory ← copyBase read s5.toNat (Pflash.base + t0) containedBaseAddress mem
        return .transfer t0 s5 memory

/-- `.Lscan_entry`; `s4` counts down. -/
def scanEntry (s2 : Word) : ℕ → Word → m Stage0Result
  | 0, _ => pure .tocFail
  | s4 + 1, s3 => do
    let t6 ← xorChecksum read mem s3 Ffs.entrySize
    if t6 ≠ 0 then return .tocFail
    else do
      let named ← isBase read mem s3
      if named then transferBase read mem s2 s3
      else scanEntry s2 s4 (s3 + BitVec.ofNat 64 Ffs.entrySize)

/-- The part of the header that describes the blocks. -/
def geometry (s0 s1 : Word) : m Stage0Result := do
  let s2 ← loadBe32 read mem (s0 + BitVec.ofNat 64 Ffs.hdrBlockSizeOffset)
  if s2 ≠ Pflash.blockSize.setWidth 64 then return .tocFail
  else do
    let t6 ← loadBe32 read mem (s0 + BitVec.ofNat 64 Ffs.hdrBlockCountOffset)
    if t6 ≠ Pflash.blockCount.setWidth 64 then return .tocFail
    else do
      let t6 ← loadBe32 read mem (s0 + BitVec.ofNat 64 Ffs.hdrSizeOffset)
      if t6 * s2 ≠ Pflash.tocSize then return .tocFail
      else if BitVec.ofNat 64 Ffs.entrySize * s1 + BitVec.ofNat 64 Ffs.headerSize >
          Pflash.tocSize then return .tocFail
      else scanEntry read mem s2 s1.toNat (s0 + BitVec.ofNat 64 Ffs.headerSize)

/-- `jixia_stage0_start`. -/
def start (a0 : Word) : m Stage0Result :=
  if a0 ≠ 0 then pure .parked
  else do
    let s0 := Pflash.base + BitVec.ofNat 64 Pflash.tocOffset
    let t6 ← xorChecksum read mem s0 Ffs.headerSize
    if t6 ≠ 0 then return .tocFail
    else do
      let t6 ← loadBe32 read mem (s0 + BitVec.ofNat 64 Ffs.hdrMagicOffset)
      if t6 ≠ Ffs.magic.setWidth 64 then return .tocFail
      else do
        let t6 ← loadBe32 read mem (s0 + BitVec.ofNat 64 Ffs.hdrVersionOffset)
        if t6 ≠ Ffs.version.setWidth 64 then return .tocFail
        else do
          let t6 ← loadBe32 read mem (s0 + BitVec.ofNat 64 Ffs.hdrEntrySizeOffset)
          if t6 ≠ BitVec.ofNat 64 Ffs.entrySize then return .tocFail
          else do
            let s1 ← loadBe32 read mem (s0 + BitVec.ofNat 64 Ffs.hdrEntryCountOffset)
            if s1 = 0 then return .tocFail
            else if s1 > Pflash.maxFfsEntries.setWidth 64 then return .tocFail
            else geometry read mem s0 s1

end Code

/-- A memory that can be read everywhere. -/
def bytes (mem : ByteMemory) (address : Word) : Id Byte := pure (mem address)

/-- Stage0 on a memory that can be read everywhere. -/
def stage0 (mem : ByteMemory) (a0 : Word) : Stage0Result := Id.run (start bytes mem a0)

/-! ### The flash through its window -/

/-- The flash as the processor sees it. -/
def flashWindow (mem : ByteMemory) : Flash := fun i => mem (Pflash.base + BitVec.ofNat 64 i)

/-- The address of an offset of the flash. -/
def flashAddress (i : ℕ) : Word := Pflash.base + BitVec.ofNat 64 i

theorem flashAddress_add (i k : ℕ) :
    flashAddress i + BitVec.ofNat 64 k = flashAddress (i + k) := by
  rw [flashAddress, flashAddress, BitVec.ofNat_add, BitVec.add_assoc]

theorem flashAddress_word (i : ℕ) : flashAddress i + 1 = flashAddress (i + 1) ∧
    flashAddress i + 2 = flashAddress (i + 2) ∧ flashAddress i + 3 = flashAddress (i + 3) :=
  ⟨flashAddress_add i 1, flashAddress_add i 2, flashAddress_add i 3⟩

theorem toNat_flashAddress {i : ℕ} (hi : i ≤ 0x2000000) :
    (flashAddress i).toNat = 0x20000000 + i := by
  have hbase : Pflash.base.toNat = 0x20000000 := rfl
  rw [flashAddress, BitVec.toNat_add, BitVec.toNat_ofNat, hbase]
  omega

/-- The window can be read in every memory. -/
def Gives {m : Type → Type} [Monad m] (read : ByteMemory → Word → m Byte) : Prop :=
  ∀ mem, ∀ i < 0x2000000, read mem (flashAddress i) = pure (flashWindow mem i)

theorem bytes_gives : Gives bytes := fun _ _ _ => rfl

theorem signExtend_eq_zero_iff {x : BitVec 32} : x.signExtend 64 = 0 ↔ x = 0 := by
  have hzero : (0 : Word).toInt = (0 : BitVec 32).toInt := rfl
  rw [← BitVec.toInt_inj, BitVec.toInt_signExtend_of_le (by omega), hzero, BitVec.toInt_inj]

theorem toNat_field (w : BitVec 32) : (w.setWidth 64).toNat = w.toNat := by
  have := w.isLt
  rw [BitVec.toNat_setWidth]
  omega

theorem field_eq_iff {v w : BitVec 32} : v.setWidth 64 = w.setWidth 64 ↔ v = w := by
  rw [← BitVec.toNat_inj, toNat_field, toNat_field, BitVec.toNat_inj]

theorem byte_eq_iff {b c : Byte} : b.setWidth 64 = c.setWidth 64 ↔ b = c := by
  have := b.isLt
  have := c.isLt
  rw [← BitVec.toNat_inj, ← BitVec.toNat_inj, BitVec.toNat_setWidth, BitVec.toNat_setWidth]
  omega

/-! ### Acceptance -/

/-- The range that Stage0 asks for. -/
structure BootRange (flash : Flash) (entry : ℕ) : Prop where
  actual_pos : 0 < (be32 flash (entry + Ffs.entryActualOffset)).toNat
  actual_le : (be32 flash (entry + Ffs.entryActualOffset)).toNat ≤
    (be32 flash (entry + Ffs.entrySizeOffset)).toNat * 0x1000
  data_le : 0x10000 ≤ (be32 flash (entry + Ffs.entryBaseOffset)).toNat * 0x1000
  inside : (be32 flash (entry + Ffs.entryBaseOffset)).toNat * 0x1000 +
    (be32 flash (entry + Ffs.entryActualOffset)).toNat ≤ 0x2000000

/-- What Stage0 does with the entry that it selects. -/
def bootFrom (mem : ByteMemory) (flash : Flash) (entry : ℕ) : Stage0Result :=
  let offset := (be32 flash (entry + Ffs.entryBaseOffset)).toNat * 0x1000
  let size := (be32 flash (entry + Ffs.entryActualOffset)).toNat
  .transfer (BitVec.ofNat 64 offset) (BitVec.ofNat 64 size)
    (mem.copied (flashAddress offset) containedBaseAddress size)

open Classical in
/-- What Stage0 does with the entry that it has found. -/
noncomputable def bootAt (mem : ByteMemory) (flash : Flash) (entry : ℕ) : Stage0Result :=
  if BootRange flash entry then bootFrom mem flash entry else .tocFail

/-- The entry that Stage0 boots from. -/
structure Boots (flash : Flash) (entry : ℕ) : Prop where
  header : flash.GoodHeader
  first : flash.FirstEntry (flash.Named · Flash.basePartition) flash.entryCount
    (Pflash.tocOffset + Ffs.headerSize) entry
  range : BootRange flash entry

open Classical in
/-- What Stage0 does with a flash. -/
noncomputable def booted (mem : ByteMemory) (flash : Flash) : Stage0Result :=
  if flash.GoodHeader then (flash.scan (flash.Named · Flash.basePartition) flash.entryCount
    (Pflash.tocOffset + Ffs.headerSize)).elim .tocFail (bootAt mem flash)
  else .tocFail

section Results

variable {m : Type → Type} [Monad m] [LawfulMonad m] {read : ByteMemory → Word → m Byte}
  {mem : ByteMemory} {flash : Flash} (h : Gives read)

include h

/-- The copy out of the window to the memory of the base. -/
theorem copyBase_eq (mem : ByteMemory) (i k left : ℕ)
    (hin : i + (k + left) ≤ 0x2000000) :
    copyBase read left (flashAddress i + BitVec.ofNat 64 k)
        (containedBaseAddress + BitVec.ofNat 64 k)
        (mem.copied (flashAddress i) containedBaseAddress k) =
      pure (mem.copied (flashAddress i) containedBaseAddress (k + left)) := by
  have hcontained : containedBaseAddress.toNat = 0x80000000 := rfl
  induction left generalizing k with
  | zero => rfl
  | succ left ih =>
    have hnext : ∀ a : Word, a + BitVec.ofNat 64 k + 1 = a + BitVec.ofNat 64 (k + 1) := by
      intro a
      rw [BitVec.ofNat_add, ← BitVec.add_assoc]
      rfl
    -- The flash ends before the memory of the base.
    have hbyte : flashWindow (mem.copied (flashAddress i) containedBaseAddress k) (i + k) =
        mem (flashAddress i + BitVec.ofNat 64 k) := by
      rw [flashAddress_add]
      refine if_neg ?_
      show ¬ (flashAddress (i + k) - containedBaseAddress).toNat < k
      rw [BitVec.toNat_sub, toNat_flashAddress (by omega), hcontained]
      omega
    rw [copyBase, flashAddress_add, h _ _ (by omega), pure_bind, hbyte,
      ByteMemory.copied_succ (by omega), ← flashAddress_add, hnext, hnext, ih _ (by omega),
      Nat.add_assoc, Nat.add_comm 1 left]

variable (hf : flash.Agrees (flashWindow mem))

include hf

theorem lbu_eq {i : ℕ} (hi : i < 0x2000000) :
    lbu read mem (flashAddress i) = pure ((flash i).setWidth 64) := by
  rw [lbu, h mem i hi, pure_bind, hf i hi]

theorem loadBe32_eq {i : ℕ} (hi : i + 4 ≤ 0x2000000) :
    loadBe32 read mem (flashAddress i) = pure ((be32 flash i).setWidth 64) := by
  obtain ⟨h1, h2, h3⟩ := flashAddress_word i
  rw [loadBe32, h1, h2, h3, lbu_eq h hf (by omega), pure_bind, lbu_eq h hf (by omega), pure_bind,
    lbu_eq h hf (by omega), pure_bind, lbu_eq h hf (by omega), pure_bind]
  exact congrArg pure (shifted_bytes (by omega) ..)

theorem lw_eq {i : ℕ} (hi : i + 4 ≤ 0x2000000) :
    lw read mem (flashAddress i) =
      pure ((word32 (flash (i + 3)) (flash (i + 2)) (flash (i + 1)) (flash i)).signExtend 64) := by
  obtain ⟨h1, h2, h3⟩ := flashAddress_word i
  rw [lw, h1, h2, h3, h mem i (by omega), pure_bind, h mem _ (by omega), pure_bind,
    h mem _ (by omega), pure_bind, h mem _ (by omega), pure_bind, hf i (by omega),
    hf _ (by omega), hf _ (by omega), hf _ (by omega)]

theorem checksumNext_eq {words i : ℕ} (hi : i + 4 * words ≤ 0x2000000) (t6 : Word) :
    checksumNext read mem words (flashAddress i) t6 =
      pure (t6 ^^^ (leXorFrom flash i words).signExtend 64) := by
  induction words generalizing i t6 with
  | zero => exact congrArg pure BitVec.xor_zero.symm
  | succ words ih =>
    have h4 : flashAddress i + 4 = flashAddress (i + 4) := flashAddress_add i 4
    rw [checksumNext, lw_eq h hf (by omega), pure_bind, h4, ih (by omega), leXorFrom,
      BitVec.signExtend_xor, BitVec.xor_assoc]

/-- The checksum in the other byte order is zero when the kernel's is. -/
theorem xorChecksum_eq {i size : ℕ} (hi : i + size ≤ 0x2000000) :
    ∃ t6, xorChecksum read mem (flashAddress i) size = pure t6 ∧
      (t6 = 0 ↔ xorFrom flash i (size / 4) = 0) := by
  have hzero : (0 : Word) ^^^ (leXorFrom flash i (size / 4)).signExtend 64 =
      (leXorFrom flash i (size / 4)).signExtend 64 := BitVec.zero_xor
  refine ⟨_, checksumNext_eq h hf (by omega) 0, ?_⟩
  rw [hzero, signExtend_eq_zero_iff, leXorFrom_eq_zero_iff]

theorem compareName_eq {i offset : ℕ} {name : List Byte}
    (hi : i + offset + name.length ≤ 0x2000000) :
    compareName read mem (flashAddress i) name offset =
      pure (decide (∀ j < name.length, flash (i + offset + j) = name.getD j 0)) := by
  induction name generalizing offset with
  | nil => exact congrArg pure (decide_eq_true fun j hj => absurd hj (Nat.not_lt_zero j)).symm
  | cons t1 name ih =>
    rw [List.length_cons] at hi
    rw [compareName, flashAddress_add, lbu_eq h hf (by omega), pure_bind]
    by_cases heq : flash (i + offset) = t1
    · rw [if_neg (not_not.mpr (byte_eq_iff.mpr heq)), ih (by omega)]
      have hnext : ∀ j, i + (offset + 1) + j = i + offset + (j + 1) := fun j => by omega
      refine congrArg pure (decide_eq_decide.mpr ⟨fun hall j hj => ?_, fun hall j hj => ?_⟩)
      · cases j with
        | zero => exact heq
        | succ j => exact hnext j ▸ hall j (Nat.lt_of_succ_lt_succ hj)
      · exact hnext j ▸ hall (j + 1) (Nat.succ_lt_succ hj)
    · rw [if_pos (byte_eq_iff.not.mpr heq)]
      exact congrArg pure (decide_eq_false fun hall => heq (hall 0 (Nat.succ_pos _))).symm

theorem isBase_eq {i : ℕ} (hi : i + 7 ≤ 0x2000000) :
    isBase read mem (flashAddress i) = pure (decide (flash.Named i Flash.basePartition)) := by
  rw [isBase, compareName_eq h hf (by exact hi)]
  refine congrArg pure (decide_eq_decide.mpr ⟨fun hall => ⟨by decide, fun j hj => ?_⟩, ?_⟩)
  · have hj : j < 7 := Nat.lt_succ_of_le hj
    have hchar : ∀ j < 7, ([0x4a, 0x58, 0x42, 0x41, 0x53, 0x45, 0] : List Byte).getD j 0 =
      Flash.basePartition.getD j 0 := by decide
    exact (hall j hj).trans (hchar j hj)
  · intro hnamed j hj
    have hchar : ∀ j < 7, Flash.basePartition.getD j 0 =
      ([0x4a, 0x58, 0x42, 0x41, 0x53, 0x45, 0] : List Byte).getD j 0 := by decide
    exact (hnamed.2 j (Nat.le_of_lt_succ hj)).trans (hchar j hj)

/-- The range checks, one after the other. -/
theorem transferBase_eq (entry : ℕ) (he : entry + 128 ≤ 0x2000000) :
    transferBase read mem (Pflash.blockSize.setWidth 64) (flashAddress entry) =
      pure (bootAt mem flash entry) := by
  have hfield {offset : ℕ} (ho : offset ≤ 40) :
      loadBe32 read mem (flashAddress entry + BitVec.ofNat 64 offset) =
        pure ((be32 flash (entry + offset)).setWidth 64) := by
    rw [flashAddress_add, loadBe32_eq h hf (by omega)]
  simp (disch := decide) only [transferBase, bootAt, bootFrom, hfield, pure_bind]
  generalize hbase : be32 flash (entry + Ffs.entryBaseOffset) = base
  generalize hsize : be32 flash (entry + Ffs.entrySizeOffset) = size
  generalize hactual : be32 flash (entry + Ffs.entryActualOffset) = actual
  have hbaseLt := base.isLt
  have hactualLt := actual.isLt
  have hzero : actual.setWidth 64 = 0 ↔ actual.toNat = 0 := by
    rw [← BitVec.toNat_inj, toNat_field]
    rfl
  have hsum : (base.setWidth 64 * Pflash.blockSize.setWidth 64 + actual.setWidth 64).toNat =
      base.toNat * 0x1000 + actual.toNat := by
    rw [BitVec.toNat_add, Flash.toNat_blocks, toNat_field]
    omega
  have hdata : Pflash.dataOffset.toNat = 0x10000 := rfl
  have hdevice : Pflash.size.toNat = 0x2000000 := rfl
  simp only [hzero, gt_iff_lt, BitVec.lt_def, hsum, Flash.toNat_blocks, toNat_field, hdata, hdevice]
  have hrange : BootRange flash entry ↔ 0 < actual.toNat ∧
      actual.toNat ≤ size.toNat * 0x1000 ∧ 0x10000 ≤ base.toNat * 0x1000 ∧
      base.toNat * 0x1000 + actual.toNat ≤ 0x2000000 := by
    rw [← hbase, ← hsize, ← hactual]
    exact ⟨fun h => ⟨h.1, h.2, h.3, h.4⟩, fun h => ⟨h.1, h.2.1, h.2.2.1, h.2.2.2⟩⟩
  by_cases hall : BootRange flash entry
  · rw [if_pos hall]
    have hin := hrange.mp hall
    have hoffset : base.setWidth 64 * Pflash.blockSize.setWidth 64 =
        BitVec.ofNat 64 (base.toNat * 0x1000) := by
      rw [← Flash.toNat_blocks, BitVec.ofNat_toNat, BitVec.setWidth_eq]
    have hcopy := copyBase_eq h mem (base.toNat * 0x1000) 0 actual.toNat (by omega)
    have hstart : ∀ a : Word, a + BitVec.ofNat 64 0 = a := BitVec.add_zero
    rw [ByteMemory.copied_zero, Nat.zero_add, hstart, hstart] at hcopy
    rw [if_neg (by omega), if_neg (by omega), if_neg (by omega), if_neg (by omega),
      if_neg (by omega), hoffset]
    refine (congrArg (· >>= _) hcopy).trans ?_
    rw [pure_bind, ← toNat_field actual, BitVec.ofNat_toNat, BitVec.setWidth_eq]
  · rw [if_neg hall]
    rw [hrange] at hall
    refine ite_eq_left_iff.mpr fun h0 => ite_eq_left_iff.mpr fun h1 => ite_eq_left_iff.mpr
      fun h2 => ite_eq_left_iff.mpr fun h3 => if_pos ?_
    omega

/-- The scan boots from the first entry with the name. -/
theorem scanEntry_eq {count first : ℕ} (he : first + 128 * count ≤ 0x2000000) :
    scanEntry read mem (Pflash.blockSize.setWidth 64) count (flashAddress first) =
      pure ((flash.scan (flash.Named · Flash.basePartition) count first).elim .tocFail
        (bootAt mem flash)) := by
  induction count generalizing first with
  | zero => rfl
  | succ count ih =>
    obtain ⟨t6, hsum, hcheck⟩ : ∃ t6,
        xorChecksum read mem (flashAddress first) Ffs.entrySize = pure t6 ∧
          (t6 = 0 ↔ flash.GoodEntry first) :=
      xorChecksum_eq h hf (show first + 128 ≤ 0x2000000 by omega)
    simp only [scanEntry, Flash.scan, hsum, isBase_eq h hf (show first + 7 ≤ 0x2000000 by omega),
      pure_bind, decide_eq_true_eq, flashAddress_add, ne_eq, hcheck]
    by_cases hgood : flash.GoodEntry first
    · rw [if_neg (not_not.mpr hgood), if_neg (not_not.mpr hgood)]
      by_cases hnamed : flash.Named first Flash.basePartition
      · rw [if_pos hnamed, if_pos hnamed, transferBase_eq h hf first (by omega)]
        rfl
      · rw [if_neg hnamed, if_neg hnamed]
        exact ih (show first + 128 + 128 * count ≤ 0x2000000 by omega)
    · rw [if_pos hgood, if_pos hgood]
      rfl

/-- Stage0 goes on to the scan exactly when the header is good. -/
theorem start_header :
    flash.GoodHeader ∧ start read mem 0 = scanEntry read mem (Pflash.blockSize.setWidth 64)
      flash.entryCount (flashAddress (Pflash.tocOffset + Ffs.headerSize)) ∨
    ¬ flash.GoodHeader ∧ start read mem 0 = pure .tocFail := by
  have hbase : Pflash.base + BitVec.ofNat 64 Pflash.tocOffset = flashAddress Pflash.tocOffset := rfl
  obtain ⟨t6, hsum, hcheck⟩ : ∃ t6,
      xorChecksum read mem (flashAddress Pflash.tocOffset) Ffs.headerSize = pure t6 ∧
        (t6 = 0 ↔ xorFrom flash Pflash.tocOffset 12 = 0) := xorChecksum_eq h hf (by decide)
  have hfield (offset : ℕ) (ho : offset ≤ 24) :
      loadBe32 read mem (flashAddress (Pflash.tocOffset + offset)) =
        pure ((be32 flash (Pflash.tocOffset + offset)).setWidth 64) :=
    loadBe32_eq h hf (show 0x1000 + offset + 4 ≤ 0x2000000 by omega)
  have hsize : ∀ w : BitVec 32, w.setWidth 64 = BitVec.ofNat 64 Ffs.entrySize ↔ w = 128 :=
    fun _ => field_eq_iff (w := 128)
  have hzero : ∀ w : BitVec 32, w.setWidth 64 = 0 ↔ w.toNat = 0 := by
    intro w
    rw [← BitVec.toNat_inj, toNat_field]
    rfl
  have hmax : ∀ w : BitVec 32, w.setWidth 64 > Pflash.maxFfsEntries.setWidth 64 ↔
      255 < w.toNat := by
    intro w
    rw [gt_iff_lt, BitVec.lt_def, toNat_field, toNat_field]
    rfl
  have hend : ∀ w : BitVec 32, w.toNat ≤ 255 →
      ¬ BitVec.ofNat 64 Ffs.entrySize * w.setWidth 64 + BitVec.ofNat 64 Ffs.headerSize >
        Pflash.tocSize := by
    intro w hw
    rw [BitVec.add_comm, BitVec.mul_comm]
    exact Flash.entriesEnd_le hw
  rw [start, if_neg (not_not.mpr rfl)]
  simp only [geometry, hbase, flashAddress_add]
  rw [hsum, pure_bind, hfield Ffs.hdrMagicOffset (by decide), pure_bind,
    hfield Ffs.hdrVersionOffset (by decide), pure_bind, hfield Ffs.hdrEntrySizeOffset (by decide),
    pure_bind, hfield Ffs.hdrEntryCountOffset (by decide), pure_bind,
    hfield Ffs.hdrBlockSizeOffset (by decide), pure_bind,
    hfield Ffs.hdrBlockCountOffset (by decide), pure_bind, hfield Ffs.hdrSizeOffset (by decide),
    pure_bind]
  simp only [toNat_field, hcheck, hzero, hmax, hsize, ne_eq, field_eq_iff]
  by_cases hgood : flash.GoodHeader
  · refine .inl ⟨hgood, ?_⟩
    have hpos := hgood.count_pos
    have hle := hgood.count_le
    rw [if_neg (not_not.mpr hgood.checksum), if_neg (not_not.mpr hgood.magic),
      if_neg (not_not.mpr hgood.version), if_neg (not_not.mpr hgood.entrySize),
      if_neg (by omega), if_neg (by omega),
      if_neg (not_not.mpr hgood.blockSize), if_neg (not_not.mpr hgood.blockCount),
      hgood.tableBlocks, hgood.blockSize, if_neg (by decide), if_neg (hend _ hle)]
    rfl
  · refine .inr ⟨hgood, ?_⟩
    refine ite_eq_left_iff.mpr fun h0 => ite_eq_left_iff.mpr fun h1 => ite_eq_left_iff.mpr
      fun h2 => ite_eq_left_iff.mpr fun h3 => ite_eq_left_iff.mpr fun h4 => ite_eq_left_iff.mpr
      fun h5 => ite_eq_left_iff.mpr fun h6 => ite_eq_left_iff.mpr fun h7 => ite_eq_left_iff.mpr
      fun h8 => ?_
    -- Every check has passed, so the header is good.
    rw [not_not] at h0 h1 h2 h3 h6 h7 h8
    refine absurd ⟨h0, h1, h2, h3, by omega, by omega, h6, h7, ?_⟩ hgood
    rwa [h6, Flash.tableSize_eq_iff] at h8

/-- **Stage0 reads only the window of the flash.** -/
theorem start_eq : start read mem 0 = pure (booted mem flash) := by
  rcases start_header h hf with ⟨hgood, heq⟩ | ⟨hgood, heq⟩
  · rw [heq, booted, if_pos hgood, scanEntry_eq h hf (Ffs.entries_inside hgood)]
  · rw [heq, booted, if_neg hgood]

end Results

variable {mem : ByteMemory} {flash : Flash}

/-- **What Stage0 does**: it boots from an entry, or ends in `.Ltoc_fail`. -/
theorem stage0_cases (hf : flash.Agrees (flashWindow mem)) :
    (∃ entry, Boots flash entry ∧ stage0 mem 0 = bootFrom mem flash entry) ∨
    (¬ ∃ entry, Boots flash entry) ∧ stage0 mem 0 = .tocFail := by
  rw [show stage0 mem 0 = booted mem flash from start_eq bytes_gives hf, booted]
  by_cases hboots : ∃ entry, Boots flash entry
  · obtain ⟨entry, hboots⟩ := hboots
    refine .inl ⟨entry, hboots, ?_⟩
    rw [if_pos hboots.header, Flash.scan_eq_some.mpr hboots.first, Option.elim_some, bootAt,
      if_pos hboots.range]
  · classical refine .inr ⟨hboots, ite_eq_right_iff.mpr fun hgood => ?_⟩
    cases hscan : flash.scan (flash.Named · Flash.basePartition) flash.entryCount
        (Pflash.tocOffset + Ffs.headerSize) with
    | none => rfl
    | some entry =>
      exact if_neg fun hrange => hboots ⟨entry, hgood, Flash.scan_eq_some.mp hscan, hrange⟩

/-- **When Stage0 transfers control.** -/
theorem stage0_eq_transfer (hf : flash.Agrees (flashWindow mem)) {offset size : Word}
    {memory : ByteMemory} : stage0 mem 0 = .transfer offset size memory ↔
      ∃ entry, Boots flash entry ∧ bootFrom mem flash entry = .transfer offset size memory := by
  rcases stage0_cases hf with ⟨entry, hboots, heq⟩ | ⟨hnone, heq⟩
  · refine ⟨fun h => ⟨entry, hboots, heq.symm.trans h⟩, ?_⟩
    rintro ⟨entry', hboots', h⟩
    rw [← hboots.first.eq hboots'.first] at h
    exact heq.trans h
  · refine ⟨fun h => Stage0Result.noConfusion (heq.symm.trans h), ?_⟩
    rintro ⟨entry, hboots, -⟩
    exact absurd ⟨entry, hboots⟩ hnone

/-- **Stage0 depends on the window of the flash only.** -/
theorem start_gives {m : Type → Type} [Monad m] [LawfulMonad m]
    {read : ByteMemory → Word → m Byte} (h : Gives read) (mem : ByteMemory) (a0 : Word) :
    start read mem a0 = pure (stage0 mem a0) := by
  by_cases ha0 : a0 = 0
  · subst ha0
    have hf := Flash.Agrees.refl (flashWindow mem)
    exact (start_eq h hf).trans (congrArg pure (start_eq bytes_gives hf).symm)
  · rw [stage0, start, start, if_pos ha0, if_pos ha0]
    rfl

/-! ### The kernel on the same flash -/

/-- The blocks of the first entry of the base end inside the device. -/
def BaseInside (flash : Flash) : Prop :=
  ∀ entry, flash.FirstEntry (flash.Named · Flash.basePartition) flash.entryCount
      (Pflash.tocOffset + Ffs.headerSize) entry →
    (be32 flash (entry + Ffs.entryBaseOffset)).toNat +
      (be32 flash (entry + Ffs.entrySizeOffset)).toNat ≤ 0x2000

theorem goodRange_of_bootRange {flash : Flash} {entry : ℕ} (h : BootRange flash entry)
    (hin : (be32 flash (entry + Ffs.entryBaseOffset)).toNat +
      (be32 flash (entry + Ffs.entrySizeOffset)).toNat ≤ 0x2000) : flash.GoodRange entry := by
  have hpos := h.actual_pos
  have hle := h.actual_le
  exact ⟨by omega, hin, hle⟩

/-- The offset that the kernel reports is not cut off. -/
theorem setWidth_flashOffset {flash : Flash} {entry : ℕ} (h : BootRange flash entry) :
    (flash.partitionInfo entry).flashOffset.setWidth 64 =
      (be32 flash (entry + Ffs.entryBaseOffset)).setWidth 64 * Pflash.blockSize.setWidth 64 := by
  have hin := h.inside
  apply BitVec.eq_of_toNat_eq
  rw [toNat_field, Flash.partitionInfo, BitVec.toNat_setWidth, Flash.toNat_blocks]
  omega

/-! A table with one entry, whose base takes `sizeBlocks` blocks. -/

def withChecksum (words : List (BitVec 32)) : List (BitVec 32) :=
  words ++ [words.foldl (· ^^^ ·) 0]

def sampleTable (sizeBlocks : BitVec 32) : List Byte :=
  (withChecksum ([0x50415254, 1, 8, 128, 1, 0x1000, 0x2000] ++ List.replicate 4 0) ++
    withChecksum ([0x4a584241, 0x53450000, 0, 0, 0x10, sizeBlocks, 0xffffffff, 1, 1, 0, 1] ++
      List.replicate 20 0)).flatMap be32Bytes

/-- Memory with that table in the flash, and nothing else. -/
def sampleMemory (sizeBlocks : BitVec 32) : ByteMemory :=
  fun a => byteAt (sampleTable sizeBlocks) (a - (Pflash.base + 0x1000)).toNat

theorem sampleMemory_boots : (stage0 (sampleMemory 1) 0).copied = some (0x10000, 1) ∧
    (stage0 (sampleMemory 0x2000) 0).copied = some (0x10000, 1) := by
  decide +kernel

theorem sampleMemory_baseInside : BaseInside (flashWindow (sampleMemory 1)) := by
  rintro entry ⟨k, hk, rfl, -⟩
  have hcount : (flashWindow (sampleMemory 1)).entryCount = 1 := by decide +kernel
  obtain rfl : k = 0 := by omega
  decide +kernel

/-- **The kernel agrees with Stage0 exactly when the blocks of the partition end inside
the device**: Stage0 checks where the data ends, and the kernel where the blocks end. -/
theorem stage0_agrees_with_kernel (mem : ByteMemory) {offset size : Word} {memory : ByteMemory}
    (hboot : stage0 mem 0 = .transfer offset size memory) :
    BaseInside (flashWindow mem) ↔
      ∃ info image, (flashWindow mem).findPartition Flash.basePartition = some info ∧
        info.flashOffset.setWidth 64 = offset ∧ info.actualSize = size ∧
        (flashWindow mem).imageInfo = some image ∧
        image.baseFlashAddress = Pflash.base + offset ∧ image.baseSize = size := by
  have hname : 0 ∉ Flash.basePartition := by decide
  obtain ⟨entry, ⟨hgood, hfirst, hrange⟩, hresult⟩ :=
    (stage0_eq_transfer (Flash.Agrees.refl (flashWindow mem))).mp hboot
  injection hresult with hoffset hsize
  rw [BitVec.ofNat_toNat] at hsize
  rw [← Flash.toNat_blocks, BitVec.ofNat_toNat, BitVec.setWidth_eq] at hoffset
  constructor
  · intro hin
    have hfind := (Flash.findPartition_eq_some hname).mpr
      ⟨hgood, entry, hfirst, goodRange_of_bootRange hrange (hin entry hfirst), rfl⟩
    have hpos : ((flashWindow mem).partitionInfo entry).actualSize ≠ 0 := by
      intro h
      have := congrArg BitVec.toNat h
      rw [Flash.partitionInfo, toNat_field] at this
      exact hrange.actual_pos.ne' this
    obtain ⟨image, himage, haddress, hbase⟩ := Flash.imageInfo_of_findPartition hfind hpos
    exact ⟨_, image, hfind, (setWidth_flashOffset hrange).trans hoffset, hsize, himage,
      haddress.trans (congrArg (Pflash.base + ·) hoffset), hbase.trans hsize⟩
  · rintro ⟨info, -, hfind, -⟩ other hother
    obtain ⟨-, found, hfound, hgoodRange, -⟩ := (Flash.findPartition_eq_some hname).mp hfind
    rw [hother.eq hfound]
    exact hgoodRange.inside

theorem stage0_agrees_with_kernel_sample :
    ∃ memory, stage0 (sampleMemory 1) 0 = .transfer 0x10000 1 memory ∧
      ∃ info image, (flashWindow (sampleMemory 1)).findPartition Flash.basePartition = some info ∧
        info.flashOffset.setWidth 64 = (0x10000 : Word) ∧ info.actualSize = 1 ∧
        (flashWindow (sampleMemory 1)).imageInfo = some image ∧
        image.baseFlashAddress = Pflash.base + 0x10000 ∧ image.baseSize = 1 := by
  obtain ⟨memory, hboot⟩ := Stage0Result.eq_transfer sampleMemory_boots.1
  exact ⟨memory, hboot, (stage0_agrees_with_kernel _ hboot).mp sampleMemory_baseInside⟩

/-- A base whose blocks reach past the end of the device boots, and the kernel does not
find it. -/
theorem stage0_boots_what_kernel_rejects :
    ∃ memory, stage0 (sampleMemory 0x2000) 0 = .transfer 0x10000 1 memory ∧
      (flashWindow (sampleMemory 0x2000)).findPartition Flash.basePartition = none := by
  obtain ⟨memory, hboot⟩ := Stage0Result.eq_transfer sampleMemory_boots.2
  exact ⟨memory, hboot, by decide +kernel⟩

end Stage0

end Jixia
