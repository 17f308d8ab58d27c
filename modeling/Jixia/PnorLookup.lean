/-
Lookups in an image that the packer wrote.

The kernel and the inspector look a partition up by its name.  Both find the first entry
whose stored name it is: the name of its partition, up to the first zero character.

* `Built.goodHeader`, `Built.goodEntry` — the kernel accepts the table;
* `Built.named_iff` — the name that it reads in an entry;
* `lookup_finds_partition_iff` — when a partition is found under its own name.
-/
import Mathlib.Data.List.TakeWhile
import Jixia.FirmwareStore
import Jixia.PnorRoundTrip

namespace Jixia

open ByteBuffer Guarded

namespace Pnor

/-- The geometry of the platform: 0x2000 blocks of 0x1000 bytes, with the table at
0x1000. -/
structure PlatformGeometry (image : ImageSpec) : Prop where
  size : image.size = 0x2000000
  blockSize : image.blockSize = 0x1000
  tocOffset : image.tocOffset = 0x1000
  tocSize : image.tocSize = 0x8000

/-- The image as the contents of the flash. -/
def flashOf (output : List Byte) : Flash := byteAt output

/-- The offset of an entry of the table, by its index. -/
abbrev entryOffset (k : ℕ) : ℕ := Pflash.tocOffset + Ffs.headerSize + Ffs.entrySize * k

/-- The record of the kernel has the fields of the partition. -/
structure Describes (info : PartitionInfo) (partition : Partition) : Prop where
  flashOffset : (info.flashOffset.toNat : ℤ) = partition.offset
  allocatedSize : (info.allocatedSize.toNat : ℤ) = partition.allocatedSize
  actualSize : info.actualSize.toNat = partition.actualSize
  flags : info.flags.toNat = partition.flags
  dataIntegrity : info.dataIntegrity.toNat = partition.dataIntegrity
  versionCheck : info.versionCheck.toNat = partition.versionCheck
  miscFlags : info.miscFlags.toNat = partition.miscFlags

section Built

variable {manifest : Manifest} {sources : Sources} {placed : List Partition} {header : List Byte}
  {entries : List (List Byte)} {output : List Byte} {k : ℕ} {name : Text}
  (h : Built manifest sources placed header entries)
  (ho : output = outputBytes manifest.image header entries placed)

include h

/-- No two partitions start at the same place. -/
theorem Built.offset_inj {j k : ℕ} (hj : j < (manifest.listed placed).length)
    (hk : k < (manifest.listed placed).length)
    (heq : (manifest.listed placed)[j].offset = (manifest.listed placed)[k].offset) : j = k := by
  obtain ⟨-, hpos, -⟩ := h.inside _ (List.getElem_mem hj)
  obtain ⟨-, hpos', -⟩ := h.inside _ (List.getElem_mem hk)
  rcases Nat.lt_trichotomy j k with hlt | rfl | hlt
  · have hapart := List.pairwise_iff_getElem.mp h.apart j k hj hk hlt
    simp only [Interval.Apart, Partition.interval] at hapart
    omega
  · rfl
  · have hapart := List.pairwise_iff_getElem.mp h.apart k j hk hj hlt
    simp only [Interval.Apart, Partition.interval] at hapart
    omega

include ho

/-- The first partition that stores a name, by its index. -/
theorem Built.index_of_partition {inspected : ImageResult} {partition : Partition}
    (hinspected : inspectImage output manifest.image.tocOffset = .ok inspected)
    (hpartition : inspected.partition name = some partition) :
    ∃ k, ∃ hk : k < (manifest.listed placed).length,
      partition = (manifest.listed placed)[k].stored ∧
      storedName (manifest.listed placed)[k].name = name ∧
      ∀ j (hj : j < k), storedName (manifest.listed placed)[j].name ≠ name := by
  subst ho
  obtain rfl := Except.ok.inj (hinspected.symm.trans h.inspectImage_eq)
  rw [ImageResult.partition, List.find?_eq_some_iff_getElem] at hpartition
  obtain ⟨hname, k, hk, rfl, hfirst⟩ := hpartition
  rw [List.length_map] at hk
  rw [List.getElem_map] at hname
  refine ⟨k, hk, List.getElem_map .., beq_iff_eq.mp hname, fun j hj heq => ?_⟩
  have hne := hfirst j hj
  rw [List.getElem_map] at hne
  exact beq_eq_false_iff_ne.mp ((Bool.not_eq_true' _).mp hne) heq

variable (hg : PlatformGeometry manifest.image)

include hg

/-- A field of the header, as the kernel reads it. -/
theorem Built.header_field {n : ℕ} (hn : n + 4 ≤ ffsHeaderSize) :
    (be32 (flashOf output) (Pflash.tocOffset + n)).toNat = unpackU32 header n := by
  subst ho
  have hslice := h.slice_segment List.mem_cons_self
  have htoc : manifest.image.tocOffset.toNat = Pflash.tocOffset := by rw [hg.tocOffset]; rfl
  simp only [htoc] at hslice
  exact unpackU32_of_slice hslice (by rw [h.header_of.length]; exact hn)

/-- **The kernel accepts the header.** -/
theorem Built.goodHeader :
    (flashOf output).GoodHeader ∧ (flashOf output).entryCount = placed.length + 1 := by
  have hheader := h.header_of
  rw [hg.size, hg.blockSize, hg.tocSize] at hheader
  have hfit : ((48 + (placed.length + 1) * 128 : ℕ) : ℤ) ≤ 0x8000 := hg.tocSize ▸ h.entries_fit
  have hcount := hheader.entryCount
  have hfield : ∀ {n : ℕ} {v : BitVec 32}, n + 4 ≤ ffsHeaderSize →
      (unpackU32 header n : ℤ) = (v.toNat : ℤ) →
      be32 (flashOf output) (Pflash.tocOffset + n) = v := by
    intro n v hn hv
    apply BitVec.eq_of_toNat_eq
    rw [h.header_field ho hg hn]
    exact Int.ofNat.inj hv
  refine ⟨⟨?_, hfield (by decide) hheader.magic, hfield (by decide) hheader.version,
    hfield (by decide) (congrArg _ hheader.entrySize), ?_, ?_,
    hfield (by decide) hheader.blockSize, hfield (by decide) hheader.blockCount,
    hfield (by decide) hheader.tableBlocks⟩, ?_⟩
  · have hlen := h.length_output
    have hslice := h.slice_segment List.mem_cons_self
    have htoc : manifest.image.tocOffset.toNat = Pflash.tocOffset := by rw [hg.tocOffset]; rfl
    rw [← ho, hg.size] at hlen
    simp only [← ho, htoc, hheader.length] at hslice
    have hwords : ByteBuffer.xorWords (slice output Pflash.tocOffset (4 * 12)) =
        xorFrom (flashOf output) Pflash.tocOffset 12 := xorWords_slice (by rw [hlen]; decide)
    exact hwords.symm.trans ((congrArg ByteBuffer.xorWords hslice).trans hheader.checksum)
  · rw [h.header_field ho hg (by decide), hcount]
    omega
  · rw [h.header_field ho hg (by decide), hcount]
    omega
  · rw [Flash.entryCount, h.header_field ho hg (by decide), hcount]

/-- An entry of the table, as the kernel reads it. -/
theorem Built.slice_tableEntry (hk : k < entries.length) :
    slice output (entryOffset k) ffsEntrySize = entries[k] := by
  have hslice := h.slice_entry hk
  rw [hg.tocOffset, ← ho] at hslice
  exact hslice

theorem Built.goodEntry (hk : k < entries.length) :
    (flashOf output).GoodEntry (entryOffset k) := by
  have hcount := h.entries_length
  have hentry := h.entry_of (hcount ▸ hk) hk
  have hfit : ((48 + (placed.length + 1) * 128 : ℕ) : ℤ) ≤ 0x8000 := hg.tocSize ▸ h.entries_fit
  have hout := h.length_output
  rw [← ho, hg.size] at hout
  rw [List.length_cons] at hcount
  have hwords : ByteBuffer.xorWords (slice output (entryOffset k) (4 * 32)) =
      xorFrom (flashOf output) (entryOffset k) 32 := by
    refine xorWords_slice ?_
    rw [hout, show (0x2000000 : ℤ).toNat = 0x2000000 from rfl, entryOffset,
      show Pflash.tocOffset = 0x1000 from rfl, show Ffs.headerSize = 48 from rfl,
      show Ffs.entrySize = 128 from rfl]
    omega
  exact hwords.symm.trans ((congrArg ByteBuffer.xorWords
    (h.slice_tableEntry ho hg hk)).trans hentry.checksum)

/-- The name that the kernel reads in an entry. -/
theorem Built.named_iff (hk : k < (manifest.listed placed).length)
    (hascii : ∀ c ∈ name, c.toNat < 128) (hnul : Char.ofNat 0 ∉ name) (hlen : name.length ≤ 15) :
    (flashOf output).Named (entryOffset k) (name.map asciiByte) ↔
      storedName (manifest.listed placed)[k].name = name := by
  have hk' : k < entries.length := h.entries_length ▸ hk
  have hentry := h.entry_of hk hk'
  have hslice := h.slice_tableEntry ho hg hk'
  generalize (manifest.listed placed)[k] = p at *
  obtain ⟨hbytes, hascii', -⟩ := nameBytes_ok hentry.name
  -- The field of the name, byte by byte.
  have hbyte : ∀ i < 16, flashOf output (entryOffset k + i) =
      byteAt (slice entries[k] 0 16) i := by
    intro i hi
    rw [byteAt_slice hi, Nat.zero_add, ← hslice]
    exact (byteAt_slice (Nat.lt_trans hi (by decide))).symm
  have hstored : ∀ c ∈ storedName p.name, c.toNat < 128 :=
    fun c hc => hascii' c ((List.takeWhile_sublist _).mem hc)
  rw [← map_asciiByte_inj hstored hascii, ← takeWhile_padded hascii' (16 - p.name.length), ← hbytes,
    takeWhile_eq_iff (zero_notMem_map_asciiByte hascii hnul), Flash.Named, List.length_map,
    and_iff_right hlen]
  exact forall₂_congr fun i hi => by rw [hbyte i (by omega)]

/-- The blocks of an entry are those of its partition. -/
theorem Built.entry_blocks (hk : k < (manifest.listed placed).length) :
    ((be32 (flashOf output) (entryOffset k + Ffs.entryBaseOffset)).toNat * 0x1000 : ℤ) =
        (manifest.listed placed)[k].offset ∧
      ((be32 (flashOf output) (entryOffset k + Ffs.entrySizeOffset)).toNat * 0x1000 : ℤ) =
        (manifest.listed placed)[k].allocatedSize ∧
      (be32 (flashOf output) (entryOffset k + Ffs.entryActualOffset)).toNat =
        (manifest.listed placed)[k].actualSize := by
  have hk' : k < entries.length := h.entries_length ▸ hk
  have hentry := h.entry_of hk hk'
  have hslice := h.slice_tableEntry ho hg hk'
  rw [← hentry.length] at hslice
  have hfield : ∀ {n : ℕ}, n + 4 ≤ 128 →
      (be32 (flashOf output) (entryOffset k + n)).toNat = unpackU32 entries[k] n :=
    fun hn => unpackU32_of_slice hslice (hentry.length ▸ hn)
  rw [hfield (by decide), hfield (by decide), hfield (by decide)]
  refine ⟨?_, ?_, hentry.actual⟩
  · rw [eq_mul_of_fdiv hentry.offset_aligned hentry.base, hg.blockSize]
  · rw [eq_mul_of_fdiv hentry.size_aligned hentry.size, hg.blockSize]

theorem Built.goodRange (hk : k < (manifest.listed placed).length) :
    (flashOf output).GoodRange (entryOffset k) := by
  obtain ⟨hbase, hsize, hactual⟩ := h.entry_blocks ho hg hk
  obtain ⟨-, hpos, hin⟩ := h.inside _ (List.getElem_mem hk)
  rw [hg.size] at hin
  have hle := (h.entry_of hk (h.entries_length ▸ hk)).actual_le
  exact ⟨by omega, by omega, by omega⟩

/-- **The kernel reads the fields of a partition from its entry.** -/
theorem Built.partitionInfo_describes (hk : k < (manifest.listed placed).length) :
    Describes ((flashOf output).partitionInfo (entryOffset k)) (manifest.listed placed)[k] := by
  obtain ⟨hbase, hsize, hactual⟩ := h.entry_blocks ho hg hk
  have hin := (h.goodRange ho hg hk).inside
  have hk' : k < entries.length := h.entries_length ▸ hk
  have hentry := h.entry_of hk hk'
  have hslice := h.slice_tableEntry ho hg hk'
  have hbyte : ∀ i < 128, flashOf output (entryOffset k + i) = byteAt entries[k] i := by
    intro i hi
    rw [← hslice]
    exact (byteAt_slice hi).symm
  rw [← hentry.length] at hslice
  refine ⟨?_, ?_, ?_, ?_, ?_, ?_, ?_⟩
  · rw [Flash.partitionInfo, BitVec.toNat_setWidth, Flash.toNat_blocks, ← hbase]
    omega
  · rw [Flash.partitionInfo, Flash.toNat_blocks, ← hsize]
    exact Int.natCast_mul _ _
  · have hlt := (be32 (flashOf output) (entryOffset k + Ffs.entryActualOffset)).isLt
    rw [Flash.partitionInfo, BitVec.toNat_setWidth, ← hactual]
    omega
  · rw [← hentry.flags]
    exact unpackU32_of_slice hslice (by rw [hentry.length]; decide)
  · rw [← hentry.dataIntegrity]
    exact congrArg₂ (fun a b => (word16 a b).toNat) (hbyte 62 (by decide)) (hbyte 63 (by decide))
  · rw [← hentry.versionCheck]
    exact congrArg BitVec.toNat (hbyte 64 (by decide))
  · rw [← hentry.miscFlags]
    exact congrArg BitVec.toNat (hbyte 65 (by decide))

variable (hk : k < (manifest.listed placed).length) (hascii : ∀ c ∈ name, c.toNat < 128)
  (hnul : Char.ofNat 0 ∉ name) (hlen : name.length ≤ 15)
  (hname : storedName (manifest.listed placed)[k].name = name)
  (hfirst : ∀ j (hj : j < k),
    storedName ((manifest.listed placed).get ⟨j, hj.trans hk⟩).name ≠ name)

include hascii hnul hlen hname hfirst

/-- The scan for a name stops at the first entry that stores it. -/
theorem Built.firstEntry : (flashOf output).FirstEntry
    ((flashOf output).Named · (name.map asciiByte)) (flashOf output).entryCount
    (Pflash.tocOffset + Ffs.headerSize) (entryOffset k) := by
  have hcount := h.entries_length
  rw [(h.goodHeader ho hg).2]
  refine ⟨k, hk, rfl, fun j hj => h.goodEntry ho hg (by omega), fun j hj hnamed => ?_, ?_⟩
  · exact hfirst j hj ((h.named_iff ho hg (by omega) hascii hnul hlen).mp hnamed)
  · exact (h.named_iff ho hg hk hascii hnul hlen).mpr hname

/-- The kernel finds the first partition that stores the name. -/
theorem Built.findPartition_eq :
    ∃ info, (flashOf output).findPartition (name.map asciiByte) = some info ∧
      Describes info (manifest.listed placed)[k] := by
  refine ⟨_, (Flash.findPartition_eq_some (zero_notMem_map_asciiByte hascii hnul)).mpr
    ⟨(h.goodHeader ho hg).1, _, h.firstEntry ho hg hk hascii hnul hlen hname hfirst,
      h.goodRange ho hg hk, rfl⟩, h.partitionInfo_describes ho hg hk⟩

end Built

/-! ### Names -/

theorem storedName_of_notMem {name : Text} (h : Char.ofNat 0 ∉ name) : storedName name = name := by
  rw [storedName, List.takeWhile_eq_self_iff]
  exact fun c hc => decide_eq_true fun heq => h (heq ▸ hc)

theorem zero_notMem_storedName (name : Text) : Char.ofNat 0 ∉ storedName name := by
  intro h
  have hne := List.mem_takeWhile_imp h
  exact of_decide_eq_true hne rfl

/-- A manifest for the platform whose two partitions have the given names. -/
def lookupManifest (first second : Text) : Manifest :=
  ⟨⟨0x2000000, 0x1000, 0x1000, 0x8000, 0x10000, none⟩, [.plain first none, .plain second none]⟩

/-- The partitions of that manifest. -/
def lookupPartitions (first second : Text) : List Partition :=
  [tocPartition (lookupManifest first second).image 2,
    ⟨first, 0x10000, 0x1000, 0, none, [], 0, 0, 0, 0, 1⟩,
    ⟨second, 0x11000, 0x1000, 0, none, [], 0, 0, 0, 0, 1⟩]

theorem lookupManifest_builds :
    builtPartitions (lookupManifest ['A'] ['B']) (fun _ => none) =
        some (lookupPartitions ['A'] ['B']) ∧
      builtPartitions (lookupManifest ['A'] ['A']) (fun _ => none) =
        some (lookupPartitions ['A'] ['A']) := by
  decide +kernel

theorem lookupManifest_geometry (first second : Text) :
    PlatformGeometry (lookupManifest first second).image := ⟨rfl, rfl, rfl, rfl⟩

/-- **When a partition is found under its own name**, by the inspector and by the kernel: it
has no zero character in its name, and no entry before it is stored under that name. -/
theorem lookup_finds_partition_iff (manifest : Manifest) (sources : Sources)
    (hg : PlatformGeometry manifest.image) {result : ImageResult} {output : List Byte}
    (hbuild : buildImage manifest sources = .ok (result, output)) (k : ℕ)
    (hk : k < result.partitions.length) :
    ((∃ inspected, inspectImage output manifest.image.tocOffset = .ok inspected ∧
        inspected.partition result.partitions[k].name = some result.partitions[k].stored) ∧
      ∃ info, (flashOf output).findPartition (result.partitions[k].name.map asciiByte) =
          some info ∧ Describes info result.partitions[k]) ↔
    Char.ofNat 0 ∉ result.partitions[k].name ∧
      ∀ j (hj : j < k), storedName result.partitions[j].name ≠ result.partitions[k].name := by
  obtain ⟨placed, header, entries, hbuilt, rfl, rfl⟩ := buildImage_ok hbuild
  simp only at hk ⊢
  constructor
  · rintro ⟨⟨inspected, hinspected, hpartition⟩, -⟩
    obtain ⟨k', hk', hstored, hname, hfirst⟩ :=
      hbuilt.index_of_partition rfl hinspected hpartition
    obtain rfl := hbuilt.offset_inj hk hk' (congrArg Partition.offset hstored :)
    refine ⟨?_, hfirst⟩
    rw [← hname]
    exact zero_notMem_storedName _
  · rintro ⟨hnul, hfirst⟩
    have hname := storedName_of_notMem hnul
    constructor
    · refine ⟨_, hbuilt.inspectImage_eq, ?_⟩
      rw [ImageResult.partition, List.find?_eq_some_iff_getElem]
      refine ⟨beq_iff_eq.mpr hname, k, by rwa [List.length_map], ?_, fun j hj => ?_⟩
      · rw [List.getElem_map]
      · rw [List.getElem_map]
        exact (Bool.not_eq_true' _).mpr (beq_eq_false_iff_ne.mpr (hfirst j hj))
    · have hentry := hbuilt.entry_of hk (hbuilt.entries_length ▸ hk)
      obtain ⟨-, hascii, hlen⟩ := nameBytes_ok hentry.name
      exact hbuilt.findPartition_eq rfl hg hk hascii hnul hlen hname hfirst

/-- Both partitions of the manifest are found, and the table under its name. -/
theorem lookup_finds_partition_iff_sample : ∃ result output,
    buildImage (lookupManifest ['A'] ['B']) (fun _ => none) = .ok (result, output) ∧
      result.partitions = lookupPartitions ['A'] ['B'] ∧
      ∀ k (hk : k < result.partitions.length),
        (∃ inspected, inspectImage output 0x1000 = .ok inspected ∧
          inspected.partition result.partitions[k].name = some result.partitions[k].stored) ∧
        ∃ info, (flashOf output).findPartition (result.partitions[k].name.map asciiByte) =
          some info ∧ Describes info result.partitions[k] := by
  obtain ⟨result, output, hbuild, hpartitions⟩ :=
    buildImage_of_builtPartitions lookupManifest_builds.1
  refine ⟨result, output, hbuild, hpartitions, fun k hk => (lookup_finds_partition_iff _ _
    (lookupManifest_geometry _ _) hbuild k hk).mpr ?_⟩
  simp only [hpartitions] at hk ⊢
  have hall : ∀ k : Fin 3, Char.ofNat 0 ∉ (lookupPartitions ['A'] ['B'])[k].name ∧
      ∀ j < k, storedName (lookupPartitions ['A'] ['B'])[j].name ≠
        (lookupPartitions ['A'] ['B'])[k].name := by decide
  obtain ⟨hnul, hfirst⟩ := hall ⟨k, hk⟩
  exact ⟨hnul, fun j hj => hfirst ⟨j, Nat.lt_trans hj hk⟩ hj⟩

/-- The packer takes a name that is given twice, and the second partition is not found. -/
theorem lookup_hides_second_partition : ∃ result output p,
    buildImage (lookupManifest ['A'] ['A']) (fun _ => none) = .ok (result, output) ∧
      p ∈ result.partitions ∧
      (∀ inspected, inspectImage output 0x1000 = .ok inspected →
        inspected.partition p.name ≠ some p.stored) ∧
      ∀ info, (flashOf output).findPartition (p.name.map asciiByte) = some info →
        ¬ Describes info p := by
  obtain ⟨result, output, hbuild, hpartitions⟩ :=
    buildImage_of_builtPartitions lookupManifest_builds.2
  obtain ⟨placed, header, entries, hbuilt, rfl, rfl⟩ := buildImage_ok hbuild
  obtain ⟨-, rfl⟩ := List.cons.inj hpartitions
  have hname : storedName ['A'] = ['A'] := by decide
  have hascii : ∀ c ∈ ['A'], c.toNat < 128 := ascii_of_all (by decide)
  refine ⟨_, _, ⟨['A'], 0x11000, 0x1000, 0, none, [], 0, 0, 0, 0, 1⟩, hbuild, ?_, ?_, ?_⟩
  · decide
  · intro inspected hinspected
    have heq := Except.ok.inj (hbuilt.inspectImage_eq.symm.trans hinspected)
    rw [← heq]
    decide
  · intro info hinfo hdescribes
    obtain ⟨info', hinfo', hfirst⟩ := hbuilt.findPartition_eq rfl (lookupManifest_geometry _ _)
      (k := 1) (by decide) hascii (by decide) (by decide) hname fun j hj => by
        obtain rfl : j = 0 := by omega
        exact show storedName tocName ≠ ['A'] by decide
    obtain rfl := Option.some.inj (hinfo.symm.trans hinfo')
    have hbad : (0x10000 : ℤ) = 0x11000 := hfirst.flashOffset.symm.trans hdescribes.flashOffset
    exact absurd hbad (by decide)

end Pnor

end Jixia
