/-
Images that boot.

`scripts/build-m00-07-pflash.py` builds the image of the platform and checks it; Stage0
then looks for the base in it.  The builder asks for a base that is not empty; Stage0 also
asks that it lies behind the area that the layout keeps for the table.

* `buildImageCompat_ok` — what the builder has checked;
* `buildImageCompat_boots_iff` — when Stage0 boots the base that the manifest assigns;
* `packed_pages_read` — the pages that the kernel reads from an image.
-/
import Jixia.FlashReads
import Jixia.PnorLookup

namespace Jixia

open ByteBuffer Guarded

namespace Pnor

/-! ### The builder -/

/-- The limit of the area that Stage0 runs in. -/
def stage0Limit : ℕ := 0x1000

/-- `"JXBASE"`. -/
def baseText : Text := ['J', 'X', 'B', 'A', 'S', 'E']

theorem baseText_ascii : ∀ c ∈ baseText, c.toNat < 128 := ascii_of_all (by decide)

def compatSources (stage0 base : List Byte) (extended : Option (List Byte)) : Sources := fun key =>
  if key = ['s', 't', 'a', 'g', 'e', '0'] then some stage0
  else if key = ['b', 'a', 's', 'e'] then some base
  else if key = ['e', 'x', 't', 'e', 'n', 'd', 'e', 'd'] then extended
  else none

/-- `build_image_compat`, with the constants of the layout of the platform. -/
def buildImageCompat (manifest : Manifest) (stage0 base : List Byte)
    (extended : Option (List Byte)) : Result (ImageResult × List Byte) := do
  require (¬ stage0.length > stage0Limit) .stage0Limit
  let (result, output) ← buildImage manifest (compatSources stage0 base extended)
  require (result.imageSize = Pflash.size.toNat ∧ result.blockSize = Pflash.blockSize.toNat ∧
    result.tocOffset = Pflash.tocOffset ∧ result.tocSize = Pflash.tocSize.toNat) .layoutDrift
  require (¬ result.imageSize.fdiv result.blockSize ≠ Pflash.blockCount.toNat) .blockCount
  let inspected ← inspectImage output result.tocOffset
  require (∃ partition ∈ inspected.partition baseText, partition.actualSize ≠ 0) .noBasePartition
  return (result, output)

section Compat

variable {manifest : Manifest} {stage0 base : List Byte} {extended : Option (List Byte)}
  {result : ImageResult} {output : List Byte}

/-- What the builder has checked. -/
theorem buildImageCompat_ok (h : buildImageCompat manifest stage0 base extended =
    .ok (result, output)) :
    buildImage manifest (compatSources stage0 base extended) = .ok (result, output) ∧
      PlatformGeometry manifest.image ∧
      ∃ inspected partition, inspectImage output manifest.image.tocOffset = .ok inspected ∧
        inspected.partition baseText = some partition ∧ partition.actualSize ≠ 0 := by
  rw [buildImageCompat] at h
  obtain ⟨-, h⟩ := require_bind_ok.mp h
  obtain ⟨⟨result', output'⟩, hbuild, h⟩ := bind_ok.mp h
  obtain ⟨hgeometry, h⟩ := require_bind_ok.mp h
  obtain ⟨-, h⟩ := require_bind_ok.mp h
  obtain ⟨inspected, hinspected, h⟩ := bind_ok.mp h
  obtain ⟨⟨partition, hpartition, hactual⟩, h⟩ := require_bind_ok.mp h
  obtain ⟨rfl, rfl⟩ := Prod.mk.inj (pure_ok.mp h)
  obtain ⟨placed, header, entries, -, rfl, -⟩ := buildImage_ok hbuild
  exact ⟨hbuild, ⟨hgeometry.1, hgeometry.2.1, hgeometry.2.2.1, hgeometry.2.2.2⟩, inspected,
    partition, hinspected, hpartition, hactual⟩

/-! ### Stage0 on the image -/

/-- The image is in the flash. -/
def InFlash (mem : ByteMemory) (output : List Byte) : Prop :=
  ∀ i < output.length, Stage0.flashWindow mem i = byteAt output i

/-- The memory with the payload of a base in its place. -/
def withBase (mem : ByteMemory) (payload : List Byte) : ByteMemory := fun a =>
  if (a - Stage0.containedBaseAddress).toNat < payload.length then
    byteAt payload (a - Stage0.containedBaseAddress).toNat else mem a

/-- Payloads of one size that are copied to the same memory are the same. -/
theorem withBase_inj {mem : ByteMemory} {payload payload' : List Byte}
    (hlen : payload.length = payload'.length) (hle : payload.length ≤ 0x2000000)
    (h : withBase mem payload = withBase mem payload') :
    payload = payload' := by
  refine List.ext_getElem hlen fun i hi hi' => ?_
  have hback : Stage0.containedBaseAddress + BitVec.ofNat 64 i - Stage0.containedBaseAddress =
      BitVec.ofNat 64 i := by
    rw [BitVec.add_comm, BitVec.add_sub_cancel]
  have hnat : (BitVec.ofNat 64 i).toNat = i := by
    rw [BitVec.toNat_ofNat]
    omega
  have hbyte := congrFun h (Stage0.containedBaseAddress + BitVec.ofNat 64 i)
  simp only [withBase, hback, hnat] at hbyte
  rw [if_pos hi, if_pos hi', byteAt, byteAt, List.getD_eq_getElem _ _ hi,
    List.getD_eq_getElem _ _ hi'] at hbyte
  exact hbyte

section Built

variable {sources : Sources} {placed : List Partition} {header : List Byte}
  {entries : List (List Byte)} {mem : ByteMemory} {k : ℕ}
  (h : Built manifest sources placed header entries)
  (ho : output = outputBytes manifest.image header entries placed)
  (hg : PlatformGeometry manifest.image)

include h ho hg

theorem Built.agrees (hmem : InFlash mem output) :
    (flashOf output).Agrees (Stage0.flashWindow mem) := by
  intro i hi
  refine (hmem i ?_).symm
  rw [ho, h.length_output, hg.size]
  exact hi

/-- The range of a partition that Stage0 accepts. -/
theorem Built.bootRange_iff (hk : k < (manifest.listed placed).length) :
    Stage0.BootRange (flashOf output) (entryOffset k) ↔
      (manifest.listed placed)[k].actualSize ≠ 0 ∧
        0x10000 ≤ (manifest.listed placed)[k].offset := by
  obtain ⟨hbase, -, hactual⟩ := h.entry_blocks ho hg hk
  have hrange := h.goodRange ho hg hk
  have hin := hrange.inside
  have hle := hrange.actual_le
  constructor
  · intro hboot
    have hpos := hboot.actual_pos
    have hdata := hboot.data_le
    exact ⟨by omega, by omega⟩
  · rintro ⟨hpos, hdata⟩
    exact ⟨by omega, hle, by omega, by omega⟩

/-- What Stage0 does with the entry of a partition of the manifest. -/
theorem Built.bootFrom_eq (hmem : InFlash mem output) (hk : k < placed.length) :
    Stage0.bootFrom mem (flashOf output) (entryOffset (k + 1)) =
      .transfer (BitVec.ofInt 64 placed[k].offset) (BitVec.ofNat 64 placed[k].payload.length)
        (withBase mem placed[k].payload) := by
  have hp : placed[k] ∈ placed := List.getElem_mem hk
  obtain ⟨hbase, -, hactual⟩ := h.entry_blocks ho hg (show k + 1 < _ from Nat.succ_lt_succ hk)
  obtain ⟨hlen, hle⟩ := h.payload_le hp
  obtain ⟨hnonneg, -, hin⟩ := h.inside _ (List.mem_cons_of_mem _ hp)
  rw [hg.size] at hin
  simp only [List.getElem_cons_succ] at hbase hactual
  have hoffset : (be32 (flashOf output) (entryOffset (k + 1) + Ffs.entryBaseOffset)).toNat *
      0x1000 = placed[k].offset.toNat := by
    omega
  have hword : BitVec.ofNat 64 placed[k].offset.toNat = BitVec.ofInt 64 placed[k].offset := by
    rw [← BitVec.ofInt_natCast, Int.toNat_of_nonneg hnonneg]
  rw [Stage0.bootFrom, hoffset, hactual, hlen]
  simp only [hword]
  congr 1
  funext a
  by_cases ha : (a - Stage0.containedBaseAddress).toNat < placed[k].payload.length
  · have hslice := h.slice_segment
      (List.mem_cons_of_mem _ (List.mem_cons_of_mem _ (List.mem_map_of_mem hp)))
    simp only [Partition.segment, ← ho] at hslice
    rw [ByteMemory.copied, withBase, if_pos ha, if_pos ha, ← hslice, byteAt_slice ha]
    refine Eq.trans ?_ (hmem _ ?_)
    · rw [Stage0.flashWindow, Stage0.flashAddress, BitVec.ofNat_add, BitVec.ofNat_toNat,
        BitVec.setWidth_eq, BitVec.add_assoc]
    · rw [ho, h.length_output, hg.size, show (0x2000000 : ℤ).toNat = 0x2000000 from rfl]
      omega
  · rw [ByteMemory.copied, withBase, if_neg ha, if_neg ha]

/-- **Stage0 on an image of the platform**: it boots from the first partition that is stored
as `JXBASE`, if that lies behind the area of the table. -/
theorem Built.stage0_eq (hmem : InFlash mem output) (hk : k < placed.length)
    (hactual : placed[k].actualSize ≠ 0) (hname : storedName placed[k].name = baseText)
    (hfirst : ∀ j (hj : j < k), storedName placed[j].name ≠ baseText) :
    Stage0.stage0 mem 0 = if 0x10000 ≤ placed[k].offset then
      .transfer (BitVec.ofInt 64 placed[k].offset) (BitVec.ofNat 64 placed[k].payload.length)
        (withBase mem placed[k].payload) else .tocFail := by
  have hentry := h.firstEntry ho hg (Nat.succ_lt_succ hk) baseText_ascii (by decide) (by decide)
    hname fun j hj => by
      cases j with
      | zero => exact show storedName tocName ≠ baseText by decide
      | succ j => exact hfirst j (Nat.lt_of_succ_lt_succ hj)
  have hrange := h.bootRange_iff ho hg (Nat.succ_lt_succ hk)
  simp only [List.getElem_cons_succ] at hrange
  have hagrees := h.agrees ho hg hmem
  by_cases hdata : 0x10000 ≤ placed[k].offset
  · rw [if_pos hdata]
    exact (Stage0.stage0_eq_transfer hagrees).mpr ⟨_, ⟨(h.goodHeader ho hg).1, hentry,
      hrange.mpr ⟨hactual, hdata⟩⟩, h.bootFrom_eq ho hg hmem hk⟩
  · rw [if_neg hdata]
    rcases Stage0.stage0_cases hagrees with ⟨entry, hboots, -⟩ | ⟨-, heq⟩
    · rw [hboots.first.eq hentry] at hboots
      exact absurd (hrange.mp hboots.range).2 hdata
    · exact heq

end Built

/-! An image with a base of three bytes, for a manifest with the given data offset. -/

def bootManifest (dataOffset : ℤ) : Manifest :=
  ⟨⟨0x2000000, 0x1000, 0x1000, 0x8000, dataOffset, none⟩,
    [.plain baseText (some ['b', 'a', 's', 'e'])]⟩

def bootPartitions (dataOffset : ℤ) : List Partition :=
  [tocPartition (bootManifest dataOffset).image 1,
    ⟨baseText, dataOffset, 0x1000, 3, some ['b', 'a', 's', 'e'], [1, 2, 3], 0, 0, 0, 0, 1⟩]

theorem bootManifest_builds :
    builtPartitions (bootManifest 0x10000) (compatSources [0] [1, 2, 3] none) =
        some (bootPartitions 0x10000) ∧
      builtPartitions (bootManifest 0x9000) (compatSources [0] [1, 2, 3] none) =
        some (bootPartitions 0x9000) := by
  decide +kernel

/-- A memory with the image in the flash. -/
def flashMemory (output : List Byte) : ByteMemory := fun a => byteAt output (a - Pflash.base).toNat

theorem inFlash_flashMemory {output : List Byte} (h : output.length ≤ 2 ^ 64) :
    InFlash (flashMemory output) output := by
  intro i hi
  rw [Stage0.flashWindow, flashMemory, BitVec.add_comm, BitVec.add_sub_cancel, BitVec.toNat_ofNat,
    Nat.mod_eq_of_lt (by omega)]

/-- The builder accepts an image of the platform whose base is not empty. -/
theorem buildImageCompat_of_buildImage (hstage0 : stage0.length ≤ stage0Limit)
    (hg : PlatformGeometry manifest.image)
    (hbuild : buildImage manifest (compatSources stage0 base extended) = .ok (result, output))
    (hbase : ∃ p ∈ (result.partitions.map Partition.stored).find? (·.name == baseText),
      p.actualSize ≠ 0) :
    buildImageCompat manifest stage0 base extended = .ok (result, output) := by
  obtain ⟨placed, header, entries, hbuilt, rfl, rfl⟩ := buildImage_ok hbuild
  rw [buildImageCompat]
  refine require_bind_ok.mpr ⟨Nat.not_lt.mpr hstage0, bind_ok.mpr ⟨_, hbuild, ?_⟩⟩
  refine require_bind_ok.mpr ⟨⟨hg.size, hg.blockSize, hg.tocOffset, hg.tocSize⟩, ?_⟩
  refine require_bind_ok.mpr ⟨?_, bind_ok.mpr ⟨_, hbuilt.inspectImage_eq, ?_⟩⟩
  · simp only [hg.size, hg.blockSize]
    decide
  · exact require_bind_ok.mpr ⟨hbase, rfl⟩

theorem bootManifest_accepted {dataOffset : ℤ}
    (h : builtPartitions (bootManifest dataOffset) (compatSources [0] [1, 2, 3] none) =
      some (bootPartitions dataOffset)) :
    ∃ result output, buildImageCompat (bootManifest dataOffset) [0] [1, 2, 3] none =
        .ok (result, output) ∧ result.partitions = bootPartitions dataOffset ∧
      output.length = 0x2000000 := by
  obtain ⟨result, output, hbuild, hpartitions⟩ := buildImage_of_builtPartitions h
  refine ⟨result, output, buildImageCompat_of_buildImage (by decide) ⟨rfl, rfl, rfl, rfl⟩ hbuild ?_,
    hpartitions, ?_⟩
  · rw [hpartitions]
    exact ⟨_, rfl, Nat.succ_ne_zero 2⟩
  · obtain ⟨placed, header, entries, hbuilt, -, rfl⟩ := buildImage_ok hbuild
    exact hbuilt.length_output

/-- The first partition that is stored as `JXBASE`. -/
theorem Built.base_of_inspected {sources : Sources} {placed : List Partition}
    {header : List Byte} {entries : List (List Byte)} {inspected : ImageResult}
    {partition : Partition} (h : Built manifest sources placed header entries)
    (hinspected : inspectImage (outputBytes manifest.image header entries placed)
      manifest.image.tocOffset = .ok inspected)
    (hpartition : inspected.partition baseText = some partition) :
    ∃ k, ∃ hk : k < placed.length, placed[k].actualSize = partition.actualSize ∧
      storedName placed[k].name = baseText ∧
      ∀ j (hj : j < k), storedName placed[j].name ≠ baseText := by
  obtain ⟨k, hk, rfl, hname, hfirst⟩ := h.index_of_partition rfl hinspected hpartition
  cases k with
  | zero => exact absurd hname (show storedName tocName ≠ baseText by decide)
  | succ k =>
    refine ⟨k, Nat.lt_of_succ_lt_succ hk, rfl, hname, fun j hj => ?_⟩
    exact hfirst (j + 1) (Nat.succ_lt_succ hj)

/-- A partition that is named `JXBASE`. -/
theorem Built.named_base {sources : Sources} {placed : List Partition} {header : List Byte}
    {entries : List (List Byte)} {p : Partition}
    (h : Built manifest sources placed header entries) (hg : PlatformGeometry manifest.image)
    (hp : (manifest.listed placed).find? (·.name == baseText) =
      some p) : p ∈ placed ∧ p.name = baseText ∧ p.payload.length ≤ 0x2000000 := by
  have hname : p.name = baseText := by
    have hfound := List.find?_some hp
    exact beq_iff_eq.mp hfound
  rcases List.mem_cons.mp (List.mem_of_find?_eq_some hp) with rfl | hmem
  · exact absurd hname (show tocName ≠ baseText by decide)
  · obtain ⟨-, hle⟩ := h.payload_le hmem
    obtain ⟨hnonneg, -, hin⟩ := h.inside _ (List.mem_cons_of_mem _ hmem)
    rw [hg.size] at hin
    exact ⟨hmem, hname, by omega⟩

/-- **When Stage0 boots the base of the manifest.**  Stage0 takes the first partition `q` that
is stored as `JXBASE`.  It boots the partition that is named so, and copies its payload and
nothing more, exactly if that is `q` and `q` lies behind the area of the table; it copies the
right bytes exactly if `q` lies there and has the same payload. -/
theorem buildImageCompat_boots_iff (hbuild : buildImageCompat manifest stage0 base extended =
      .ok (result, output)) {mem : ByteMemory} (hmem : InFlash mem output) :
    ∃ q, result.partitions.find? (storedName ·.name == baseText) = some q ∧
      ((∃ p, result.partition baseText = some p ∧ Stage0.stage0 mem 0 = .transfer
          (BitVec.ofInt 64 p.offset) (BitVec.ofNat 64 p.payload.length) (withBase mem p.payload)) ↔
        q.name = baseText ∧ 0x10000 ≤ q.offset) ∧
      ((∃ p offset, result.partition baseText = some p ∧ Stage0.stage0 mem 0 = .transfer
          offset (BitVec.ofNat 64 p.payload.length) (withBase mem p.payload)) ↔
        (∃ p, result.partition baseText = some p ∧ p.payload = q.payload) ∧
          0x10000 ≤ q.offset) := by
  obtain ⟨hbuild, hg, inspected, partition, hinspected, hpartition, hactual⟩ :=
    buildImageCompat_ok hbuild
  obtain ⟨placed, header, entries, hbuilt, rfl, rfl⟩ := buildImage_ok hbuild
  obtain ⟨k, hk, hsize, hname, hfirst⟩ := hbuilt.base_of_inspected hinspected hpartition
  have hstage := hbuilt.stage0_eq rfl hg hmem hk (hsize ▸ hactual) hname hfirst
  have hq : placed[k] ∈ placed := List.getElem_mem hk
  obtain ⟨-, hle⟩ := hbuilt.payload_le hq
  obtain ⟨hnonneg, -, hin⟩ := hbuilt.inside _ (List.mem_cons_of_mem _ hq)
  rw [hg.size] at hin
  have hk' : k + 1 < (manifest.listed placed).length :=
    Nat.succ_lt_succ hk
  -- Before `q` no partition is stored as `JXBASE`, and so none is named so.
  have hbefore : ∀ j (hj : j < k + 1),
      storedName (manifest.listed placed)[j].name ≠ baseText := by
    intro j hj
    cases j with
    | zero => exact show storedName tocName ≠ baseText by decide
    | succ j => exact hfirst j (Nat.lt_of_succ_lt_succ hj)
  refine ⟨placed[k], ?_, ⟨?_, ?_⟩, ?_, ?_⟩
  · rw [List.find?_eq_some_iff_getElem]
    refine ⟨beq_iff_eq.mpr hname, k + 1, hk', rfl, fun j hj => ?_⟩
    exact (Bool.not_eq_true' _).mpr (beq_eq_false_iff_ne.mpr (hbefore j hj))
  · rintro ⟨p, hp, hboot⟩
    obtain ⟨hmem', hpname, -⟩ := hbuilt.named_base hg hp
    obtain ⟨hnonneg', hpos', hin'⟩ := hbuilt.inside _ (List.mem_cons_of_mem _ hmem')
    rw [hg.size] at hin'
    rw [hstage] at hboot
    split at hboot
    · rename_i hdata
      injection hboot with hoffset
      have hsame : p.offset = placed[k].offset := by
        have := congrArg BitVec.toNat hoffset
        have := toNat_ofInt (n := 64) (v := p.offset) (by omega) (by omega)
        have := toNat_ofInt (n := 64) (v := placed[k].offset) (by omega) (by omega)
        omega
      obtain ⟨i, hi, rfl⟩ := List.getElem_of_mem hmem'
      obtain rfl := Nat.succ.inj (hbuilt.offset_inj (j := i + 1) (k := k + 1)
        (Nat.succ_lt_succ hi) hk' hsame)
      exact ⟨hpname, hdata⟩
    · exact Stage0Result.noConfusion hboot
  · rintro ⟨hqname, hdata⟩
    refine ⟨placed[k], ?_, by rw [hstage, if_pos hdata]⟩
    rw [ImageResult.partition, List.find?_eq_some_iff_getElem]
    refine ⟨beq_iff_eq.mpr hqname, k + 1, hk', rfl, fun j hj => ?_⟩
    refine (Bool.not_eq_true' _).mpr (beq_eq_false_iff_ne.mpr fun heq => hbefore j hj ?_)
    rw [heq]
    decide
  · rintro ⟨p, offset, hp, hboot⟩
    obtain ⟨-, -, hlen⟩ := hbuilt.named_base hg hp
    rw [hstage] at hboot
    split at hboot
    · rename_i hdata
      injection hboot with _ hsizes hmemory
      have hsame : p.payload.length = placed[k].payload.length := by
        have := congrArg BitVec.toNat hsizes
        rw [BitVec.toNat_ofNat, BitVec.toNat_ofNat] at this
        omega
      exact ⟨⟨p, hp, withBase_inj hsame hlen hmemory.symm⟩, hdata⟩
    · exact Stage0Result.noConfusion hboot
  · rintro ⟨⟨p, hp, hpayload⟩, hdata⟩
    exact ⟨p, _, hp, by rw [hstage, if_pos hdata, hpayload]⟩

/-- The base of the sample manifest is booted. -/
theorem buildImageCompat_boots_iff_sample : ∃ result output p,
    buildImageCompat (bootManifest 0x10000) [0] [1, 2, 3] none = .ok (result, output) ∧
      result.partition baseText = some p ∧
      Stage0.stage0 (flashMemory output) 0 = .transfer (BitVec.ofInt 64 p.offset)
        (BitVec.ofNat 64 p.payload.length) (withBase (flashMemory output) p.payload) := by
  obtain ⟨result, output, hbuild, hpartitions, hlen⟩ := bootManifest_accepted bootManifest_builds.1
  obtain ⟨q, hq, hiff, -⟩ := buildImageCompat_boots_iff hbuild (inFlash_flashMemory (by omega))
  rw [hpartitions] at hq
  obtain rfl := Option.some.inj (hq.symm.trans
    (show (bootPartitions 0x10000).find? _ = some _ from rfl))
  obtain ⟨p, hp, hboot⟩ := hiff.mpr ⟨rfl, by decide⟩
  exact ⟨result, output, p, hbuild, hp, hboot⟩

/-- The builder takes a base in the area of the table, and Stage0 does not boot it. -/
theorem buildImageCompat_accepts_unbootable : ∃ result output,
    buildImageCompat (bootManifest 0x9000) [0] [1, 2, 3] none = .ok (result, output) ∧
      Stage0.stage0 (flashMemory output) 0 = .tocFail := by
  obtain ⟨result, output, hcompat, hpartitions, hlen⟩ :=
    bootManifest_accepted bootManifest_builds.2
  obtain ⟨hbuild, hg, -⟩ := buildImageCompat_ok hcompat
  have hmem : InFlash (flashMemory output) output := inFlash_flashMemory (by omega)
  obtain ⟨placed, header, entries, hbuilt, rfl, rfl⟩ := buildImage_ok hbuild
  obtain ⟨-, rfl⟩ := List.cons.inj hpartitions
  refine ⟨_, _, hcompat, (hbuilt.stage0_eq rfl hg hmem (k := 0) (by decide) (by decide)
    (by decide) fun j hj => absurd hj (Nat.not_lt_zero j)).trans ?_⟩
  exact if_neg (by decide)

end Compat

/-! ### Paging -/

/-- `"JXEXT"`. -/
def extendedText : Text := ['J', 'X', 'E', 'X', 'T']

/-- **What is packed is what is paged in.**  With an image of the platform in the flash,
`read_extended_page` copies the whole pages of the payload of the first partition that is stored
as `JXEXT`, and nothing else; without such a partition there is nothing to copy. -/
theorem packed_pages_read {manifest : Manifest} {sources : Sources} {result : ImageResult}
    {output : List Byte} {mem : ByteMemory}
    (hbuild : buildImage manifest sources = .ok (result, output))
    (hg : PlatformGeometry manifest.image) (hmem : InFlash mem output)
    (page : Word) {d : Word} (hd : d.toNat % 4096 = 0) :
    (∀ p, result.partitions.find? (storedName ·.name == extendedText) = some p →
      if (page.toNat + 1) * 4096 ≤ p.payload.length then
        ∃ memory, FlashReads.readExtendedPage mem page d = some (true, memory) ∧
          (∀ j < 4096, memory (d + BitVec.ofNat 64 j) = byteAt p.payload (4096 * page.toNat + j)) ∧
          ∀ a, (∀ j < 4096, a ≠ d + BitVec.ofNat 64 j) → memory a = mem a
      else FlashReads.readExtendedPage mem page d = some (false, mem)) ∧
    (result.partitions.find? (storedName ·.name == extendedText) = none →
      FlashReads.readExtendedPage mem page d = some (false, mem)) := by
  obtain ⟨placed, header, entries, hbuilt, rfl, rfl⟩ := buildImage_ok hbuild
  have hagrees : (Stage0.flashWindow mem).findPartition Flash.extendedPartition = _ :=
    Flash.findPartition_of_agrees (hbuilt.agrees rfl hg hmem)
  refine ⟨fun p hp => ?_, fun hnone => ?_⟩
  · obtain ⟨hname, k, hk, rfl, hfirst⟩ := List.find?_eq_some_iff_getElem.mp hp
    simp only at hk hname hfirst ⊢
    obtain ⟨info, hfound, hinfo⟩ := hbuilt.findPartition_eq rfl hg hk (ascii_of_all (by decide))
      (by decide) (by decide) (beq_iff_eq.mp hname) fun j hj heq =>
        Bool.eq_false_iff.mp ((Bool.not_eq_true' _).mp (hfirst j hj)) (beq_iff_eq.mpr heq)
    replace hfound := hagrees.trans hfound
    have hoffset := hinfo.flashOffset
    have hsize := hinfo.actualSize
    -- The table has another name, so the partition is one of the manifest.
    cases k with
    | zero => exact absurd (beq_iff_eq.mp hname) (show storedName tocName ≠ extendedText by decide)
    | succ k =>
      rw [List.length_cons] at hk
      have hp : placed[k] ∈ placed := List.getElem_mem (by omega)
      obtain ⟨hlen, hle⟩ := hbuilt.payload_le hp
      obtain ⟨-, -, hin⟩ := hbuilt.inside _ (List.mem_cons_of_mem _ hp)
      simp only [List.getElem_cons_succ] at hoffset hsize ⊢
      rcases FlashReads.readExtendedPage_eq mem page hd with
        ⟨info', hfound', hfits, hread⟩ | ⟨hno, hread⟩
      · cases hfound.symm.trans hfound'
        obtain ⟨hpage, hrest⟩ := mem.copied_bytes
          (Stage0.flashAddress (info.flashOffset.toNat + 4096 * page.toNat)) d
          (show 4096 ≤ 2 ^ 64 by decide)
        rw [if_pos (by omega)]
        refine ⟨_, hread, fun j hj => (hpage j hj).trans ?_, hrest⟩
        have hslice := hbuilt.slice_segment
          (List.mem_cons_of_mem _ (List.mem_cons_of_mem _ (List.mem_map_of_mem hp)))
        simp only [Partition.segment, ← hoffset, Int.toNat_natCast] at hslice
        rw [← hslice, byteAt_slice (by omega), ← Nat.add_assoc, Stage0.flashAddress_add]
        refine hmem _ ?_
        rw [hbuilt.length_output]
        omega
      · rw [if_neg fun hfits => hno ⟨_, hfound, by omega⟩]
        exact hread
  · rcases FlashReads.readExtendedPage_eq mem page hd with ⟨info, hfound, -⟩ | ⟨-, hread⟩
    · -- An entry with the name would be that of a partition that is stored under it.
      rw [hagrees, Flash.findPartition_eq_some (by decide)] at hfound
      obtain ⟨-, entry, ⟨k, hk, rfl, -, -, hnamed⟩, -⟩ := hfound
      rw [(hbuilt.goodHeader rfl hg).2] at hk
      have hstored : storedName (manifest.listed placed)[k].name = extendedText :=
        (hbuilt.named_iff rfl hg hk (ascii_of_all (by decide)) (by decide) (by decide)).mp hnamed
      exact absurd (beq_iff_eq.mpr hstored) (List.find?_eq_none.mp hnone _ (List.getElem_mem _))
    · exact hread

/-- An image with one page to read. -/
def pagedManifest : Manifest :=
  ⟨(bootManifest 0x10000).image, [.plain extendedText (some ['e', 'x', 't'])]⟩

/-- The page holds what was packed. -/
theorem packed_pages_read_first : ∃ result output memory,
    buildImage pagedManifest (fun _ => some (List.replicate 4096 7)) = .ok (result, output) ∧
      FlashReads.readExtendedPage (flashMemory output) 0 0x80001000 = some (true, memory) ∧
      ∀ j < 4096, memory (0x80001000 + BitVec.ofNat 64 j) = 7 := by
  have hbuilds : (builtPartitions pagedManifest (fun _ => some (List.replicate 4096 7))).any
      (fun ps => (ps.find? (storedName ·.name == extendedText)).any fun p =>
        decide (4096 ≤ p.payload.length) && p.payload.all (· == 7)) = true := by
    decide +kernel
  obtain ⟨partitions, hbuilt, hpage⟩ := (Option.any_eq_true _ _).mp hbuilds
  obtain ⟨p, hp, hpayload⟩ := (Option.any_eq_true _ _).mp hpage
  obtain ⟨hlen, hbytes⟩ := Bool.and_eq_true_iff.mp hpayload
  have hlen := of_decide_eq_true hlen
  obtain ⟨result, output, hbuild, rfl⟩ := buildImage_of_builtPartitions hbuilt
  have houtput : output.length = 0x2000000 := by
    obtain ⟨placed, header, entries, hbuilt, -, rfl⟩ := buildImage_ok hbuild
    exact hbuilt.length_output
  have hread := (packed_pages_read hbuild ⟨rfl, rfl, rfl, rfl⟩ (inFlash_flashMemory (by omega))
    0 (d := 0x80001000) (by decide)).1 p hp
  rw [if_pos (by exact hlen)] at hread
  obtain ⟨memory, hread, hcopied, -⟩ := hread
  refine ⟨result, output, memory, hbuild, hread, fun j hj => (hcopied j hj).trans ?_⟩
  have hj : 0 + j < p.payload.length := by omega
  show byteAt p.payload (0 + j) = 7
  rw [byteAt, List.getD_eq_getElem _ _ hj]
  exact beq_iff_eq.mp (List.all_eq_true.mp hbytes _ (List.getElem_mem hj))

end Pnor

end Jixia
