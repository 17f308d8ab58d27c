/-
What the inspector reads from an image that the packer wrote.

* `Built.inspectEntry_eq`, `Built.inspectImage_eq` — the entries and the table, read back;
* `inspectImage_buildImage` — the round trip.
-/
import Jixia.PnorLayout

namespace Jixia

open ByteBuffer Guarded

namespace Pnor

section Built

variable {manifest : Manifest} {sources : Sources} {placed : List Partition} {header : List Byte}
  {entries : List (List Byte)}

/-! ### The inspector on the image -/

theorem Built.length_output (h : Built manifest sources placed header entries) :
    (outputBytes manifest.image header entries placed).length = manifest.image.size.toNat := by
  rw [outputBytes, length_writeAll, List.length_replicate]
  rw [List.length_replicate]
  exact h.segment_inside

theorem Built.slice_segment (h : Built manifest sources placed header entries) {s : Segment}
    (hs : s ∈ imageSegments manifest.image header entries placed) :
    slice (outputBytes manifest.image header entries placed) s.start s.data.length = s.data := by
  refine slice_writeAll ?_ h.segments_apart hs
  rw [List.length_replicate]
  exact h.segment_inside

/-- An entry of a table, by its index. -/
theorem slice_flatten {parts : List (List Byte)} {n : ℕ} (hlen : ∀ part ∈ parts, part.length = n)
    {k : ℕ} (hk : k < parts.length) : slice parts.flatten (n * k) n = parts[k] := by
  induction parts generalizing k with
  | nil => exact absurd hk (Nat.not_lt_zero k)
  | cons part rest ih =>
    have hpart := hlen part List.mem_cons_self
    rw [List.flatten_cons]
    cases k with
    | zero =>
      rw [Nat.mul_zero, slice, List.drop_zero, ← hpart, List.take_left]
      rfl
    | succ k =>
      have hdrop : (part ++ rest.flatten).drop (n * (k + 1)) = rest.flatten.drop (n * k) := by
        rw [Nat.mul_succ, Nat.add_comm, ← List.drop_drop, ← hpart, List.drop_left]
      rw [slice, hdrop]
      exact ih (fun p hp => hlen p (List.mem_cons_of_mem _ hp)) (Nat.lt_of_succ_lt_succ hk)

/-- What the inspector reads of a partition: its name up to the first zero, and no source
or payload. -/
def Partition.stored (partition : Partition) : Partition :=
  { partition with name := storedName partition.name, sourceKey := none, payload := [] }

theorem Built.slice_entry (h : Built manifest sources placed header entries) {k : ℕ}
    (hk : k < entries.length) :
    slice (outputBytes manifest.image header entries placed)
      (manifest.image.tocOffset.toNat + ffsHeaderSize + ffsEntrySize * k) ffsEntrySize =
        entries[k] := by
  have htable := h.slice_segment (List.mem_cons_of_mem _ List.mem_cons_self)
  have hlen := length_flatten_entries h.entries_of
  have hcount := h.entries_length
  have hentry : ∀ entry ∈ entries, entry.length = ffsEntrySize := by
    intro entry hentry
    obtain ⟨j, hj, rfl⟩ := List.getElem_of_mem hentry
    exact (h.entry_of (hcount ▸ hj) hj).length
  rw [← slice_flatten hentry hk]
  simp only at htable
  rw [← htable]
  refine (slice_slice ?_).symm
  rw [hlen, ← hcount]
  have hle : ffsEntrySize * k + ffsEntrySize = ffsEntrySize * (k + 1) := rfl
  rw [hle, Nat.mul_comm entries.length]
  exact Nat.mul_le_mul_left _ hk

/-- The inspector reads an entry back. -/
theorem Built.inspectEntry_eq (h : Built manifest sources placed header entries) {k : ℕ}
    (hk : k < (manifest.listed placed).length) {blockSize : ℕ}
    (hblock : (blockSize : ℤ) = manifest.image.blockSize) :
    inspectEntry (outputBytes manifest.image header entries placed) manifest.image.tocOffset
      blockSize k = .ok (manifest.listed placed)[k].stored := by
  have hcount := h.entries_length
  have hk' : k < entries.length := hcount ▸ hk
  have hentry := h.entry_of hk hk'
  obtain ⟨-, -, hin⟩ := h.inside _ (List.getElem_mem hk)
  have htoc : 0 ≤ manifest.image.tocOffset := (h.inside _ List.mem_cons_self).1
  have hlen := h.length_output
  have hsize := h.size_pos
  have hslice := h.slice_entry hk'
  have hread : getSlice (outputBytes manifest.image header entries placed)
      (manifest.image.tocOffset + ffsHeaderSize + k * ffsEntrySize)
      (manifest.image.tocOffset + ffsHeaderSize + k * ffsEntrySize + ffsEntrySize) =
        entries[k] := by
    have hstart : (manifest.image.tocOffset + ffsHeaderSize + k * ffsEntrySize).toNat =
        manifest.image.tocOffset.toNat + ffsHeaderSize + ffsEntrySize * k := by
      rw [Nat.mul_comm]
      omega
    have hnonneg : 0 ≤ manifest.image.tocOffset + ffsHeaderSize + (k : ℤ) * ffsEntrySize :=
      Int.add_nonneg (Int.add_nonneg htoc (Int.natCast_nonneg _))
        (Int.mul_nonneg (Int.natCast_nonneg _) (Int.natCast_nonneg _))
    rw [getSlice_eq_slice hnonneg, hstart, hslice]
    rw [hstart]
    by_contra hover
    have := congrArg List.length hslice
    have hpos : 0 < ffsEntrySize := by decide
    rw [hentry.length, slice, List.length_take, List.length_drop] at this
    omega
  generalize (manifest.listed placed)[k] = p at *
  generalize entries[k] = entry at *
  have hoffset : ((unpackU32 entry 16 * blockSize : ℕ) : ℤ) = p.offset := by
    rw [eq_mul_of_fdiv hentry.offset_aligned hentry.base, ← hblock]
    exact Int.natCast_mul _ _
  have hallocated : ((unpackU32 entry 20 * blockSize : ℕ) : ℤ) = p.allocatedSize := by
    rw [eq_mul_of_fdiv hentry.size_aligned hentry.size, ← hblock]
    exact Int.natCast_mul _ _
  have hactual := hentry.actual_le
  rw [inspectEntry]
  simp only [hread]
  have hwords : entry.length % 4 = 0 := by
    rw [hentry.length]
    rfl
  refine require_bind_ok.mpr ⟨not_not.mpr hentry.length, bind_ok.mpr
    ⟨0, xorWords_ok.mpr ⟨hwords, hentry.checksum⟩, ?_⟩⟩
  refine require_bind_ok.mpr ⟨not_not.mpr rfl, bind_ok.mpr ⟨_, entryName_eq hentry.name, ?_⟩⟩
  refine require_bind_ok.mpr ⟨?_, pure_ok.mpr ?_⟩
  · rw [hentry.actual]
    omega
  · rw [hoffset, hallocated, hentry.actual, hentry.flags, hentry.dataIntegrity, hentry.versionCheck,
      hentry.miscFlags, hentry.partitionType]
    rfl

/-- The inspector reads the whole table back. -/
theorem Built.inspectImage_eq (h : Built manifest sources placed header entries) :
    inspectImage (outputBytes manifest.image header entries placed) manifest.image.tocOffset =
      .ok ⟨manifest.image.size, manifest.image.blockSize, manifest.image.tocOffset,
        manifest.image.tocSize,
        (manifest.listed placed).map Partition.stored⟩ := by
  have hheader := h.header_of
  have htoc : 0 ≤ manifest.image.tocOffset := (h.inside _ List.mem_cons_self).1
  have hlen := h.length_output
  have hsize := h.size_pos
  have hslice := h.slice_segment List.mem_cons_self
  simp only [hheader.length] at hslice
  have hinside := h.segment_inside _ List.mem_cons_self
  simp only [Segment.stop, hheader.length] at hinside
  have hread : getSlice (outputBytes manifest.image header entries placed) manifest.image.tocOffset
      (manifest.image.tocOffset + ffsHeaderSize) = header := by
    rw [getSlice_eq_slice htoc (by omega), hslice]
  have hcount : ((unpackU32 header 24 * unpackU32 header 20 : ℕ) : ℤ) = manifest.image.size := by
    rw [eq_mul_of_fdiv h.size_aligned hheader.blockCount, ← hheader.blockSize]
    exact Int.natCast_mul _ _
  have htocSize : ((unpackU32 header 8 * unpackU32 header 20 : ℕ) : ℤ) =
      manifest.image.tocSize := by
    rw [eq_mul_of_fdiv h.tocSize_aligned hheader.tableBlocks, ← hheader.blockSize]
    exact Int.natCast_mul _ _
  have hfit := h.entries_fit
  have hwords : header.length % 4 = 0 := by
    rw [hheader.length]
    rfl
  rw [inspectImage]
  simp only [hread, hheader.magic, hheader.version, hheader.entrySize, hheader.entryCount]
  refine require_bind_ok.mpr ⟨by omega, bind_ok.mpr
    ⟨0, xorWords_ok.mpr ⟨hwords, hheader.checksum⟩, ?_⟩⟩
  refine require_bind_ok.mpr ⟨not_not.mpr rfl, require_bind_ok.mpr ⟨by simp, ?_⟩⟩
  refine require_bind_ok.mpr ⟨by omega, require_bind_ok.mpr ⟨by omega, ?_⟩⟩
  refine bind_ok.mpr ⟨(manifest.listed placed).map Partition.stored,
    mapM_of_forall₂ (List.forall₂_iff_get.mpr ⟨?_, ?_⟩), pure_ok.mpr ?_⟩
  · rw [List.length_range, List.length_map, List.length_cons]
  · intro k hk hk'
    rw [List.length_map] at hk'
    simp only [List.get_eq_getElem, List.getElem_range, List.getElem_map]
    exact h.inspectEntry_eq hk' hheader.blockSize
  · rw [hlen, htocSize, hheader.blockSize, Int.toNat_of_nonneg (by omega)]

end Built

/-! ### The round trip -/

/-- A section with every default. -/
def PartitionSpec.plain (name : Text) (source : Option Text) : PartitionSpec :=
  ⟨name, source, false, none, none, none, none, [], false, false, false⟩

/-- A small image: one partition of two bytes and a reserved one of a block. -/
def sampleManifest : Manifest :=
  ⟨⟨1024, 64, 64, 448, 512, none⟩,
    [.plain ['A'] (some ['b', 'a', 's', 'e']), .plain ['B'] none]⟩

def sampleSources : Sources := fun key =>
  if key = ['b', 'a', 's', 'e'] then some [1, 2] else none

/-- The partitions of a build, when it succeeds. -/
def builtPartitions (manifest : Manifest) (sources : Sources) : Option (List Partition) :=
  match buildImage manifest sources with
  | .ok (result, _) => some result.partitions
  | .error _ => none

theorem buildImage_of_builtPartitions {manifest : Manifest} {sources : Sources}
    {partitions : List Partition} (h : builtPartitions manifest sources = some partitions) :
    ∃ result output, buildImage manifest sources = .ok (result, output) ∧
      result.partitions = partitions := by
  rw [builtPartitions] at h
  cases hbuild : buildImage manifest sources with
  | error e =>
    rw [hbuild] at h
    cases h
  | ok pair =>
    rw [hbuild] at h
    exact ⟨pair.1, pair.2, rfl, Option.some.inj h⟩

theorem sampleManifest_builds : (builtPartitions sampleManifest sampleSources).isSome = true := by
  decide +kernel

/-- **The inspector reads back what the packer wrote**: the geometry and every entry; the
ranges of the partitions do not meet and lie in the image; each payload is in its place,
the table is whole, and everything else is the fill byte. -/
theorem inspectImage_buildImage (manifest : Manifest) (sources : Sources) {result : ImageResult}
    {output : List Byte} (h : buildImage manifest sources = .ok (result, output)) :
    inspectImage output manifest.image.tocOffset =
        .ok { result with partitions := result.partitions.map Partition.stored } ∧
      result.tocOffset = manifest.image.tocOffset ∧ (output.length : ℤ) = result.imageSize ∧
      result.partitions.Pairwise (fun p q => p.interval.Apart q.interval) ∧
      (∀ p ∈ result.partitions, 0 ≤ p.offset ∧ p.offset < p.offset + p.allocatedSize ∧
        p.offset + p.allocatedSize ≤ result.imageSize) ∧
      ∃ placed header entries,
        result.partitions = tocPartition manifest.image placed.length :: placed ∧
        List.Forall₂ (Assigned sources manifest.image.fillByte)
          (manifest.partitions.filter fun spec => !spec.absent sources) placed ∧
        (∀ p ∈ placed, slice output p.offset.toNat p.actualSize = p.payload) ∧
        headerBytes result.tocSize result.partitions.length result.blockSize
          (result.imageSize.fdiv result.blockSize) = .ok header ∧
        entriesBytes result.blockSize 1 result.partitions = .ok entries ∧
        slice output result.tocOffset.toNat
          (tocPartition manifest.image placed.length).actualSize = header ++ entries.flatten ∧
        ∀ i < output.length,
          (∀ p ∈ result.partitions, ¬ (p.offset ≤ i ∧ (i : ℤ) < p.offset + p.actualSize)) →
            output[i]? = some manifest.image.fillByte := by
  obtain ⟨placed, header, entries, hbuilt, rfl, rfl⟩ := buildImage_ok h
  have hlen := hbuilt.length_output
  have hsize := hbuilt.size_pos
  refine ⟨hbuilt.inspectImage_eq, rfl, by simp only; omega, hbuilt.apart, hbuilt.inside, placed,
    header, entries, rfl, hbuilt.assigned, fun p hp => ?_, hbuilt.header_eq,
    hbuilt.entries_eq, ?_, ?_⟩
  · rw [(hbuilt.payload_le hp).1]
    exact hbuilt.slice_segment
      (List.mem_cons_of_mem _ (List.mem_cons_of_mem _ (List.mem_map_of_mem hp)))
  · have hheader := hbuilt.slice_segment List.mem_cons_self
    have hentries := hbuilt.slice_segment (List.mem_cons_of_mem _ List.mem_cons_self)
    simp only [hbuilt.header_of.length] at hheader
    simp only [length_flatten_entries hbuilt.entries_of] at hentries
    simp only [tocPartition]
    rw [slice_add, hheader]
    exact congrArg (header ++ ·) hentries
  · intro i hi hout
    have htoc := hout _ List.mem_cons_self
    have hheader := hbuilt.header_of.length
    have hentries := length_flatten_entries hbuilt.entries_of
    have hnonneg : 0 ≤ manifest.image.tocOffset := (hbuilt.inside _ List.mem_cons_self).1
    simp only [tocPartition, List.length_cons] at htoc hentries
    rw [outputBytes, getElem?_writeAll_outside]
    · rw [List.getElem?_replicate, if_pos (by omega)]
    · rw [List.length_replicate]
      exact hbuilt.segment_inside
    -- The table lies in the first partition, and each payload in its own.
    intro s hs
    rcases List.mem_cons.mp hs with rfl | hs
    · simp only [Segment.stop, hheader]
      omega
    rcases List.mem_cons.mp hs with rfl | hs
    · simp only [Segment.stop, hentries]
      omega
    obtain ⟨p, hp, rfl⟩ := List.mem_map.mp hs
    have hp' := hout p (List.mem_cons_of_mem _ hp)
    have hpayload := hbuilt.payload_le hp
    have hpin := hbuilt.inside p (List.mem_cons_of_mem _ hp)
    simp only [Segment.stop, Partition.segment]
    omega

theorem inspectImage_buildImage_sample : ∃ result output,
    buildImage sampleManifest sampleSources = .ok (result, output) ∧
      inspectImage output sampleManifest.image.tocOffset =
        .ok { result with partitions := result.partitions.map Partition.stored } := by
  obtain ⟨partitions, hbuilt⟩ := Option.isSome_iff_exists.mp sampleManifest_builds
  obtain ⟨result, output, hbuild, -⟩ := buildImage_of_builtPartitions hbuilt
  exact ⟨result, output, hbuild, (inspectImage_buildImage _ _ hbuild).1⟩

end Pnor

end Jixia
