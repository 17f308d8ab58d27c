/-
The layout of a PNOR image.

The loop over the partitions of a manifest, and the writes that make the image.

* `Layout.Placed` — what the loop keeps: ranges that do not meet and lie in the image,
  and the payload that the manifest assigns to each;
* `Built.segments_apart` — the table and the payloads do not meet;
* `buildImage_ok` — what a build that succeeds has done.
-/
import Jixia.PnorEntries

namespace Jixia

open ByteBuffer Guarded

namespace Pnor

/-! ### Placement -/

/-- The range of a partition. -/
def Partition.interval (partition : Partition) : Interval :=
  ⟨partition.offset, partition.offset + partition.allocatedSize, partition.name⟩

/-- The ranges do not meet. -/
def Interval.Apart (a b : Interval) : Prop := a.stop ≤ b.start ∨ b.stop ≤ a.start

/-- The partition is what the section asks for. -/
structure Assigned (sources : Sources) (fill : Byte) (spec : PartitionSpec)
    (partition : Partition) : Prop where
  name : partition.name = spec.name
  payload : payloadFor spec sources fill = .ok partition.payload
  actualSize : partition.actualSize = partition.payload.length

/-- What the loop has done with the sections so far. -/
structure Layout.Placed (image : ImageSpec) (sources : Sources) (fill : Byte)
    (specs : List PartitionSpec) (layout : Layout) : Prop where
  intervals : layout.intervals =
    ⟨image.tocOffset, image.tocOffset + image.tocSize, tocName⟩ ::
      layout.partitions.map Partition.interval
  apart : layout.intervals.Pairwise Interval.Apart
  inside : ∀ p ∈ layout.partitions,
    p.offset < p.offset + p.allocatedSize ∧ p.offset + p.allocatedSize ≤ image.size
  assigned : List.Forall₂ (Assigned sources fill)
    (specs.filter fun spec => !spec.absent sources) layout.partitions

theorem checkOverlaps_ok {name : Text} {offset stop : ℤ} {intervals : List Interval} {u : Unit}
    (h : checkOverlaps name offset stop intervals = .ok u) :
    ∀ other ∈ intervals, other.stop ≤ offset ∨ stop ≤ other.start := by
  induction intervals with
  | nil => exact fun other hother => absurd hother List.not_mem_nil
  | cons first rest ih =>
    rw [checkOverlaps] at h
    split at h
    · cases h
    · rename_i hfirst
      intro other hother
      rcases List.mem_cons.mp hother with rfl | hother
      · omega
      · exact ih h other hother

/-- One turn of the loop. -/
theorem Layout.Placed.addPartition {image : ImageSpec} {sources : Sources} {fill : Byte}
    {specs : List PartitionSpec} {layout layout' : Layout} {spec : PartitionSpec}
    (hplaced : layout.Placed image sources fill specs)
    (h : addPartition image sources fill layout spec = .ok layout') :
    layout'.Placed image sources fill (specs ++ [spec]) := by
  rw [Pnor.addPartition] at h
  obtain ⟨payload, hpayload, h⟩ := bind_ok.mp h
  have hfilter : (specs ++ [spec]).filter (fun spec => !spec.absent sources) =
      specs.filter (fun spec => !spec.absent sources) ++
        if spec.absent sources then [] else [spec] := by
    rw [List.filter_append, List.filter_cons, List.filter_nil]
    cases spec.absent sources <;> rfl
  split at h
  · -- The section is left out.
    rename_i habsent
    obtain rfl := pure_ok.mp h
    refine ⟨hplaced.intervals, hplaced.apart, hplaced.inside, ?_⟩
    rw [hfilter, if_pos habsent, List.append_nil]
    exact hplaced.assigned
  · rename_i hpresent
    rw [placePartition] at h
    obtain ⟨offset, -, h⟩ := bind_ok.mp h
    obtain ⟨-, h⟩ := require_bind_ok.mp h
    obtain ⟨allocatedSize, -, h⟩ := bind_ok.mp h
    obtain ⟨hinside, h⟩ := require_bind_ok.mp h
    obtain ⟨_, hoverlaps, h⟩ := bind_ok.mp h
    obtain ⟨flags, -, h⟩ := bind_ok.mp h
    obtain rfl := pure_ok.mp h
    have hoverlaps := checkOverlaps_ok hoverlaps
    refine ⟨?_, ?_, ?_, ?_⟩
    · simp only [hplaced.intervals, List.map_append, List.cons_append]
      rfl
    · refine List.pairwise_append.mpr ⟨hplaced.apart, List.pairwise_singleton _ _, ?_⟩
      intro other hother last hlast
      rw [List.mem_singleton.mp hlast]
      exact hoverlaps other hother
    · intro p hp
      rcases List.mem_append.mp hp with hp | hp
      · exact hplaced.inside p hp
      · rw [List.mem_singleton.mp hp]
        constructor <;> simp only <;> omega
    · rw [hfilter, if_neg hpresent]
      exact List.rel_append hplaced.assigned (.cons ⟨rfl, hpayload, rfl⟩ .nil)

/-- The whole loop. -/
theorem Layout.Placed.foldlM {image : ImageSpec} {sources : Sources} {fill : Byte}
    {specs rest : List PartitionSpec} {layout layout' : Layout}
    (hplaced : layout.Placed image sources fill specs)
    (h : rest.foldlM (Pnor.addPartition image sources fill) layout = .ok layout') :
    layout'.Placed image sources fill (specs ++ rest) :=
  foldlM_invariant (fun _ _ _ _ hp hadd => hp.addPartition hadd) hplaced h

/-! ### The image -/

theorem setSlice_eq_splice {buffer data : List Byte} {start : ℤ} (h0 : 0 ≤ start)
    (h : start.toNat + data.length ≤ buffer.length) :
    setSlice buffer start (start + data.length) data = splice buffer start.toNat data := by
  have hstart : sliceIndex buffer.length start = start.toNat := by
    rw [sliceIndex, if_neg (by omega)]
    omega
  have hstop : sliceIndex buffer.length (start + data.length) = start.toNat + data.length := by
    rw [sliceIndex, if_neg (by omega)]
    omega
  rw [setSlice, hstart, hstop, Nat.max_eq_right (by omega), splice]

theorem getSlice_eq_slice {buffer : List Byte} {start : ℤ} {n : ℕ} (h0 : 0 ≤ start)
    (h : start.toNat + n ≤ buffer.length) :
    getSlice buffer start (start + n) = slice buffer start.toNat n := by
  have hstart : sliceIndex buffer.length start = start.toNat := by
    rw [sliceIndex, if_neg (by omega)]
    omega
  have hstop : sliceIndex buffer.length (start + n) = start.toNat + n := by
    rw [sliceIndex, if_neg (by omega)]
    omega
  rw [getSlice, hstart, hstop, Nat.add_sub_cancel_left]

/-- The payload of a partition, in its place. -/
def Partition.segment (partition : Partition) : Segment :=
  ⟨partition.offset.toNat, partition.payload⟩

theorem foldl_writePayload {partitions : List Partition} {buffer : List Byte}
    (h0 : ∀ p ∈ partitions, 0 ≤ p.offset)
    (hin : ∀ p ∈ partitions, p.segment.stop ≤ buffer.length) :
    partitions.foldl writePayload buffer =
      writeAll buffer (partitions.map Partition.segment) := by
  induction partitions generalizing buffer with
  | nil => rfl
  | cons p rest ih =>
    have hp := hin p List.mem_cons_self
    have hwrite : writePayload buffer p = splice buffer p.offset.toNat p.payload :=
      setSlice_eq_splice (h0 p List.mem_cons_self) hp
    have hlen : (writePayload buffer p).length = buffer.length := by
      rw [hwrite]
      exact length_splice hp
    rw [List.foldl_cons, ih (fun q hq => h0 q (List.mem_cons_of_mem _ hq))
      fun q hq => hlen.symm ▸ hin q (List.mem_cons_of_mem _ hq), hwrite]
    rfl

/-- Where the parts of an image go: the header, the entries, the payloads. -/
def imageSegments (image : ImageSpec) (header : List Byte) (entries : List (List Byte))
    (partitions : List Partition) : List Segment :=
  ⟨image.tocOffset.toNat, header⟩ :: ⟨image.tocOffset.toNat + ffsHeaderSize, entries.flatten⟩ ::
    partitions.map Partition.segment

/-- The image that is written. -/
def outputBytes (image : ImageSpec) (header : List Byte) (entries : List (List Byte))
    (placed : List Partition) : List Byte :=
  writeAll (List.replicate image.size.toNat image.fillByte)
    (imageSegments image header entries placed)

/-- The partitions in the table: the table itself, then those placed. -/
abbrev Manifest.listed (manifest : Manifest) (placed : List Partition) : List Partition :=
  tocPartition manifest.image placed.length :: placed

/-- What a build that succeeds has done. -/
structure Built (manifest : Manifest) (sources : Sources) (placed : List Partition)
    (header : List Byte) (entries : List (List Byte)) : Prop where
  size_pos : 0 < manifest.image.size
  blockSize_pos : 0 < manifest.image.blockSize
  size_aligned : manifest.image.size.fmod manifest.image.blockSize = 0
  tocSize_aligned : manifest.image.tocSize.fmod manifest.image.blockSize = 0
  toc_inside : manifest.image.tocOffset + manifest.image.tocSize ≤ manifest.image.size
  entries_fit : ((ffsHeaderSize + (placed.length + 1) * ffsEntrySize : ℕ) : ℤ) ≤
    manifest.image.tocSize
  header_eq : headerBytes manifest.image.tocSize (placed.length + 1) manifest.image.blockSize
    (manifest.image.size.fdiv manifest.image.blockSize) = .ok header
  entries_eq : entriesBytes manifest.image.blockSize 1 (manifest.listed placed) = .ok entries
  apart : (manifest.listed placed).Pairwise fun p q => p.interval.Apart q.interval
  inside : ∀ p ∈ manifest.listed placed, 0 ≤ p.offset ∧
    p.offset < p.offset + p.allocatedSize ∧ p.offset + p.allocatedSize ≤ manifest.image.size
  assigned : List.Forall₂ (Assigned sources manifest.image.fillByte)
    (manifest.partitions.filter fun spec => !spec.absent sources) placed

/-- A number of blocks read back, in bytes. -/
theorem eq_mul_of_fdiv {v blockSize : ℤ} {n : ℕ} (hmod : v.fmod blockSize = 0)
    (hdiv : (n : ℤ) = v.fdiv blockSize) : v = n * blockSize := by
  have h := Int.mul_fdiv_add_fmod v blockSize
  rw [hmod, ← hdiv, Int.add_zero, Int.mul_comm] at h
  exact h.symm

theorem length_flatten_entries {partitions : List Partition} {blockSize : ℤ}
    {entries : List (List Byte)} (h : List.Forall₂ (EntryOf · blockSize) partitions entries) :
    entries.flatten.length = partitions.length * ffsEntrySize := by
  induction h with
  | nil => rfl
  | cons hentry _ ih =>
    rw [List.flatten_cons, List.length_append, ih, hentry.length, List.length_cons,
      Nat.add_one_mul, Nat.add_comm]

section Built

variable {manifest : Manifest} {sources : Sources} {placed : List Partition} {header : List Byte}
  {entries : List (List Byte)} (h : Built manifest sources placed header entries)

include h

theorem Built.header_of :
    HeaderOf manifest.image.tocSize (placed.length + 1) manifest.image.blockSize
      (manifest.image.size.fdiv manifest.image.blockSize) header :=
  headerBytes_spec h.header_eq

theorem Built.entries_of :
    List.Forall₂ (EntryOf · manifest.image.blockSize) (manifest.listed placed) entries :=
  entriesBytes_spec h.entries_eq

theorem Built.entries_length : entries.length = (manifest.listed placed).length :=
  (List.forall₂_iff_get.mp h.entries_of).1.symm

/-- The entry of a partition, by its index. -/
theorem Built.entry_of {k : ℕ} (hk : k < (manifest.listed placed).length)
    (hk' : k < entries.length) :
    EntryOf (manifest.listed placed)[k] manifest.image.blockSize entries[k] :=
  (List.forall₂_iff_get.mp h.entries_of).2 k hk hk'

/-- A payload lies in its partition. -/
theorem Built.payload_le {p : Partition} (hp : p ∈ placed) :
    p.actualSize = p.payload.length ∧ (p.payload.length : ℤ) ≤ p.allocatedSize := by
  obtain ⟨k, hk, rfl⟩ := List.getElem_of_mem hp
  obtain ⟨hlength, hassigned⟩ := List.forall₂_iff_get.mp h.assigned
  have hactual : placed[k].actualSize = placed[k].payload.length :=
    (hassigned k (by omega) hk).actualSize
  have hle : (placed[k].actualSize : ℤ) ≤ placed[k].allocatedSize :=
    (h.entry_of (Nat.succ_lt_succ hk) (h.entries_length ▸ Nat.succ_lt_succ hk)).actual_le
  exact ⟨hactual, hactual ▸ hle⟩

theorem Built.segment_inside : ∀ s ∈ imageSegments manifest.image header entries placed,
    s.stop ≤ manifest.image.size.toNat := by
  have htoc := h.inside _ List.mem_cons_self
  have hfit := h.entries_fit
  have hheader := h.header_of.length
  have hentries := length_flatten_entries h.entries_of
  simp only [tocPartition, List.length_cons] at htoc hentries
  intro s hs
  rcases List.mem_cons.mp hs with rfl | hs
  · simp only [Segment.stop, hheader]
    omega
  rcases List.mem_cons.mp hs with rfl | hs
  · simp only [Segment.stop, hentries]
    omega
  obtain ⟨p, hp, rfl⟩ := List.mem_map.mp hs
  have hpayload := h.payload_le hp
  have hpin := h.inside p (List.mem_cons_of_mem _ hp)
  simp only [Segment.stop, Partition.segment]
  omega

theorem Built.segments_apart :
    (imageSegments manifest.image header entries placed).Pairwise Segment.Apart := by
  have htoc := h.inside _ List.mem_cons_self
  have hfit := h.entries_fit
  have hheader := h.header_of.length
  have hentries := length_flatten_entries h.entries_of
  have hapart := List.pairwise_cons.mp h.apart
  simp only [tocPartition, List.length_cons] at htoc hentries
  -- The payloads lie in ranges that do not meet the table.
  have hpayload : ∀ p ∈ placed, manifest.image.tocOffset + manifest.image.tocSize ≤ p.offset ∨
      p.offset + p.payload.length ≤ manifest.image.tocOffset := by
    intro p hp
    have hp' := h.payload_le hp
    rcases hapart.1 p hp with hle | hle
    · exact .inl hle
    · have hle : p.offset + p.allocatedSize ≤ manifest.image.tocOffset := hle
      exact .inr (by omega)
  refine List.pairwise_cons.mpr ⟨?_, List.pairwise_cons.mpr ⟨?_, ?_⟩⟩
  · intro s hs
    rcases List.mem_cons.mp hs with rfl | hs
    · exact .inl (by simp only [Segment.stop, hheader]; exact le_refl _)
    obtain ⟨p, hp, rfl⟩ := List.mem_map.mp hs
    have hpin := h.inside p (List.mem_cons_of_mem _ hp)
    have hp' := hpayload p hp
    simp only [Segment.Apart, Segment.stop, Partition.segment, hheader]
    omega
  · intro s hs
    obtain ⟨p, hp, rfl⟩ := List.mem_map.mp hs
    have hpin := h.inside p (List.mem_cons_of_mem _ hp)
    have hp' := hpayload p hp
    simp only [Segment.Apart, Segment.stop, Partition.segment, hentries]
    omega
  · refine List.pairwise_map.mpr (hapart.2.imp_of_mem ?_)
    intro p q hp hq hpq
    have hpin := h.inside p (List.mem_cons_of_mem _ hp)
    have hqin := h.inside q (List.mem_cons_of_mem _ hq)
    have hp' := h.payload_le hp
    have hq' := h.payload_le hq
    have hpq : p.offset + p.allocatedSize ≤ q.offset ∨ q.offset + q.allocatedSize ≤ p.offset := hpq
    simp only [Segment.Apart, Segment.stop, Partition.segment]
    omega

/-- The packer's writes are the segments. -/
theorem Built.imageBytes_eq :
    imageBytes manifest.image header entries.flatten placed =
      outputBytes manifest.image header entries placed := by
  have hin := h.segment_inside
  have htoc : 0 ≤ manifest.image.tocOffset := (h.inside _ List.mem_cons_self).1
  have hheader := h.header_of.length
  have hin1 := hin _ List.mem_cons_self
  have hin2 := hin _ (List.mem_cons_of_mem _ List.mem_cons_self)
  simp only [Segment.stop] at hin1 hin2
  have hstart : (manifest.image.tocOffset + (header.length : ℤ)).toNat =
      manifest.image.tocOffset.toNat + ffsHeaderSize := by omega
  simp only [imageBytes, outputBytes]
  generalize hbuffer : List.replicate manifest.image.size.toNat manifest.image.fillByte = buffer
  have hsize : buffer.length = manifest.image.size.toNat := by
    rw [← hbuffer, List.length_replicate]
  have hlen1 : (splice buffer manifest.image.tocOffset.toNat header).length = buffer.length :=
    length_splice (by omega)
  have hlen2 : (splice (splice buffer manifest.image.tocOffset.toNat header)
      (manifest.image.tocOffset.toNat + ffsHeaderSize) entries.flatten).length = buffer.length :=
    (length_splice (by omega)).trans hlen1
  rw [setSlice_eq_splice htoc (by omega), setSlice_eq_splice (by omega) (by omega), hstart,
    foldl_writePayload]
  · rfl
  · exact fun p hp => (h.inside p (List.mem_cons_of_mem _ hp)).1
  · intro p hp
    rw [hlen2, hsize]
    exact hin _ (List.mem_cons_of_mem _ (List.mem_cons_of_mem _ (List.mem_map_of_mem hp)))

end Built

/-- **A build that succeeds writes segments that do not meet.** -/
theorem buildImage_ok {manifest : Manifest} {sources : Sources} {result : ImageResult}
    {output : List Byte} (h : buildImage manifest sources = .ok (result, output)) :
    ∃ placed header entries, Built manifest sources placed header entries ∧
      result = ⟨manifest.image.size, manifest.image.blockSize, manifest.image.tocOffset,
        manifest.image.tocSize, manifest.listed placed⟩ ∧
      output = outputBytes manifest.image header entries placed := by
  rw [buildImage] at h
  obtain ⟨_, hcheck, h⟩ := bind_ok.mp h
  obtain ⟨layout, hlayout, h⟩ := bind_ok.mp h
  obtain ⟨hfit, h⟩ := require_bind_ok.mp h
  obtain ⟨header, hheader, h⟩ := bind_ok.mp h
  obtain ⟨entries, hentries, h⟩ := bind_ok.mp h
  obtain ⟨hresult, houtput⟩ := Prod.mk.inj (pure_ok.mp h)
  simp only [checkImage, require_bind_ok, require_ok] at hcheck
  obtain ⟨hsize, hblock, hsizeMod, htocMod, htocIn, -, -⟩ := hcheck
  have hinit : Layout.Placed manifest.image sources manifest.image.fillByte []
      ⟨[], [⟨manifest.image.tocOffset, manifest.image.tocOffset + manifest.image.tocSize, tocName⟩],
        manifest.image.dataOffset⟩ :=
    ⟨rfl, List.pairwise_singleton _ _, fun p hp => absurd hp List.not_mem_nil, .nil⟩
  have hplaced := hinit.foldlM hlayout
  have hblockPos : 0 < manifest.image.blockSize := by
    have := (headerBytes_spec hheader).blockSize
    omega
  -- Every partition starts at a whole number of blocks.
  have hoffset : ∀ p ∈ tocPartition manifest.image layout.partitions.length :: layout.partitions,
      0 ≤ p.offset := by
    intro p hp
    obtain ⟨k, hk, rfl⟩ := List.getElem_of_mem hp
    obtain ⟨hlen, hget⟩ := List.forall₂_iff_get.mp (entriesBytes_spec hentries)
    have hentry := hget k hk (by omega)
    have := eq_mul_of_fdiv hentry.offset_aligned hentry.base
    simp only [List.get_eq_getElem] at this
    rw [this]
    exact Int.mul_nonneg (Int.natCast_nonneg _) (Int.le_of_lt hblockPos)
  have hintervals : layout.intervals =
      (tocPartition manifest.image layout.partitions.length :: layout.partitions).map
        Partition.interval := hplaced.intervals
  have hbuilt : Built manifest sources layout.partitions header entries :=
    { size_pos := Int.not_le.mp hsize
      blockSize_pos := hblockPos
      size_aligned := not_not.mp hsizeMod
      tocSize_aligned := not_not.mp (not_or.mp htocMod).2
      toc_inside := Int.not_lt.mp htocIn
      entries_fit := Int.not_lt.mp hfit
      header_eq := hheader
      entries_eq := hentries
      apart := by
        have := hplaced.apart
        rw [hintervals] at this
        exact List.pairwise_map.mp this
      inside := by
        intro p hp
        refine ⟨hoffset p hp, ?_⟩
        rcases List.mem_cons.mp hp with rfl | hp
        · have hheaderSize : ffsHeaderSize = 48 := rfl
          simp only [tocPartition]
          omega
        · exact hplaced.inside p hp
      assigned := hplaced.assigned }
  exact ⟨layout.partitions, header, entries, hbuilt, hresult.symm,
    houtput.symm.trans hbuilt.imageBytes_eq⟩

end Pnor

end Jixia
