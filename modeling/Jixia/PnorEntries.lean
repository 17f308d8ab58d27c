/-
The table of a PNOR image.

What the packer writes in the header and in the entries of the table, field by field.

* `packWords_spec`, `packU16_spec`, `packU8_spec` — a packed value reads back;
* `entryBytes_spec`, `headerBytes_spec` — the fields of an entry and of the header.
-/
import Jixia.PnorImage

namespace Jixia

open ByteBuffer Guarded

namespace Pnor

theorem xorWords_ok {data : List Byte} {w : BitVec 32} :
    xorWords data = .ok w ↔ data.length % 4 = 0 ∧ ByteBuffer.xorWords data = w := by
  rw [xorWords]
  split <;> simp_all

/-! ### Packed fields -/

theorem toNat_ofInt {n : ℕ} {v : ℤ} (h0 : 0 ≤ v) (h : v < 2 ^ n) :
    ((BitVec.ofInt n v).toNat : ℤ) = v := by
  have hpow : ((2 ^ n : ℕ) : ℤ) = 2 ^ n := Int.natCast_pow 2 n
  rw [BitVec.toNat_ofInt, hpow, Int.emod_eq_of_lt h0 h, Int.toNat_of_nonneg h0]

theorem packU32_spec {v : ℤ} {bytes : List Byte} (h : packU32 v = .ok bytes) :
    bytes.length = 4 ∧ ∀ rest, (unpackU32 (bytes ++ rest) 0 : ℤ) = v := by
  rw [packU32] at h
  split at h
  · rename_i hv
    obtain rfl := Except.ok.inj h
    refine ⟨rfl, fun rest => ?_⟩
    have hword : be32 (byteAt (be32Bytes (BitVec.ofInt 32 v) ++ rest)) 0 = BitVec.ofInt 32 v :=
      word32_bytes _
    rw [unpackU32, hword, toNat_ofInt hv.1 hv.2]
  · cases h

/-- A field behind four bytes. -/
theorem unpackU32_append {bytes rest : List Byte} {n : ℕ} (h : bytes.length = 4) :
    unpackU32 (bytes ++ rest) (4 + n) = unpackU32 rest n := by
  have hbyte : ∀ k, byteAt (bytes ++ rest) (4 + k) = byteAt rest k := by
    intro k
    rw [byteAt, byteAt, List.getD_append_right _ _ _ _ (by omega), h, Nat.add_sub_cancel_left]
  simp only [unpackU32, be32, Nat.add_assoc, hbyte]

theorem packWords_spec {values : List ℤ} {words : List Byte} (h : packWords values = .ok words) :
    words.length = 4 * values.length ∧
      ∀ k v, values[k]? = some v → (unpackU32 words (4 * k) : ℤ) = v := by
  rw [packWords, bind_ok] at h
  obtain ⟨parts, hparts, h⟩ := h
  obtain rfl := pure_ok.mp h
  clear h
  induction values generalizing parts with
  | nil =>
    obtain rfl := pure_ok.mp hparts
    exact ⟨rfl, fun k v hv => by simp at hv⟩
  | cons value rest ih =>
    rw [List.mapM_cons, bind_ok] at hparts
    obtain ⟨bytes, hbytes, hparts⟩ := hparts
    obtain ⟨more, hmore, hparts⟩ := bind_ok.mp hparts
    obtain rfl := pure_ok.mp hparts
    obtain ⟨hlen, hvalue⟩ := packU32_spec hbytes
    obtain ⟨hlenRest, hrest⟩ := ih more hmore
    rw [List.flatten_cons]
    refine ⟨by rw [List.length_append, hlen, hlenRest, List.length_cons]; omega, fun k v hv => ?_⟩
    cases k with
    | zero =>
      obtain rfl := Option.some.inj hv
      exact hvalue _
    | succ k =>
      rw [show 4 * (k + 1) = 4 + 4 * k by omega, unpackU32_append hlen]
      exact hrest k v hv

theorem packU16_spec {v : ℕ} {bytes : List Byte} (h : packU16 v = .ok bytes) :
    bytes.length = 2 ∧ unpackU16 bytes 0 = v := by
  rw [packU16] at h
  split at h
  · rename_i hv
    obtain rfl := Except.ok.inj h
    have hword : be16 (byteAt (be16Bytes (BitVec.ofInt 16 (v : ℤ)))) 0 = BitVec.ofInt 16 (v : ℤ) :=
      word16_bytes _
    refine ⟨rfl, Int.ofNat.inj ?_⟩
    rw [unpackU16, hword]
    exact toNat_ofInt hv.1 hv.2
  · cases h

theorem packU8_spec {v : ℕ} {bytes : List Byte} (h : packU8 v = .ok bytes) :
    bytes.length = 1 ∧ (byteAt bytes 0).toNat = v := by
  rw [packU8] at h
  split at h
  · rename_i hv
    obtain rfl := Except.ok.inj h
    exact ⟨rfl, Int.ofNat.inj (toNat_ofInt hv.1 hv.2)⟩
  · cases h

/-- A field of a part of a buffer. -/
theorem unpackU32_of_slice {buffer words : List Byte} {start n : ℕ}
    (h : slice buffer start words.length = words) (hn : n + 4 ≤ words.length) :
    unpackU32 buffer (start + n) = unpackU32 words n := by
  rw [unpackU32, unpackU32, ← be32_slice hn, h]

theorem unpackU16_of_slice {buffer words : List Byte} {start : ℕ}
    (h : slice buffer start words.length = words) (hn : 2 ≤ words.length) :
    unpackU16 buffer start = unpackU16 words 0 := by
  have hfield : be16 (byteAt (slice buffer start words.length)) 0 = be16 (byteAt buffer) start :=
    be16_slice (by omega)
  rw [unpackU16, unpackU16, ← hfield, h]

theorem byteAt_of_slice {buffer bytes : List Byte} {start : ℕ}
    (h : slice buffer start bytes.length = bytes) (hn : 0 < bytes.length) :
    byteAt buffer start = byteAt bytes 0 := by
  have hbyte : byteAt (slice buffer start bytes.length) 0 = byteAt buffer start := byteAt_slice hn
  rw [← hbyte, h]

/-! ### Names -/

/-- The byte of an ASCII character. -/
def asciiByte (c : Char) : Byte := BitVec.ofNat 8 c.toNat

/-- The part of a name that a reader of C strings sees. -/
def storedName (name : Text) : Text := name.takeWhile (· ≠ Char.ofNat 0)

theorem encodeAscii_ok {name : Text} {bytes : List Byte} (h : encodeAscii name = .ok bytes) :
    bytes = name.map asciiByte ∧ ∀ c ∈ name, c.toNat < 128 := by
  induction name generalizing bytes with
  | nil =>
    obtain rfl := pure_ok.mp h
    exact ⟨rfl, fun c hc => absurd hc List.not_mem_nil⟩
  | cons c rest ih =>
    rw [encodeAscii, List.mapM_cons, bind_ok] at h
    obtain ⟨b, hb, h⟩ := h
    obtain ⟨more, hmore, h⟩ := bind_ok.mp h
    obtain rfl := pure_ok.mp h
    obtain ⟨rfl, hrest⟩ := ih hmore
    split at hb
    · rename_i hc
      obtain rfl := Except.ok.inj hb
      refine ⟨rfl, fun d hd => ?_⟩
      rcases List.mem_cons.mp hd with rfl | hd
      · exact hc
      · exact hrest d hd
    · cases hb

theorem ascii_of_all {name : Text} (h : (name.all fun c => decide (c.toNat < 128)) = true) :
    ∀ c ∈ name, c.toNat < 128 :=
  fun c hc => of_decide_eq_true (List.all_eq_true.mp h c hc)

theorem asciiByte_toNat {c : Char} (h : c.toNat < 128) : (asciiByte c).toNat = c.toNat := by
  rw [asciiByte, BitVec.toNat_ofNat]
  omega

theorem asciiByte_eq_zero_iff {c : Char} (h : c.toNat < 128) :
    asciiByte c = 0 ↔ c = Char.ofNat 0 := by
  have hzero : (0 : Byte).toNat = 0 := rfl
  rw [← BitVec.toNat_inj, asciiByte_toNat h, hzero]
  constructor
  · intro hc
    rw [← Char.ofNat_toNat c, hc]
  · rintro rfl
    rfl

theorem decodeAscii_map {name : Text} (h : ∀ c ∈ name, c.toNat < 128) :
    decodeAscii (name.map asciiByte) = .ok name := by
  induction name with
  | nil => rfl
  | cons c rest ih =>
    have hc := h c List.mem_cons_self
    rw [decodeAscii, List.map_cons, List.mapM_cons, asciiByte_toNat hc, if_pos hc,
      Char.ofNat_toNat]
    have hrest := ih fun d hd => h d (List.mem_cons_of_mem _ hd)
    rw [decodeAscii] at hrest
    exact bind_ok.mpr ⟨c, rfl, bind_ok.mpr ⟨rest, hrest, rfl⟩⟩

theorem takeWhile_padded {name : Text} (h : ∀ c ∈ name, c.toNat < 128) (n : ℕ) :
    (name.map asciiByte ++ List.replicate n 0).takeWhile (· ≠ 0) =
      (storedName name).map asciiByte := by
  induction name with
  | nil => cases n <;> rfl
  | cons c rest ih =>
    have hrest := ih fun d hd => h d (List.mem_cons_of_mem _ hd)
    have hzero := asciiByte_eq_zero_iff (h c List.mem_cons_self)
    rw [List.map_cons, List.cons_append, List.takeWhile_cons, storedName, List.takeWhile_cons]
    by_cases hc : c = Char.ofNat 0
    · rw [hzero.mpr hc, hc]
      simp
    · simp only [ne_eq, hzero, hc, not_false_eq_true, decide_true, if_true, List.map_cons]
      exact congrArg _ hrest

theorem map_asciiByte_inj {name other : Text} (h : ∀ c ∈ name, c.toNat < 128)
    (h' : ∀ c ∈ other, c.toNat < 128) :
    name.map asciiByte = other.map asciiByte ↔ name = other := by
  refine ⟨fun heq => ?_, fun heq => by rw [heq]⟩
  have := (decodeAscii_map h).symm.trans ((congrArg decodeAscii heq).trans (decodeAscii_map h'))
  exact Except.ok.inj this

theorem zero_notMem_map_asciiByte {name : Text} (h : ∀ c ∈ name, c.toNat < 128)
    (hnul : Char.ofNat 0 ∉ name) : 0 ∉ name.map asciiByte := by
  rintro hzero
  obtain ⟨c, hc, hcz⟩ := List.mem_map.mp hzero
  exact hnul ((asciiByte_eq_zero_iff (h c hc)).mp hcz ▸ hc)

/-- The field of a name. -/
theorem nameBytes_ok {name : Text} {bytes : List Byte} (h : nameBytes name = .ok bytes) :
    bytes = name.map asciiByte ++ List.replicate (16 - name.length) 0 ∧
      (∀ c ∈ name, c.toNat < 128) ∧ name.length ≤ 15 := by
  rw [nameBytes, bind_ok] at h
  obtain ⟨encoded, hencoded, h⟩ := h
  obtain ⟨hlen, h⟩ := require_bind_ok.mp h
  obtain ⟨rfl, hascii⟩ := encodeAscii_ok hencoded
  have hmax : ffsPartNameMax = 15 := rfl
  rw [List.length_map] at hlen h
  rw [hmax] at hlen
  exact ⟨(pure_ok.mp h).symm, hascii, by omega⟩

/-- A name that was packed is read up to its first zero. -/
theorem entryName_eq {name : Text} {entry : List Byte}
    (h : nameBytes name = .ok (slice entry 0 16)) : entryName entry = .ok (storedName name) := by
  obtain ⟨hbytes, hascii, -⟩ := nameBytes_ok h
  rw [entryName, hbytes, takeWhile_padded hascii]
  exact decodeAscii_map fun c hc => hascii c ((List.takeWhile_sublist _).mem hc)

/-! ### Entries -/

/-- The bytes of an entry hold the fields of a partition. -/
structure EntryOf (partition : Partition) (blockSize : ℤ) (entry : List Byte) : Prop where
  length : entry.length = ffsEntrySize
  checksum : ByteBuffer.xorWords entry = 0
  offset_aligned : partition.offset.fmod blockSize = 0
  size_aligned : partition.allocatedSize.fmod blockSize = 0
  actual_le : partition.actualSize ≤ partition.allocatedSize
  name : nameBytes partition.name = .ok (slice entry 0 16)
  base : (unpackU32 entry 16 : ℤ) = partition.offset.fdiv blockSize
  size : (unpackU32 entry 20 : ℤ) = partition.allocatedSize.fdiv blockSize
  partitionType : unpackU32 entry 32 = partition.partitionType
  flags : unpackU32 entry 36 = partition.flags
  actual : unpackU32 entry 40 = partition.actualSize
  dataIntegrity : unpackU16 entry 62 = partition.dataIntegrity
  versionCheck : (byteAt entry 64).toNat = partition.versionCheck
  miscFlags : (byteAt entry 65).toNat = partition.miscFlags

theorem length_nameBytes {name : Text} {bytes : List Byte} (h : nameBytes name = .ok bytes) :
    bytes.length = 16 := by
  obtain ⟨rfl, -, hlen⟩ := nameBytes_ok h
  rw [List.length_append, List.length_map, List.length_replicate]
  omega

/-- **What is in an entry.** -/
theorem entryBytes_spec {partition : Partition} {blockSize : ℤ} {entryId : ℕ} {entry : List Byte}
    (h : entryBytes partition blockSize entryId = .ok entry) :
    EntryOf partition blockSize entry := by
  rw [entryBytes, require_bind_ok, require_bind_ok] at h
  obtain ⟨haligned, hactual, h⟩ := h
  obtain ⟨name, hname, h⟩ := bind_ok.mp h
  obtain ⟨words, hwords, h⟩ := bind_ok.mp h
  obtain ⟨integrity, hintegrity, h⟩ := bind_ok.mp h
  obtain ⟨version, hversion, h⟩ := bind_ok.mp h
  obtain ⟨misc, hmisc, h⟩ := bind_ok.mp h
  obtain ⟨checksum, -, h⟩ := bind_ok.mp h
  obtain ⟨check, hcheck, h⟩ := bind_ok.mp h
  obtain ⟨hzero, h⟩ := require_bind_ok.mp h
  have h := pure_ok.mp h
  have hcheck := (xorWords_ok.mp hcheck).2
  have hnameLen := length_nameBytes hname
  obtain ⟨hwordsLen, hword⟩ := packWords_spec hwords
  obtain ⟨hintegrityLen, hintegrity⟩ := packU16_spec hintegrity
  obtain ⟨hversionLen, hversion⟩ := packU8_spec hversion
  obtain ⟨hmiscLen, hmisc⟩ := packU8_spec hmisc
  simp only [List.length_cons, List.length_nil] at hwordsLen
  -- The entry is written from segments that do not meet.
  let segments : List Segment := [⟨0, name⟩, ⟨16, words⟩, ⟨60, [0]⟩, ⟨61, [0]⟩, ⟨62, integrity⟩,
    ⟨64, version⟩, ⟨65, misc⟩, ⟨124, be32Bytes checksum⟩]
  have hentry : entry = writeAll (List.replicate ffsEntrySize 0) segments := h.symm
  have hchecksumLen : (be32Bytes checksum).length = 4 := rfl
  have hin : ∀ s ∈ segments, s.stop ≤ (List.replicate ffsEntrySize (0 : Byte)).length := by
    simp only [segments, List.forall_mem_cons, List.length_replicate, Segment.stop, hnameLen,
      hwordsLen, hintegrityLen, hversionLen, hmiscLen, hchecksumLen, List.length_singleton]
    decide
  have hapart : segments.Pairwise Segment.Apart := by
    simp [segments, Segment.Apart, Segment.stop, hnameLen, hwordsLen, hintegrityLen, hversionLen,
      hmiscLen, hchecksumLen]
  have hread : ∀ s ∈ segments, slice entry s.start s.data.length = s.data := by
    intro s hs
    rw [hentry]
    exact slice_writeAll hin hapart hs
  have hnameSlice : slice entry 0 name.length = name := hread ⟨0, name⟩ (by simp [segments])
  have hwordsSlice : slice entry 16 words.length = words := hread ⟨16, words⟩ (by simp [segments])
  have hintegritySlice : slice entry 62 integrity.length = integrity :=
    hread ⟨62, integrity⟩ (by simp [segments])
  have hversionSlice : slice entry 64 version.length = version :=
    hread ⟨64, version⟩ (by simp [segments])
  have hmiscSlice : slice entry 65 misc.length = misc := hread ⟨65, misc⟩ (by simp [segments])
  have hfield : ∀ k v, 4 * k + 4 ≤ 28 → ([partition.offset.fdiv blockSize,
      partition.allocatedSize.fdiv blockSize, ffsPidToplevel, (entryId : ℤ),
      (partition.partitionType : ℤ), (partition.flags : ℤ), (partition.actualSize : ℤ)])[k]? =
        some v → (unpackU32 entry (16 + 4 * k) : ℤ) = v := by
    intro k v hk hv
    rw [unpackU32_of_slice hwordsSlice (by omega)]
    exact hword k v hv
  rw [not_or, not_not, not_not] at haligned
  refine ⟨?_, (congrArg ByteBuffer.xorWords h.symm).trans (hcheck.trans (not_not.mp hzero)),
    haligned.1, haligned.2, Int.not_lt.mp hactual, ?_, hfield 0 _ (by omega) rfl,
    hfield 1 _ (by omega) rfl, Int.ofNat.inj (hfield 4 _ (by omega) rfl),
    Int.ofNat.inj (hfield 5 _ (by omega) rfl), Int.ofNat.inj (hfield 6 _ (by omega) rfl),
    ?_, ?_, ?_⟩
  · rw [hentry, length_writeAll hin, List.length_replicate]
  · rw [hname, ← hnameLen, hnameSlice]
  · rw [unpackU16_of_slice hintegritySlice (by omega), hintegrity]
  · rw [byteAt_of_slice hversionSlice (by omega), hversion]
  · rw [byteAt_of_slice hmiscSlice (by omega), hmisc]

/-- The bytes of a header hold the geometry. -/
structure HeaderOf (tocSize : ℤ) (entryCount : ℕ) (blockSize blockCount : ℤ)
    (header : List Byte) : Prop where
  length : header.length = ffsHeaderSize
  checksum : ByteBuffer.xorWords header = 0
  magic : (unpackU32 header 0 : ℤ) = ffsMagic
  version : (unpackU32 header 4 : ℤ) = ffsVersion
  tableBlocks : (unpackU32 header 8 : ℤ) = tocSize.fdiv blockSize
  entrySize : unpackU32 header 12 = ffsEntrySize
  entryCount : unpackU32 header 16 = entryCount
  blockSize : (unpackU32 header 20 : ℤ) = blockSize
  blockCount : (unpackU32 header 24 : ℤ) = blockCount

/-- **What is in the header.** -/
theorem headerBytes_spec {tocSize : ℤ} {entryCount : ℕ} {blockSize blockCount : ℤ}
    {header : List Byte} (h : headerBytes tocSize entryCount blockSize blockCount = .ok header) :
    HeaderOf tocSize entryCount blockSize blockCount header := by
  rw [headerBytes] at h
  obtain ⟨words, hwords, h⟩ := bind_ok.mp h
  obtain ⟨checksum, -, h⟩ := bind_ok.mp h
  obtain ⟨check, hcheck, h⟩ := bind_ok.mp h
  obtain ⟨hzero, h⟩ := require_bind_ok.mp h
  have h := pure_ok.mp h
  have hcheck := (xorWords_ok.mp hcheck).2
  obtain ⟨hwordsLen, hword⟩ := packWords_spec hwords
  simp only [List.length_cons, List.length_nil] at hwordsLen
  let segments : List Segment := [⟨0, words⟩, ⟨44, be32Bytes checksum⟩]
  have hheader : header = writeAll (List.replicate ffsHeaderSize 0) segments := h.symm
  have hchecksumLen : (be32Bytes checksum).length = 4 := rfl
  have hin : ∀ s ∈ segments, s.stop ≤ (List.replicate ffsHeaderSize (0 : Byte)).length := by
    simp only [segments, List.forall_mem_cons, List.length_replicate, Segment.stop, hwordsLen,
      hchecksumLen]
    decide
  have hapart : segments.Pairwise Segment.Apart := by
    simp [segments, Segment.Apart, Segment.stop, hwordsLen, hchecksumLen]
  have hwordsSlice : slice header 0 words.length = words := by
    rw [hheader]
    exact slice_writeAll hin hapart (s := ⟨0, words⟩) (by simp [segments])
  have hfield : ∀ k v, 4 * k + 4 ≤ 28 → ([ffsMagic, ffsVersion, tocSize.fdiv blockSize,
      (ffsEntrySize : ℤ), (entryCount : ℤ), blockSize, blockCount])[k]? = some v →
        (unpackU32 header (0 + 4 * k) : ℤ) = v := by
    intro k v hk hv
    rw [unpackU32_of_slice hwordsSlice (by omega)]
    exact hword k v hv
  refine ⟨?_, (congrArg ByteBuffer.xorWords h.symm).trans (hcheck.trans (not_not.mp hzero)),
    hfield 0 _ (by omega) rfl, hfield 1 _ (by omega) rfl, hfield 2 _ (by omega) rfl,
    Int.ofNat.inj (hfield 3 _ (by omega) rfl), Int.ofNat.inj (hfield 4 _ (by omega) rfl),
    hfield 5 _ (by omega) rfl, hfield 6 _ (by omega) rfl⟩
  rw [hheader, length_writeAll hin, List.length_replicate]

/-- The entries of a table, one for each partition. -/
theorem entriesBytes_spec {blockSize : ℤ} {entryId : ℕ} {partitions : List Partition}
    {entries : List (List Byte)} (h : entriesBytes blockSize entryId partitions = .ok entries) :
    List.Forall₂ (EntryOf · blockSize) partitions entries := by
  induction partitions generalizing entryId entries with
  | nil =>
    obtain rfl := Except.ok.inj h
    exact .nil
  | cons partition rest ih =>
    rw [entriesBytes, bind_ok] at h
    obtain ⟨entry, hentry, h⟩ := h
    obtain ⟨more, hmore, h⟩ := bind_ok.mp h
    obtain rfl := pure_ok.mp h
    exact .cons (entryBytes_spec hentry) (ih hmore)

end Pnor

end Jixia
