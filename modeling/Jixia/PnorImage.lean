/-
PNOR images.

`tools/pnor/ffs.py`: the packer and the inspector of flash images.  A Python integer is
an `ℤ`, or an `ℕ` where it is built from lengths and flags; a string is a list of
characters; what a call raises is a `PnorError`.  The manifest is taken after it was
parsed, with its numbers and truth values converted; the sources are the contents of the
files they name.
-/
import Mathlib.Data.Int.Bitwise
import Jixia.ByteBuffer
import Jixia.Guarded

namespace Jixia

open ByteBuffer Guarded

namespace Pnor

/-- A Python string. -/
abbrev Text := List Char

/-- What the tools raise. -/
inductive PnorError where
  | zeroDivision
  | packRange
  | asciiCodec
  | alignment (alignment : ℤ)
  | checksumInput
  | partitionName (name : Text)
  | notBlockAligned (name : Text)
  | actualSize (name : Text)
  | checksumConstruction
  | unknownMiscFlag (value : Text)
  | missingInput (key : Text)
  | emptyInput (key : Text)
  | imageSize
  | tocAlignment
  | tocExceedsImage
  | dataOffset
  | fillByte
  | offsetAlignment (name : Text)
  | reservedSize (name : Text)
  | exceedsImage (name : Text)
  | overlaps (name other : Text)
  | entriesExceedToc
  | tocOffset
  | headerChecksum
  | unsupportedHeader
  | geometry
  | entryChecksum (index : ℕ)
  | range (name : Text)
  | stage0Limit
  | layoutDrift
  | blockCount
  | noBasePartition
  deriving DecidableEq

abbrev Result := Except PnorError

/-! ### Constants -/

def ffsMagic : ℤ := 0x50415254
def ffsVersion : ℤ := 1
abbrev ffsHeaderSize : ℕ := 48
abbrev ffsEntrySize : ℕ := 128
abbrev ffsPartNameMax : ℕ := 15
def ffsPidToplevel : ℤ := 0xFFFFFFFF
def ffsTypeData : ℕ := 1
def ffsTypePartition : ℕ := 3
def ffsIntegEcc : ℕ := 0x8000
def ffsVercheckSha512v : ℕ := 0x80
def ffsVercheckSha512ec : ℕ := 0x40

def ffsMiscflags : List (Text × ℕ) :=
  [("preserved".toList, 0x80), ("readonly".toList, 0x40), ("backup".toList, 0x20),
    ("reprovision".toList, 0x10), ("volatile".toList, 0x08), ("clear_ecc".toList, 0x04),
    ("golden".toList, 0x01)]

/-! ### Records -/

structure Partition where
  name : Text
  offset : ℤ
  allocatedSize : ℤ
  actualSize : ℕ
  sourceKey : Option Text
  payload : List Byte
  flags : ℕ
  dataIntegrity : ℕ
  versionCheck : ℕ
  miscFlags : ℕ
  partitionType : ℕ
  deriving DecidableEq

structure ImageResult where
  imageSize : ℤ
  blockSize : ℤ
  tocOffset : ℤ
  tocSize : ℤ
  partitions : List Partition
  deriving DecidableEq

/-- `ImageResult.partition`: the first partition with the name. -/
def ImageResult.partition (result : ImageResult) (name : Text) : Option Partition :=
  result.partitions.find? fun partition => partition.name == name

/-- The `image` section of a manifest. -/
structure ImageSpec where
  size : ℤ
  blockSize : ℤ
  tocOffset : ℤ
  tocSize : ℤ
  dataOffset : ℤ
  fill : Option ℤ
  deriving DecidableEq

/-- A `partition` section of a manifest. -/
structure PartitionSpec where
  name : Text
  source : Option Text
  optional : Bool
  padTo : Option ℤ
  align : Option ℤ
  offset : Option ℤ
  size : Option ℤ
  miscFlags : List Text
  ecc : Bool
  sha512Version : Bool
  sha512PerEc : Bool
  deriving DecidableEq

structure Manifest where
  image : ImageSpec
  partitions : List PartitionSpec
  deriving DecidableEq

/-- The files that a build is given, by key. -/
abbrev Sources := Text → Option (List Byte)

/-! ### Buffers -/

/-- A slice bound of Python, for a buffer of length `n`. -/
def sliceIndex (n : ℕ) (i : ℤ) : ℕ := if i < 0 then (i + n).toNat else min i.toNat n

/-- `buffer[start:stop]`. -/
def getSlice (buffer : List Byte) (start stop : ℤ) : List Byte :=
  slice buffer (sliceIndex buffer.length start)
    (sliceIndex buffer.length stop - sliceIndex buffer.length start)

/-- `buffer[start:stop] = data`. -/
def setSlice (buffer : List Byte) (start stop : ℤ) (data : List Byte) : List Byte :=
  buffer.take (sliceIndex buffer.length start) ++ data ++
    buffer.drop (max (sliceIndex buffer.length start) (sliceIndex buffer.length stop))

/-- `struct.pack(">I", value)`. -/
def packU32 (value : ℤ) : Result (List Byte) :=
  if 0 ≤ value ∧ value < 2 ^ 32 then .ok (be32Bytes (BitVec.ofInt 32 value)) else .error .packRange

/-- `struct.pack(">H", value)`. -/
def packU16 (value : ℤ) : Result (List Byte) :=
  if 0 ≤ value ∧ value < 2 ^ 16 then .ok (be16Bytes (BitVec.ofInt 16 value)) else .error .packRange

/-- An assignment of an integer to an element of a `bytearray`. -/
def packU8 (value : ℤ) : Result (List Byte) :=
  if 0 ≤ value ∧ value < 2 ^ 8 then .ok [BitVec.ofInt 8 value] else .error .packRange

/-- `struct.pack(">7I", ...)`. -/
def packWords (values : List ℤ) : Result (List Byte) := do
  let words ← values.mapM packU32
  return words.flatten

/-- A word of `struct.unpack_from(">7I", ...)`. -/
def unpackU32 (data : List Byte) (offset : ℕ) : ℕ := (be32 (byteAt data) offset).toNat

def unpackU16 (data : List Byte) (offset : ℕ) : ℕ := (be16 (byteAt data) offset).toNat

/-! ### The packer -/

def alignUp (value alignment : ℤ) : Result ℤ :=
  if alignment ≤ 0 ∨ Int.land alignment (alignment - 1) ≠ 0 then .error (.alignment alignment)
  else .ok (Int.land (value + alignment - 1) (Int.lnot (alignment - 1)))

/-- `_xor_words`. -/
def xorWords (data : List Byte) : Result (BitVec 32) :=
  if data.length % 4 ≠ 0 then .error .checksumInput else .ok (ByteBuffer.xorWords data)

/-- `name.encode("ascii")`. -/
def encodeAscii (name : Text) : Result (List Byte) :=
  name.mapM fun c => if c.toNat < 128 then .ok (BitVec.ofNat 8 c.toNat) else .error .asciiCodec

def nameBytes (name : Text) : Result (List Byte) := do
  let encoded ← encodeAscii name
  require (¬ (encoded = [] ∨ encoded.length > ffsPartNameMax)) (.partitionName name)
  return encoded ++ List.replicate (ffsPartNameMax + 1 - encoded.length) 0

def entryBytes (partition : Partition) (blockSize : ℤ) (entryId : ℕ) : Result (List Byte) := do
  require (¬ (partition.offset.fmod blockSize ≠ 0 ∨ partition.allocatedSize.fmod blockSize ≠ 0))
    (.notBlockAligned partition.name)
  require (¬ partition.actualSize > partition.allocatedSize) (.actualSize partition.name)
  let entry : List Byte := List.replicate ffsEntrySize 0
  let name ← nameBytes partition.name
  let entry := splice entry 0 name
  let words ← packWords [partition.offset.fdiv blockSize, partition.allocatedSize.fdiv blockSize,
    ffsPidToplevel, entryId, partition.partitionType, partition.flags, partition.actualSize]
  let entry := splice entry 16 words
  let entry := splice entry 60 [0]
  let entry := splice entry 61 [0]
  let dataIntegrity ← packU16 partition.dataIntegrity
  let entry := splice entry 62 dataIntegrity
  let versionCheck ← packU8 partition.versionCheck
  let entry := splice entry 64 versionCheck
  let miscFlags ← packU8 partition.miscFlags
  let entry := splice entry 65 miscFlags
  let checksum ← xorWords entry
  let entry := splice entry 124 (be32Bytes checksum)
  let check ← xorWords entry
  require (¬ check ≠ 0) .checksumConstruction
  return entry

def headerBytes (tocSize : ℤ) (entryCount : ℕ) (blockSize blockCount : ℤ) :
    Result (List Byte) := do
  let header : List Byte := List.replicate ffsHeaderSize 0
  let words ← packWords [ffsMagic, ffsVersion, tocSize.fdiv blockSize, (ffsEntrySize : ℤ),
    entryCount, blockSize, blockCount]
  let header := splice header 0 words
  let checksum ← xorWords header
  let header := splice header 44 (be32Bytes checksum)
  let check ← xorWords header
  require (¬ check ≠ 0) .checksumConstruction
  return header

/-- `_misc_flags`. -/
def miscFlags (values : List Text) : Result ℕ :=
  values.foldlM (fun result value =>
    match ffsMiscflags.lookup value with
    | none => .error (.unknownMiscFlag value)
    | some flag => .ok (result ||| flag)) 0

/-- `_payload_for`; the key that it returns with the payload is that of the section. -/
def payloadFor (spec : PartitionSpec) (sources : Sources) (fill : Byte) : Result (List Byte) :=
  match spec.source with
  | none => .ok []
  | some key =>
    match sources key with
    | none => if spec.optional then .ok [] else .error (.missingInput key)
    | some payload =>
      if payload = [] then .error (.emptyInput key)
      else if spec.padTo.getD 1 > 1 then do
        let paddedSize ← alignUp payload.length (spec.padTo.getD 1)
        return payload ++ List.replicate (paddedSize - payload.length).toNat fill
      else .ok payload

/-- The range of a placed partition, with its name. -/
structure Interval where
  start : ℤ
  stop : ℤ
  name : Text
  deriving DecidableEq

/-- What the loop over the partitions carries. -/
structure Layout where
  partitions : List Partition
  intervals : List Interval
  cursor : ℤ
  deriving DecidableEq

def checkOverlaps (name : Text) (offset stop : ℤ) : List Interval → Result Unit
  | [] => .ok ()
  | other :: rest =>
    if offset < other.stop ∧ other.start < stop then .error (.overlaps name other.name)
    else checkOverlaps name offset stop rest

/-- A section that names a source which is not there, and may be left out. -/
def PartitionSpec.absent (spec : PartitionSpec) (sources : Sources) : Bool :=
  match spec.source with
  | none => false
  | some key => (sources key).isNone && spec.optional

/-- The size of a partition. -/
def allocatedSizeOf (spec : PartitionSpec) (blockSize : ℤ) (payload : List Byte) : Result ℤ :=
  match spec.size with
  | none => alignUp (max payload.length 1) blockSize
  | some allocatedSize =>
    if allocatedSize.fmod blockSize ≠ 0 ∨ allocatedSize < payload.length then
      .error (.reservedSize spec.name)
    else .ok allocatedSize

/-- The offset of a partition. -/
def offsetOf (spec : PartitionSpec) (blockSize cursor : ℤ) : Result ℤ :=
  match spec.offset with
  | none => alignUp cursor (spec.align.getD blockSize)
  | some offset => .ok offset

/-- One turn of the loop, for a section that is not left out. -/
def placePartition (image : ImageSpec) (layout : Layout) (spec : PartitionSpec)
    (payload : List Byte) : Result Layout := do
  let offset ← offsetOf spec image.blockSize layout.cursor
  require (¬ offset.fmod image.blockSize ≠ 0) (.offsetAlignment spec.name)
  let allocatedSize ← allocatedSizeOf spec image.blockSize payload
  let stop := offset + allocatedSize
  require (¬ (stop ≤ offset ∨ stop > image.size)) (.exceedsImage spec.name)
  checkOverlaps spec.name offset stop layout.intervals
  let flags ← miscFlags spec.miscFlags
  let partition : Partition :=
    { name := spec.name
      offset := offset
      allocatedSize := allocatedSize
      actualSize := payload.length
      sourceKey := spec.source
      payload := payload
      flags := 0
      dataIntegrity := if spec.ecc then ffsIntegEcc else 0
      versionCheck := (if spec.sha512Version then ffsVercheckSha512v else 0) |||
        (if spec.sha512PerEc then ffsVercheckSha512ec else 0)
      miscFlags := flags
      partitionType := ffsTypeData }
  return ⟨layout.partitions ++ [partition], layout.intervals ++ [⟨offset, stop, spec.name⟩],
    max layout.cursor stop⟩

/-- One turn of the loop. -/
def addPartition (image : ImageSpec) (sources : Sources) (fill : Byte) (layout : Layout)
    (spec : PartitionSpec) : Result Layout := do
  let payload ← payloadFor spec sources fill
  if spec.absent sources then return layout else placePartition image layout spec payload

/-- The checks of the `image` section. -/
def checkImage (image : ImageSpec) : Result Unit := do
  require (¬ image.size ≤ 0) .imageSize
  require (image.blockSize ≠ 0) .zeroDivision
  require (¬ image.size.fmod image.blockSize ≠ 0) .imageSize
  require (¬ (image.tocOffset.fmod image.blockSize ≠ 0 ∨ image.tocSize.fmod image.blockSize ≠ 0))
    .tocAlignment
  require (¬ image.tocOffset + image.tocSize > image.size) .tocExceedsImage
  require (¬ (image.dataOffset < image.tocOffset + image.tocSize ∨
    image.dataOffset.fmod image.blockSize ≠ 0)) .dataOffset
  require (0 ≤ image.fill.getD 0xFF ∧ image.fill.getD 0xFF ≤ 0xFF) .fillByte

/-- `"part"`. -/
def tocName : Text := ['p', 'a', 'r', 't']

/-- The byte that fills what nothing is written to. -/
def ImageSpec.fillByte (image : ImageSpec) : Byte := BitVec.ofInt 8 (image.fill.getD 0xFF)

/-- The partition of the table itself. -/
def tocPartition (image : ImageSpec) (count : ℕ) : Partition :=
  { name := tocName
    offset := image.tocOffset
    allocatedSize := image.tocSize
    actualSize := ffsHeaderSize + (count + 1) * ffsEntrySize
    sourceKey := none
    payload := []
    flags := 0
    dataIntegrity := 0
    versionCheck := 0
    miscFlags := 0x40
    partitionType := ffsTypePartition }

/-- The entries of a table, with their identifiers from `entryId` on. -/
def entriesBytes (blockSize : ℤ) : ℕ → List Partition → Result (List (List Byte))
  | _, [] => .ok []
  | entryId, partition :: rest => do
    let entry ← entryBytes partition blockSize entryId
    let entries ← entriesBytes blockSize (entryId + 1) rest
    return entry :: entries

/-- The payload of a partition put in its place. -/
def writePayload (buffer : List Byte) (partition : Partition) : List Byte :=
  setSlice buffer partition.offset (partition.offset + partition.payload.length) partition.payload

/-- The image: the fill byte, then the table, then the payloads. -/
def imageBytes (image : ImageSpec) (header entries : List Byte) (partitions : List Partition) :
    List Byte :=
  let buffer := List.replicate image.size.toNat image.fillByte
  let buffer := setSlice buffer image.tocOffset (image.tocOffset + header.length) header
  let buffer := setSlice buffer (image.tocOffset + header.length)
    (image.tocOffset + header.length + entries.length) entries
  partitions.foldl writePayload buffer

def buildImage (manifest : Manifest) (sources : Sources) : Result (ImageResult × List Byte) := do
  let image := manifest.image
  checkImage image
  let layout ← manifest.partitions.foldlM (addPartition image sources image.fillByte)
    ⟨[], [⟨image.tocOffset, image.tocOffset + image.tocSize, tocName⟩], image.dataOffset⟩
  let partitions := layout.partitions
  require (¬ ((ffsHeaderSize + (partitions.length + 1) * ffsEntrySize : ℕ) : ℤ) > image.tocSize)
    .entriesExceedToc
  let allPartitions := tocPartition image partitions.length :: partitions
  let header ← headerBytes image.tocSize allPartitions.length image.blockSize
    (image.size.fdiv image.blockSize)
  let entries ← entriesBytes image.blockSize 1 allPartitions
  return (⟨image.size, image.blockSize, image.tocOffset, image.tocSize, allPartitions⟩,
    imageBytes image header entries.flatten partitions)

/-! ### The inspector -/

/-- `bytes.decode("ascii")`. -/
def decodeAscii (bytes : List Byte) : Result Text :=
  bytes.mapM fun b => if b.toNat < 128 then .ok (Char.ofNat b.toNat) else .error .asciiCodec

/-- The name of an entry: the bytes before the first zero. -/
def entryName (entry : List Byte) : Result Text :=
  decodeAscii ((slice entry 0 16).takeWhile (· ≠ 0))

/-- One turn of the loop over the entries. -/
def inspectEntry (image : List Byte) (tocOffset : ℤ) (blockSize index : ℕ) : Result Partition := do
  let start := tocOffset + ffsHeaderSize + index * ffsEntrySize
  let entry := getSlice image start (start + ffsEntrySize)
  require (¬ entry.length ≠ ffsEntrySize) (.entryChecksum index)
  let checksum ← xorWords entry
  require (¬ checksum ≠ 0) (.entryChecksum index)
  let name ← entryName entry
  let base := unpackU32 entry 16
  let size := unpackU32 entry 20
  let partitionType := unpackU32 entry 32
  let flags := unpackU32 entry 36
  let actual := unpackU32 entry 40
  let dataIntegrity := unpackU16 entry 62
  let versionCheck := (byteAt entry 64).toNat
  let miscFlags := (byteAt entry 65).toNat
  let offset := base * blockSize
  let allocatedSize := size * blockSize
  require (¬ (offset + allocatedSize > image.length ∨ actual > allocatedSize)) (.range name)
  return { name := name
           offset := offset
           allocatedSize := allocatedSize
           actualSize := actual
           sourceKey := none
           payload := []
           flags := flags
           dataIntegrity := dataIntegrity
           versionCheck := versionCheck
           miscFlags := miscFlags
           partitionType := partitionType }

def inspectImage (image : List Byte) (tocOffset : ℤ) : Result ImageResult := do
  require (¬ (tocOffset < 0 ∨ tocOffset + ffsHeaderSize > image.length)) .tocOffset
  let header := getSlice image tocOffset (tocOffset + ffsHeaderSize)
  let checksum ← xorWords header
  require (¬ checksum ≠ 0) .headerChecksum
  let magic := unpackU32 header 0
  let version := unpackU32 header 4
  let tableBlocks := unpackU32 header 8
  let entrySize := unpackU32 header 12
  let entryCount := unpackU32 header 16
  let blockSize := unpackU32 header 20
  let blockCount := unpackU32 header 24
  require (¬ ((magic : ℤ) ≠ ffsMagic ∨ (version : ℤ) ≠ ffsVersion ∨ entrySize ≠ ffsEntrySize))
    .unsupportedHeader
  require (¬ blockCount * blockSize ≠ image.length) .geometry
  let tocSize := tableBlocks * blockSize
  require (¬ ffsHeaderSize + entryCount * ffsEntrySize > tocSize) .entriesExceedToc
  let partitions ← (List.range entryCount).mapM (inspectEntry image tocOffset blockSize)
  return ⟨image.length, blockSize, tocOffset, tocSize, partitions⟩

end Pnor

end Jixia
