/-
Counting processors in a device tree.

`fdt.cpp`: the kernel reads the number of harts from the flattened device tree that the
firmware hands over.  `cpu_count` is one loop over the tokens of the structure block with
three registers: the depth, the depth of the node `/cpus` while it is open, and whether
the processor node that is open has been counted.

A blob is what can be read from its start on: a byte, or nothing where reading is not
allowed.  Besides returning, the code can read a byte that is not readable, overflow the
depth counter, or run past the bound of a loop.
-/
import Jixia.ByteBuffer
import Jixia.Kernel

namespace Jixia

namespace Fdt

/-- How the code can go wrong. -/
inductive Fault
  | unreadable (offset : ℕ)
  | depthOverflow
  | unbounded
  deriving DecidableEq

/-- The bytes that can be read, by their offset. -/
abbrev Blob := ℕ → Option Byte

abbrev U32 := BitVec 32

def fdtMagic : U32 := 0xd00dfeed
def fdtBeginNode : U32 := 1
def fdtEndNode : U32 := 2
def fdtProp : U32 := 3
def fdtNop : U32 := 4
def fdtEnd : U32 := 9
def fdtHeaderSize : U32 := 40

/-- `"cpus"`, without its terminator. -/
def cpusName : List Byte := [0x63, 0x70, 0x75, 0x73]

/-- `"device_type"`. -/
def deviceTypeName : List Byte :=
  [0x64, 0x65, 0x76, 0x69, 0x63, 0x65, 0x5f, 0x74, 0x79, 0x70, 0x65]

/-- `"cpu"`. -/
def cpuValue : List Byte := [0x63, 0x70, 0x75]

structure CpuCountResult where
  count : U32
  valid : Bool
  deriving DecidableEq

/-! ### The readers -/

variable (blob : Blob)

def readByte (offset : ℕ) : Except Fault Byte :=
  match blob offset with
  | some byte => .ok byte
  | none => .error (.unreadable offset)

def readBe32 (address : ℕ) : Except Fault U32 := do
  let a ← readByte blob address
  let b ← readByte blob (address + 1)
  let c ← readByte blob (address + 2)
  let d ← readByte blob (address + 3)
  return (a.setWidth 32 <<< 24) ||| (b.setWidth 32 <<< 16) ||| (c.setWidth 32 <<< 8) |||
    d.setWidth 32

def align4 (value limit : U32) : Option U32 :=
  if value > limit then none
  else
    let padding := (4 - (value &&& 3)) &&& 3
    if padding > limit - value then none else some (value + padding)

/-- `string_equals` with a string of the program, given without its terminator. -/
def stringEquals (left : ℕ) : List Byte → Except Fault Bool
  | [] => do
    let actual ← readByte blob left
    return actual == 0
  | c :: right => do
    let actual ← readByte blob left
    if actual ≠ c then return false else stringEquals (left + 1) right

/-- The loop of `string_at`: there is a terminator. -/
def findTerminator (strings : ℕ) (stringsSize : U32) : ℕ → U32 → Except Fault Bool
  | 0, _ => .error .unbounded
  | fuel + 1, index =>
    if index < stringsSize then do
      let byte ← readByte blob (strings + index.toNat)
      if byte = 0 then return true else findTerminator strings stringsSize fuel (index + 1)
    else return false

/-- `string_at`, as the answer whether it returns a string. -/
def stringAt (strings : ℕ) (stringsSize offset : U32) : Except Fault Bool :=
  if offset ≥ stringsSize then .ok false
  else findTerminator blob strings stringsSize (stringsSize.toNat + 1) offset

/-- `property_string_equals` from an index on; the value has to end with the terminator. -/
def propertyStringEquals (value : ℕ) (length : U32) : List Byte → U32 → Except Fault Bool
  | [], index =>
    if index ≥ length then .ok false
    else do
      let byte ← readByte blob (value + index.toNat)
      if byte ≠ 0 then return false else return length == index + 1
  | c :: expected, index =>
    if index ≥ length then .ok false
    else do
      let byte ← readByte blob (value + index.toNat)
      if byte ≠ c then return false
      else propertyStringEquals value length expected (index + 1)

/-! ### The token loop -/

/-- The blocks of the blob, as the header describes them. -/
structure Layout where
  structureOffset : U32
  stringsOffset : U32
  stringsSize : U32
  structureSize : U32

/-- The variables of the loop; `depth` and `cpusDepth` are signed. -/
structure Loop where
  cursor : U32
  depth : ℤ
  cpusDepth : ℤ
  currentCpuCounted : Bool
  count : U32

/-- How one turn of the loop ends. -/
inductive Turn
  | next (loop : Loop)
  | stop (result : CpuCountResult)

/-- `return result` before the tree is complete. -/
def Loop.reject (loop : Loop) : Turn := .stop ⟨loop.count, false⟩

variable (l : Layout)

/-- An offset into the structure block. -/
def Layout.at (offset : ℕ) : ℕ := l.structureOffset.toNat + offset

/-- The loop over a node name. -/
def skipName : ℕ → U32 → Except Fault U32
  | 0, _ => .error .unbounded
  | fuel + 1, cursor =>
    if cursor < l.structureSize then do
      let byte ← readByte blob (l.at cursor.toNat)
      if byte ≠ 0 then skipName fuel (cursor + 1) else return cursor
    else return cursor

/-- The node is `/cpus`; its name is read only at depth 1. -/
def isCpusNode (depth : ℤ) (nameOffset : U32) : Except Fault Bool :=
  if depth = 1 then stringEquals blob (l.at nameOffset.toNat) cpusName else .ok false

/-- The registers once a node has been entered. -/
def Loop.entered (loop : Loop) (cursor : U32) (isCpus : Bool) : Loop :=
  let depth := loop.depth + 1
  let cpusDepth := if isCpus then depth else loop.cpusDepth
  { loop with
    cursor := cursor
    depth := depth
    cpusDepth := cpusDepth
    currentCpuCounted :=
      if cpusDepth ≥ 0 ∧ depth = cpusDepth + 1 then false else loop.currentCpuCounted }

/-- `FDT_BEGIN_NODE`. -/
def beginNode (loop : Loop) : Except Fault Turn := do
  let nameOffset := loop.cursor
  let cursor ← skipName blob l (l.structureSize.toNat + 1) loop.cursor
  if cursor ≥ l.structureSize then return loop.reject
  else
    match align4 (cursor + 1) l.structureSize with
    | none => return loop.reject
    | some cursor =>
      if loop.depth ≥ 0x7fffffff then .error .depthOverflow
      else do
        let isCpus ← isCpusNode blob l (loop.depth + 1) nameOffset
        return .next (loop.entered cursor isCpus)

/-- `FDT_END_NODE`. -/
def endNode (loop : Loop) : Turn :=
  if loop.depth < 0 then loop.reject
  else .next { loop with
    cpusDepth := if loop.depth = loop.cpusDepth then -1 else loop.cpusDepth
    depth := loop.depth - 1 }

/-- The property makes the open node a processor; the strings are read only as far as the
conditions before them hold. -/
def isCpuProperty (loop : Loop) (name value : ℕ) (length : U32) : Except Fault Bool :=
  if loop.cpusDepth ≥ 0 ∧ loop.depth = loop.cpusDepth + 1 ∧ loop.currentCpuCounted = false then do
    let isDeviceType ← stringEquals blob name deviceTypeName
    if isDeviceType then propertyStringEquals blob value length cpuValue 0 else return false
  else .ok false

/-- The registers once a property has been read. -/
def Loop.counted (loop : Loop) (cursor : U32) (isCpu : Bool) : Loop :=
  { loop with
    cursor := cursor
    count := if isCpu then loop.count + 1 else loop.count
    currentCpuCounted := isCpu || loop.currentCpuCounted }

/-- The part of `FDT_PROP` after the lengths have been checked. -/
def propValue (loop : Loop) (cursor length nameOffset : U32) : Except Fault Turn := do
  let named ← stringAt blob l.stringsOffset.toNat l.stringsSize nameOffset
  if named = false then return loop.reject
  else do
    let isCpu ← isCpuProperty blob loop (l.stringsOffset.toNat + nameOffset.toNat)
      (l.at cursor.toNat) length
    match align4 (cursor + length) l.structureSize with
    | none => return (loop.counted cursor isCpu).reject
    | some cursor => return .next (loop.counted cursor isCpu)

/-- `FDT_PROP`. -/
def prop (loop : Loop) : Except Fault Turn :=
  if l.structureSize - loop.cursor < 8 then .ok loop.reject
  else do
    let length ← readBe32 blob (l.at loop.cursor.toNat)
    let nameOffset ← readBe32 blob (l.at (loop.cursor.toNat + 4))
    let cursor := loop.cursor + 8
    if length > l.structureSize - cursor then return loop.reject
    else propValue blob l loop cursor length nameOffset

/-- What a token asks for. -/
def token (loop : Loop) (value : U32) : Except Fault Turn :=
  if value = fdtBeginNode then beginNode blob l loop
  else if value = fdtEndNode then .ok (endNode loop)
  else if value = fdtProp then prop blob l loop
  else if value = fdtNop then .ok (.next loop)
  else if value = fdtEnd then
    .ok (if loop.depth ≠ -1 then loop.reject else .stop ⟨loop.count, true⟩)
  else .ok loop.reject

/-- One turn of the loop. -/
def turn (loop : Loop) : Except Fault Turn := do
  let value ← readBe32 blob (l.at loop.cursor.toNat)
  token blob l { loop with cursor := loop.cursor + 4 } value

/-- The loop, for at most `turns` turns. -/
def tokenLoop : ℕ → Loop → Except Fault CpuCountResult
  | 0, loop =>
    if loop.cursor + 4 ≤ l.structureSize then .error .unbounded else .ok ⟨loop.count, false⟩
  | turns + 1, loop =>
    if loop.cursor + 4 ≤ l.structureSize then do
      match ← turn blob l loop with
      | .next loop => tokenLoop turns loop
      | .stop result => return result
    else .ok ⟨loop.count, false⟩

/-- The variables before the first turn. -/
def Loop.start : Loop := ⟨0, -1, -1, false, 0⟩

/-- `cpu_count` from the checks of the header on. -/
def countIn (totalSize : U32) : Except Fault CpuCountResult :=
  if totalSize < fdtHeaderSize then .ok ⟨0, false⟩
  else if l.structureOffset > totalSize then .ok ⟨0, false⟩
  else if l.structureSize > totalSize - l.structureOffset then .ok ⟨0, false⟩
  else if l.stringsOffset > totalSize then .ok ⟨0, false⟩
  else if l.stringsSize > totalSize - l.stringsOffset then .ok ⟨0, false⟩
  else tokenLoop blob l (l.structureSize.toNat / 4) .start

/-- `cpu_count`; the blob stands at `dtbAddress`. -/
def cpuCount (dtbAddress : Word) : Except Fault CpuCountResult :=
  if dtbAddress = 0 then .ok ⟨0, false⟩
  else do
    let magic ← readBe32 blob 0
    if magic ≠ fdtMagic then return ⟨0, false⟩
    else do
      let totalSize ← readBe32 blob 4
      let structureOffset ← readBe32 blob 8
      let stringsOffset ← readBe32 blob 12
      let stringsSize ← readBe32 blob 32
      let structureSize ← readBe32 blob 36
      countIn blob ⟨structureOffset, stringsOffset, stringsSize, structureSize⟩ totalSize

end Fdt

end Jixia
