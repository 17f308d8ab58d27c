/-
Byte buffers with big-endian fields.

A buffer is a list of bytes, read and written in slices; memory is a function from
offsets to bytes.  A 32-bit field has its high byte first, and a table is guarded by
the exclusive or of its words.

* `getElem?_splice`, `slice_splice` — what a write leaves;
* `slice_writeAll`, `getElem?_writeAll_outside` — segments written one after the other;
* `word32_bytes`, `be32_slice` — fields read back;
* `takeWhile_eq_iff` — strings that end with a zero byte;
* `xorWords_slice` — the checksum of a part of a buffer;
* `leXorFrom_eq_zero_iff` — a checksum over words of the other byte order agrees.
-/
import Mathlib.Algebra.Ring.Nat
import Mathlib.Tactic.Common

abbrev Byte := BitVec 8

namespace ByteBuffer

/-! ### Slices -/

/-- `buffer[start : start + size]`. -/
def slice (buffer : List Byte) (start size : ℕ) : List Byte := (buffer.drop start).take size

/-- `buffer[start : start + len(data)] = data`. -/
def splice (buffer : List Byte) (start : ℕ) (data : List Byte) : List Byte :=
  buffer.take start ++ data ++ buffer.drop (start + data.length)

section Slices

variable {buffer data : List Byte} {start i n : ℕ}

theorem getElem?_slice :
    (slice buffer start n)[i]? = if i < n then buffer[start + i]? else none := by
  rw [slice, List.getElem?_take, List.getElem?_drop]

theorem length_splice (h : start + data.length ≤ buffer.length) :
    (splice buffer start data).length = buffer.length := by
  rw [splice, List.length_append, List.length_append, List.length_take, List.length_drop]
  omega

theorem getElem?_splice (h : start + data.length ≤ buffer.length) :
    (splice buffer start data)[i]? =
      if start ≤ i ∧ i < start + data.length then data[i - start]? else buffer[i]? := by
  have htake : (buffer.take start).length = start := by
    rw [List.length_take]
    omega
  rw [splice, List.append_assoc]
  by_cases hlow : i < start
  · rw [List.getElem?_append_left (by omega), List.getElem?_take, if_pos hlow, if_neg (by omega)]
  · rw [List.getElem?_append_right (by omega), htake]
    by_cases hhigh : i < start + data.length
    · rw [List.getElem?_append_left (by omega), if_pos ⟨by omega, hhigh⟩]
    · rw [List.getElem?_append_right (by omega), List.getElem?_drop, if_neg (by omega)]
      congr 1
      omega

/-- What was written reads back. -/
theorem slice_splice (h : start + data.length ≤ buffer.length) :
    slice (splice buffer start data) start data.length = data := by
  apply List.ext_getElem?
  intro i
  rw [getElem?_slice, getElem?_splice h]
  split
  · rw [if_pos (by omega), Nat.add_sub_cancel_left]
  · exact (List.getElem?_eq_none (by omega)).symm

/-- A slice of a slice. -/
theorem slice_slice {a k : ℕ} (h : i + k ≤ n) :
    slice (slice buffer a n) i k = slice buffer (a + i) k := by
  apply List.ext_getElem?
  intro j
  rw [getElem?_slice, getElem?_slice, getElem?_slice]
  split
  · rw [if_pos (by omega), Nat.add_assoc]
  · rfl

/-- A slice in two parts. -/
theorem slice_add {a k : ℕ} :
    slice buffer a (n + k) = slice buffer a n ++ slice buffer (a + n) k := by
  rw [slice, slice, slice, List.take_add, List.drop_drop]

end Slices

/-! ### Segments -/

/-- Data and the place it is written to. -/
structure Segment where
  start : ℕ
  data : List Byte

/-- Where the data of a segment ends. -/
def Segment.stop (s : Segment) : ℕ := s.start + s.data.length

/-- The segments do not meet. -/
def Segment.Apart (s t : Segment) : Prop := s.stop ≤ t.start ∨ t.stop ≤ s.start

/-- The segments written one after the other. -/
def writeAll (buffer : List Byte) (segments : List Segment) : List Byte :=
  segments.foldl (fun buffer s => splice buffer s.start s.data) buffer

section Segments

variable {buffer : List Byte} {segments : List Segment} {i : ℕ}

theorem length_writeAll (hin : ∀ s ∈ segments, s.stop ≤ buffer.length) :
    (writeAll buffer segments).length = buffer.length := by
  induction segments generalizing buffer with
  | nil => rfl
  | cons s rest ih =>
    have hs := hin s List.mem_cons_self
    have hlen : (splice buffer s.start s.data).length = buffer.length := length_splice hs
    rw [writeAll, List.foldl_cons]
    exact (ih fun t ht => hlen.symm ▸ hin t (List.mem_cons_of_mem _ ht)).trans hlen

/-- What lies outside the segments stays. -/
theorem getElem?_writeAll_outside (hin : ∀ s ∈ segments, s.stop ≤ buffer.length)
    (hout : ∀ s ∈ segments, ¬ (s.start ≤ i ∧ i < s.stop)) :
    (writeAll buffer segments)[i]? = buffer[i]? := by
  induction segments generalizing buffer with
  | nil => rfl
  | cons s rest ih =>
    have hs := hin s List.mem_cons_self
    have hlen : (splice buffer s.start s.data).length = buffer.length := length_splice hs
    rw [writeAll, List.foldl_cons]
    refine (ih (fun t ht => hlen.symm ▸ hin t (List.mem_cons_of_mem _ ht))
      fun t ht => hout t (List.mem_cons_of_mem _ ht)).trans ?_
    rw [getElem?_splice hs]
    exact if_neg (hout s List.mem_cons_self)

/-- Segments that do not meet all read back. -/
theorem slice_writeAll (hin : ∀ s ∈ segments, s.stop ≤ buffer.length)
    (hapart : segments.Pairwise Segment.Apart) {s : Segment} (hs : s ∈ segments) :
    slice (writeAll buffer segments) s.start s.data.length = s.data := by
  induction segments generalizing buffer with
  | nil => exact absurd hs List.not_mem_nil
  | cons t rest ih =>
    have ht := hin t List.mem_cons_self
    have hlen : (splice buffer t.start t.data).length = buffer.length := length_splice ht
    have hrest : ∀ u ∈ rest, u.stop ≤ (splice buffer t.start t.data).length :=
      fun u hu => hlen.symm ▸ hin u (List.mem_cons_of_mem _ hu)
    rw [List.pairwise_cons] at hapart
    rw [writeAll, List.foldl_cons]
    rcases List.mem_cons.mp hs with rfl | hs
    · -- The later segments do not meet this one.
      refine Eq.trans (List.ext_getElem? fun i => ?_) (slice_splice ht)
      rw [getElem?_slice, getElem?_slice]
      by_cases hi : i < s.data.length
      · rw [if_pos hi, if_pos hi]
        refine getElem?_writeAll_outside hrest fun u hu hin' => ?_
        rcases hapart.1 u hu with h | h
        · have : s.start + s.data.length ≤ u.start := h
          omega
        · omega
      · rw [if_neg hi, if_neg hi]
    · exact ih hrest hapart.2 hs

end Segments

/-! ### Fields -/

/-- A 32-bit word, high byte first. -/
def word32 (b0 b1 b2 b3 : Byte) : BitVec 32 := b0 ++ b1 ++ b2 ++ b3

/-- A 16-bit word, high byte first. -/
def word16 (b0 b1 : Byte) : BitVec 16 := b0 ++ b1

/-- The bytes of a 32-bit word, high byte first. -/
def be32Bytes (w : BitVec 32) : List Byte :=
  [w.extractLsb' 24 8, w.extractLsb' 16 8, w.extractLsb' 8 8, w.extractLsb' 0 8]

/-- The bytes of a 16-bit word, high byte first. -/
def be16Bytes (w : BitVec 16) : List Byte := [w.extractLsb' 8 8, w.extractLsb' 0 8]

/-- The 32-bit field at an offset. -/
def be32 (f : ℕ → Byte) (i : ℕ) : BitVec 32 := word32 (f i) (f (i + 1)) (f (i + 2)) (f (i + 3))

/-- The 16-bit field at an offset. -/
def be16 (f : ℕ → Byte) (i : ℕ) : BitVec 16 := word16 (f i) (f (i + 1))

/-- A buffer as memory; nothing is stored past its end. -/
def byteAt (buffer : List Byte) (i : ℕ) : Byte := buffer.getD i 0

section Fields

variable {buffer : List Byte} {f : ℕ → Byte} {i : ℕ}

theorem toNat_append {n k : ℕ} (x : BitVec n) (y : BitVec k) :
    (x ++ y).toNat = x.toNat * 2 ^ k + y.toNat := by
  rw [BitVec.toNat_append, ← Nat.shiftLeft_add_eq_or_of_lt y.isLt, Nat.shiftLeft_eq]

theorem toNat_word32 (b0 b1 b2 b3 : Byte) : (word32 b0 b1 b2 b3).toNat =
    b0.toNat * 2 ^ 24 + b1.toNat * 2 ^ 16 + b2.toNat * 2 ^ 8 + b3.toNat := by
  rw [word32, toNat_append, toNat_append, toNat_append]
  omega

theorem toNat_word16 (b0 b1 : Byte) : (word16 b0 b1).toNat = b0.toNat * 2 ^ 8 + b1.toNat := by
  rw [word16, toNat_append]

/-- A word is put together from its bytes. -/
theorem word32_bytes (w : BitVec 32) : word32 (w.extractLsb' 24 8) (w.extractLsb' 16 8)
    (w.extractLsb' 8 8) (w.extractLsb' 0 8) = w := by
  apply BitVec.eq_of_toNat_eq
  have := w.isLt
  simp only [toNat_word32, BitVec.extractLsb'_toNat, Nat.shiftRight_eq_div_pow]
  omega

theorem word16_bytes (w : BitVec 16) : word16 (w.extractLsb' 8 8) (w.extractLsb' 0 8) = w := by
  apply BitVec.eq_of_toNat_eq
  have := w.isLt
  simp only [toNat_word16, BitVec.extractLsb'_toNat, Nat.shiftRight_eq_div_pow]
  omega

/-- An or of parts that do not meet is a sum. -/
theorem toNat_shiftLeft_or {n k : ℕ} {x y : BitVec n} (hx : x.toNat * 2 ^ k < 2 ^ n)
    (hy : y.toNat < 2 ^ k) : (x <<< k ||| y).toNat = x.toNat * 2 ^ k + y.toNat := by
  rw [BitVec.toNat_or, BitVec.toNat_shiftLeft, Nat.shiftLeft_eq, Nat.mod_eq_of_lt hx,
    ← Nat.shiftLeft_eq, Nat.shiftLeft_add_eq_or_of_lt hy]

/-- Four bytes shifted into place, in a register of any width. -/
theorem shifted_bytes {n : ℕ} (hn : 32 ≤ n) (b0 b1 b2 b3 : Byte) :
    b0.setWidth n <<< 24 ||| b1.setWidth n <<< 16 ||| b2.setWidth n <<< 8 ||| b3.setWidth n =
      (word32 b0 b1 b2 b3).setWidth n := by
  have hpow : 2 ^ 32 ≤ 2 ^ n := Nat.pow_le_pow_right (by omega) hn
  have hbyte : ∀ b : Byte, (b.setWidth n).toNat = b.toNat ∧ b.toNat < 256 := by
    intro b
    have := b.isLt
    exact ⟨by rw [BitVec.toNat_setWidth, Nat.mod_eq_of_lt (by omega)], this⟩
  obtain ⟨h0, -⟩ := hbyte b0
  obtain ⟨h1, -⟩ := hbyte b1
  obtain ⟨h2, -⟩ := hbyte b2
  obtain ⟨h3, -⟩ := hbyte b3
  have hlow : (b2.setWidth n <<< 8 ||| b3.setWidth n).toNat = b2.toNat * 2 ^ 8 + b3.toNat := by
    rw [toNat_shiftLeft_or (by omega) (by omega), h2, h3]
  have hmid : (b1.setWidth n <<< 16 ||| (b2.setWidth n <<< 8 ||| b3.setWidth n)).toNat =
      b1.toNat * 2 ^ 16 + (b2.toNat * 2 ^ 8 + b3.toNat) := by
    rw [toNat_shiftLeft_or (by omega) (by omega), h1, hlow]
  apply BitVec.eq_of_toNat_eq
  rw [BitVec.or_assoc, BitVec.or_assoc, toNat_shiftLeft_or (by omega) (by omega), h0, hmid,
    BitVec.toNat_setWidth, toNat_word32, Nat.mod_eq_of_lt (by omega)]
  omega

theorem word32_eq_zero_iff {b0 b1 b2 b3 : Byte} :
    word32 b0 b1 b2 b3 = 0 ↔ b0 = 0 ∧ b1 = 0 ∧ b2 = 0 ∧ b3 = 0 := by
  have hword : (0 : BitVec 32).toNat = 0 := rfl
  have hbyte : (0 : Byte).toNat = 0 := rfl
  simp only [← BitVec.toNat_inj, toNat_word32, hword, hbyte]
  omega

theorem word32_xor (a b c d a' b' c' d' : Byte) :
    word32 a b c d ^^^ word32 a' b' c' d' = word32 (a ^^^ a') (b ^^^ b') (c ^^^ c') (d ^^^ d') := by
  exact (BitVec.xor_append ..).trans (congrArg (· ++ (d ^^^ d')) ((BitVec.xor_append ..).trans
    (congrArg (· ++ (c ^^^ c')) (BitVec.xor_append ..))))

theorem byteAt_slice {start n : ℕ} (h : i < n) :
    byteAt (slice buffer start n) i = byteAt buffer (start + i) := by
  rw [byteAt, byteAt, List.getD_eq_getElem?_getD, List.getD_eq_getElem?_getD, getElem?_slice,
    if_pos h]

/-- A field of a slice is a field of the buffer. -/
theorem be32_slice {start n : ℕ} (h : i + 4 ≤ n) :
    be32 (byteAt (slice buffer start n)) i = be32 (byteAt buffer) (start + i) := by
  simp only [be32]
  rw [byteAt_slice (by omega), byteAt_slice (by omega), byteAt_slice (by omega),
    byteAt_slice (by omega)]
  rfl

theorem be16_slice {start n : ℕ} (h : i + 2 ≤ n) :
    be16 (byteAt (slice buffer start n)) i = be16 (byteAt buffer) (start + i) := by
  simp only [be16]
  rw [byteAt_slice (by omega), byteAt_slice (by omega)]
  rfl

end Fields

/-! ### Strings -/

theorem takeWhile_ne_zero_cons (b : Byte) (buffer : List Byte) :
    (b :: buffer).takeWhile (· ≠ 0) = if b = 0 then [] else b :: buffer.takeWhile (· ≠ 0) := by
  by_cases hb : b = 0
  · rw [if_pos hb, List.takeWhile_cons_of_neg]
    exact fun h => of_decide_eq_true h hb
  · rw [if_neg hb, List.takeWhile_cons_of_pos]
    exact decide_eq_true hb

/-- A string with its terminator stands at the start of a buffer when it is what comes
before the first zero. -/
theorem takeWhile_eq_iff {buffer text : List Byte} (htext : 0 ∉ text) :
    buffer.takeWhile (· ≠ 0) = text ↔ ∀ i ≤ text.length, byteAt buffer i = text.getD i 0 := by
  induction text generalizing buffer with
  | nil =>
    have hfirst : (∀ i ≤ ([] : List Byte).length, byteAt buffer i = [].getD i 0) ↔
        byteAt buffer 0 = 0 := by
      refine ⟨fun h => h 0 (Nat.le_refl 0), fun h i hi => ?_⟩
      rw [Nat.le_zero.mp hi]
      exact h
    rw [hfirst]
    cases buffer with
    | nil => exact iff_of_true rfl rfl
    | cons b buffer =>
      rw [takeWhile_ne_zero_cons]
      by_cases hb : b = 0
      · exact iff_of_true (if_pos hb) hb
      · rw [if_neg hb]
        exact iff_of_false (List.cons_ne_nil _ _) hb
  | cons c text ih =>
    have hc : c ≠ 0 := fun h => htext (h ▸ List.mem_cons_self)
    have hrest : 0 ∉ text := fun h => htext (List.mem_cons_of_mem _ h)
    cases buffer with
    | nil =>
      refine iff_of_false (List.cons_ne_nil _ _).symm fun h => hc ?_
      exact (h 0 (Nat.zero_le _)).symm
    | cons b buffer =>
      have hsplit : (∀ i ≤ (c :: text).length, byteAt (b :: buffer) i = (c :: text).getD i 0) ↔
          b = c ∧ ∀ i ≤ text.length, byteAt buffer i = text.getD i 0 := by
        constructor
        · intro h
          exact ⟨h 0 (Nat.zero_le _), fun i hi => h (i + 1) (Nat.succ_le_succ hi)⟩
        · rintro ⟨rfl, h⟩ i hi
          cases i with
          | zero => rfl
          | succ i => exact h i (Nat.le_of_succ_le_succ hi)
      rw [hsplit, ← ih hrest, takeWhile_ne_zero_cons]
      by_cases hb : b = 0
      · rw [if_pos hb]
        exact iff_of_false (List.cons_ne_nil _ _).symm fun h => hc (h.1.symm.trans hb)
      · rw [if_neg hb, List.cons.injEq]

/-! ### Checksums -/

/-- The exclusive or of the words of a buffer. -/
def xorWords : List Byte → BitVec 32
  | b0 :: b1 :: b2 :: b3 :: rest => word32 b0 b1 b2 b3 ^^^ xorWords rest
  | _ => 0

/-- The exclusive or of `n` words of memory, high byte first. -/
def xorFrom (f : ℕ → Byte) (start : ℕ) : ℕ → BitVec 32
  | 0 => 0
  | n + 1 => be32 f start ^^^ xorFrom f (start + 4) n

/-- The same with the low byte first. -/
def leXorFrom (f : ℕ → Byte) (start : ℕ) : ℕ → BitVec 32
  | 0 => 0
  | n + 1 => word32 (f (start + 3)) (f (start + 2)) (f (start + 1)) (f start) ^^^
      leXorFrom f (start + 4) n

/-- The exclusive or of every fourth byte. -/
def xorLane (f : ℕ → Byte) (start : ℕ) : ℕ → Byte
  | 0 => 0
  | n + 1 => f start ^^^ xorLane f (start + 4) n

section Checksums

/-- The words of a buffer are the words of memory that holds it. -/
theorem xorWords_eq_xorFrom (f : ℕ → Byte) (n start : ℕ) :
    xorWords ((List.range (4 * n)).map fun i => f (start + i)) = xorFrom f start n := by
  induction n generalizing start with
  | zero => rfl
  | succ n ih =>
    have hsplit : (List.range (4 * (n + 1))).map (fun i => f (start + i)) =
        f start :: f (start + 1) :: f (start + 2) :: f (start + 3) ::
          (List.range (4 * n)).map fun i => f (start + 4 + i) := by
      rw [show 4 * (n + 1) = 4 + 4 * n by omega, List.range_add, List.map_append, List.map_map]
      simp only [Function.comp_def, ← Nat.add_assoc]
      rfl
    rw [hsplit, xorWords, ih, xorFrom]
    rfl

/-- The words of a slice are words of the buffer. -/
theorem xorWords_slice {buffer : List Byte} {start n : ℕ} (h : start + 4 * n ≤ buffer.length) :
    xorWords (slice buffer start (4 * n)) = xorFrom (byteAt buffer) start n := by
  rw [← xorWords_eq_xorFrom]
  refine congrArg xorWords (List.ext_getElem? fun i => ?_)
  rw [getElem?_slice, List.getElem?_map]
  by_cases hi : i < 4 * n
  · rw [if_pos hi, List.getElem?_range hi, Option.map_some, byteAt, List.getD_eq_getElem?_getD,
      List.getElem?_eq_getElem (by omega), Option.getD_some]
  · rw [if_neg hi, List.getElem?_eq_none (by rw [List.length_range]; omega), Option.map_none]

/-- Both byte orders split into the four lanes. -/
theorem xorFrom_eq_word32 (f : ℕ → Byte) (n start : ℕ) :
    xorFrom f start n = word32 (xorLane f start n) (xorLane f (start + 1) n)
      (xorLane f (start + 2) n) (xorLane f (start + 3) n) := by
  induction n generalizing start with
  | zero => exact (word32_eq_zero_iff.mpr ⟨rfl, rfl, rfl, rfl⟩).symm
  | succ n ih =>
    rw [xorFrom, ih, be32, word32_xor, Nat.add_right_comm start 4 1, Nat.add_right_comm start 4 2,
      Nat.add_right_comm start 4 3]
    rfl

theorem leXorFrom_eq_word32 (f : ℕ → Byte) (n start : ℕ) :
    leXorFrom f start n = word32 (xorLane f (start + 3) n) (xorLane f (start + 2) n)
      (xorLane f (start + 1) n) (xorLane f start n) := by
  induction n generalizing start with
  | zero => exact (word32_eq_zero_iff.mpr ⟨rfl, rfl, rfl, rfl⟩).symm
  | succ n ih =>
    rw [leXorFrom, ih, word32_xor, Nat.add_right_comm start 4 1, Nat.add_right_comm start 4 2,
      Nat.add_right_comm start 4 3]
    rfl

/-- **The two byte orders agree on whether the checksum is zero.** -/
theorem leXorFrom_eq_zero_iff (f : ℕ → Byte) (start n : ℕ) :
    leXorFrom f start n = 0 ↔ xorFrom f start n = 0 := by
  rw [leXorFrom_eq_word32, xorFrom_eq_word32, word32_eq_zero_iff, word32_eq_zero_iff]
  tauto

end Checksums

end ByteBuffer
