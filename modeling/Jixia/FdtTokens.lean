/-
Tokens of a flattened device tree in memory.

`TokenAt` says which bytes of the structure block are a token, and `decode` computes it.
The readers of `fdt.cpp` are characterised by the strings that stand in memory.

* `stringEquals_ok`, `propertyStringEquals_ok`, `stringAt_ok`, `skipName_ok`, `align4_eq` —
  what the readers compute, inside of the block that they are given;
* `decode_eq_some_iff` — the decoder computes the token at an offset;
* `TokenAt.next` — where the token after it stands.
-/
import Jixia.FdtTree

namespace Jixia

open ByteBuffer

namespace Fdt

/-! ### Strings in memory -/

/-- The bytes of a list stand in memory from an offset on. -/
def BytesAt (bytes : ℕ → Byte) : ℕ → List Byte → Prop
  | _, [] => True
  | i, b :: s => bytes i = b ∧ BytesAt bytes (i + 1) s

/-- The bytes of memory from an offset on. -/
def bytesFrom (bytes : ℕ → Byte) : ℕ → ℕ → List Byte
  | _, 0 => []
  | i, n + 1 => bytes i :: bytesFrom bytes (i + 1) n

/-- The string that starts at an offset and ends within `n` bytes. -/
def cstring (bytes : ℕ → Byte) : ℕ → ℕ → Option (List Byte)
  | _, 0 => none
  | i, n + 1 => if bytes i = 0 then some [] else (cstring bytes (i + 1) n).map (bytes i :: ·)

section Strings

variable {bytes : ℕ → Byte}

theorem bytesFrom_eq_iff {i n : ℕ} {s : List Byte} :
    bytesFrom bytes i n = s ↔ s.length = n ∧ BytesAt bytes i s := by
  induction n generalizing i s with
  | zero =>
    cases s with
    | nil => exact ⟨fun _ => ⟨rfl, trivial⟩, fun _ => rfl⟩
    | cons b s =>
      exact ⟨fun h => (List.cons_ne_nil b s h.symm).elim, fun h => (Nat.succ_ne_zero _ h.1).elim⟩
  | succ n ih =>
    cases s with
    | nil =>
      exact ⟨fun h => (List.cons_ne_nil _ _ h).elim, fun h => (Nat.succ_ne_zero n h.1.symm).elim⟩
    | cons b s =>
      rw [bytesFrom, List.cons_eq_cons, ih, List.length_cons, BytesAt, Nat.succ_inj]
      exact and_left_comm

theorem cstring_eq_some_iff {i n : ℕ} {s : List Byte} :
    cstring bytes i n = some s ↔ 0 ∉ s ∧ BytesAt bytes i (s ++ [0]) ∧ s.length < n := by
  induction n generalizing i s with
  | zero =>
    exact ⟨fun h => (Option.some_ne_none s h.symm).elim, fun h => absurd h.2.2 (Nat.not_lt_zero _)⟩
  | succ n ih =>
    rw [cstring]
    by_cases h0 : bytes i = 0
    · rw [if_pos h0]
      constructor
      · intro h
        cases h
        exact ⟨List.not_mem_nil, ⟨h0, trivial⟩, Nat.succ_pos n⟩
      · rintro ⟨hmem, hat, -⟩
        cases s with
        | nil => rfl
        | cons b s => exact absurd (hat.1.symm.trans h0 ▸ List.mem_cons_self) hmem
    · rw [if_neg h0, Option.map_eq_some_iff]
      constructor
      · rintro ⟨s', hs', rfl⟩
        obtain ⟨hmem, hat, hlt⟩ := ih.mp hs'
        refine ⟨fun h => ?_, ⟨rfl, hat⟩, Nat.succ_lt_succ hlt⟩
        cases List.mem_cons.mp h with
        | inl h => exact h0 h.symm
        | inr h => exact hmem h
      · rintro ⟨hmem, hat, hlt⟩
        cases s with
        | nil => exact absurd hat.1 h0
        | cons b s =>
          refine ⟨s, ih.mpr ⟨fun h => hmem (List.mem_cons_of_mem b h), hat.2,
            Nat.lt_of_succ_lt_succ hlt⟩, ?_⟩
          rw [hat.1]

end Strings

/-! ### What the readers compute -/

/-- A part of memory that can be read. -/
def Readable (blob : Blob) (bytes : ℕ → Byte) (low high : ℕ) : Prop :=
  ∀ i, low ≤ i → i < high → blob i = some (bytes i)

section Readers

variable {blob : Blob} {bytes : ℕ → Byte} {low high : ℕ}

theorem ok_bind {α β : Type} (a : α) (f : α → Except Fault β) : (Except.ok a >>= f) = f a := rfl

theorem readByte_ok (h : Readable blob bytes low high) {i : ℕ} (hl : low ≤ i) (hi : i < high) :
    readByte blob i = .ok (bytes i) := by
  rw [readByte, h i hl hi]

theorem readBe32_ok (h : Readable blob bytes low high) {i : ℕ} (hl : low ≤ i)
    (hi : i + 4 ≤ high) : readBe32 blob i = .ok (be32 bytes i) := by
  rw [readBe32, readByte_ok h (by omega) (by omega), readByte_ok h (by omega) (by omega),
    readByte_ok h (by omega) (by omega), readByte_ok h (by omega) (by omega), be32,
    ← BitVec.setWidth_eq (word32 _ _ _ _), ← shifted_bytes (le_refl 32)]
  rfl

/-- `string_equals` compares whole strings. -/
theorem stringEquals_ok (h : Readable blob bytes low high) {i : ℕ} {s right : List Byte}
    (hs : 0 ∉ s) (hright : 0 ∉ right) (hat : BytesAt bytes i (s ++ [0])) (hl : low ≤ i)
    (hi : i + s.length < high) : stringEquals blob i right = .ok (decide (s = right)) := by
  induction right generalizing i s with
  | nil =>
    rw [stringEquals, readByte_ok h (by omega) (by omega)]
    cases s with
    | nil =>
      rw [hat.1]
      rfl
    | cons b s =>
      have hb : bytes i ≠ 0 := fun h0 => hs (hat.1.symm.trans h0 ▸ List.mem_cons_self)
      exact congrArg Except.ok (beq_false_of_ne hb)
  | cons c right ih =>
    rw [stringEquals, readByte_ok h (by omega) (by omega)]
    have hc : c ≠ 0 := fun h0 => hright (h0 ▸ List.mem_cons_self)
    cases s with
    | nil =>
      have hne : bytes i ≠ c := fun hc' => hc (hc'.symm.trans hat.1)
      exact if_pos hne
    | cons b s =>
      rw [List.length_cons] at hi
      by_cases hbc : bytes i = c
      · refine (if_neg (not_not.mpr hbc)).trans ?_
        rw [ih (fun h0 => hs (List.mem_cons_of_mem b h0))
          (fun h0 => hright (List.mem_cons_of_mem c h0)) hat.2 (by omega) (by omega)]
        refine congrArg Except.ok (decide_eq_decide.mpr ?_)
        rw [List.cons_eq_cons, ← hat.1, eq_true hbc, true_and]
      · refine (if_pos hbc).trans ?_
        exact congrArg Except.ok (decide_eq_false fun heq =>
          hbc (hat.1.trans (List.cons_eq_cons.mp heq).1)).symm

theorem toNat_add_one {index : U32} (h : index.toNat + 1 < 2 ^ 32) :
    (index + 1).toNat = index.toNat + 1 := by
  rw [BitVec.toNat_add]
  exact Nat.mod_eq_of_lt h

/-- `property_string_equals` compares the value with the string and its terminator. -/
theorem propertyStringEquals_ok (h : Readable blob bytes low high) {value : ℕ} {length : U32}
    {expected rest : List Byte} {index : U32} (hat : BytesAt bytes (value + index.toNat) rest)
    (hlen : index.toNat + rest.length = length.toNat) (hl : low ≤ value)
    (hb : value + length.toNat ≤ high) :
    propertyStringEquals blob value length expected index =
      .ok (decide (rest = expected ++ [0])) := by
  induction rest generalizing index expected with
  | nil =>
    have hend : length ≤ index := BitVec.le_def.mpr (by simp at hlen; omega)
    cases expected <;> exact if_pos hend
  | cons b rest ih =>
    rw [List.length_cons] at hlen
    have hone := toNat_add_one (show index.toNat + 1 < 2 ^ 32 by omega)
    have hin : ¬length ≤ index := fun hle => by have := BitVec.le_def.mp hle; omega
    have hread := readByte_ok h (show low ≤ value + index.toNat by omega) (by omega)
    cases expected with
    | nil =>
      rw [propertyStringEquals, if_neg hin, hread]
      by_cases h0 : bytes (value + index.toNat) = 0
      · refine (if_neg (not_not.mpr h0)).trans (congrArg Except.ok ?_)
        rw [← Bool.coe_iff_coe, beq_iff_eq, decide_eq_true_iff, List.nil_append,
          List.cons_eq_cons, ← hat.1, eq_true h0, true_and, ← BitVec.toNat_inj, hone,
          ← List.length_eq_zero_iff]
        omega
      · refine (if_pos h0).trans ?_
        exact congrArg Except.ok (decide_eq_false fun heq =>
          h0 (hat.1.trans (List.cons_eq_cons.mp heq).1)).symm
    | cons c expected =>
      rw [propertyStringEquals, if_neg hin, hread]
      by_cases hbc : bytes (value + index.toNat) = c
      · refine (if_neg (not_not.mpr hbc)).trans ?_
        have hnext : BytesAt bytes (value + (index + 1).toNat) rest := by
          rw [hone, ← Nat.add_assoc]
          exact hat.2
        rw [ih hnext (by omega)]
        refine congrArg Except.ok (decide_eq_decide.mpr ?_)
        rw [List.cons_append, List.cons_eq_cons, ← hat.1, eq_true hbc, true_and]
      · refine (if_pos hbc).trans ?_
        exact congrArg Except.ok (decide_eq_false fun heq =>
          hbc (hat.1.trans (List.cons_eq_cons.mp heq).1)).symm

/-- `string_at` finds a string that ends inside the strings block. -/
theorem findTerminator_ok {strings : ℕ} {size : U32}
    (h : Readable blob bytes strings (strings + size.toNat)) {fuel : ℕ} {index : U32}
    (hi : index.toNat ≤ size.toNat) (hfuel : size.toNat < index.toNat + fuel) :
    findTerminator blob strings size fuel index =
      .ok (cstring bytes (strings + index.toNat) (size.toNat - index.toNat)).isSome := by
  have hlt := size.isLt
  induction fuel generalizing index with
  | zero => omega
  | succ fuel ih =>
    rw [findTerminator]
    by_cases hin : index < size
    · have hin' := BitVec.lt_def.mp hin
      have hone := toNat_add_one (show index.toNat + 1 < 2 ^ 32 by omega)
      obtain ⟨n, hn⟩ := Nat.exists_eq_succ_of_ne_zero (Nat.sub_ne_zero_of_lt hin')
      rw [if_pos hin, readByte_ok h (by omega) (by omega), hn, cstring]
      by_cases h0 : bytes (strings + index.toNat) = 0
      · rw [if_pos h0]
        exact if_pos h0
      · refine (if_neg h0).trans ?_
        rw [if_neg h0, ih (by omega) (by omega), hone, Option.isSome_map, Nat.add_assoc,
          show size.toNat - (index.toNat + 1) = n by omega]
    · have hout : size.toNat - index.toNat = 0 := by
        have := mt BitVec.lt_def.mpr hin
        omega
      rw [if_neg hin, hout]
      rfl

theorem stringAt_ok {strings : ℕ} {size : U32}
    (h : Readable blob bytes strings (strings + size.toNat)) (offset : U32) :
    stringAt blob strings size offset =
      .ok (cstring bytes (strings + offset.toNat) (size.toNat - offset.toNat)).isSome := by
  rw [stringAt]
  by_cases hin : offset ≥ size
  · rw [if_pos hin, Nat.sub_eq_zero_of_le (BitVec.le_def.mp hin)]
    rfl
  · have hlt : offset.toNat < size.toNat := BitVec.lt_def.mp (BitVec.not_le.mp hin)
    rw [if_neg hin, findTerminator_ok h (by omega) (by omega)]

/-- The loop over a node name stops at the terminator, or at the end of the block. -/
theorem skipName_ok {l : Layout}
    (h : Readable blob bytes l.structureOffset.toNat (l.at l.structureSize.toNat))
    {fuel : ℕ} {cursor : U32} (hc : cursor.toNat ≤ l.structureSize.toNat)
    (hfuel : l.structureSize.toNat < cursor.toNat + fuel) :
    skipName blob l fuel cursor =
      .ok ((cstring bytes (l.at cursor.toNat) (l.structureSize.toNat - cursor.toNat)).elim
        l.structureSize fun name => cursor + BitVec.ofNat 32 name.length) := by
  have hlt := l.structureSize.isLt
  rw [Layout.at] at h
  induction fuel generalizing cursor with
  | zero => omega
  | succ fuel ih =>
    rw [skipName]
    by_cases hin : cursor < l.structureSize
    · have hin' := BitVec.lt_def.mp hin
      have hone := toNat_add_one (show cursor.toNat + 1 < 2 ^ 32 by omega)
      obtain ⟨n, hn⟩ := Nat.exists_eq_succ_of_ne_zero (Nat.sub_ne_zero_of_lt hin')
      rw [if_pos hin, readByte_ok h (show _ ≤ l.at cursor.toNat from Nat.le_add_right _ _)
        (by rw [Layout.at]; omega), hn, cstring]
      by_cases h0 : bytes (l.at cursor.toNat) = 0
      · rw [if_pos h0]
        refine (if_neg (not_not.mpr h0)).trans (congrArg Except.ok ?_)
        exact (BitVec.add_zero cursor).symm
      · refine (if_pos h0).trans ?_
        rw [if_neg h0, ih (by omega) (by omega), hone,
          show l.structureSize.toNat - (cursor.toNat + 1) = n by omega]
        rw [show l.at (cursor.toNat + 1) = l.at cursor.toNat + 1 from rfl]
        cases cstring bytes (l.at cursor.toNat + 1) n with
        | none => rfl
        | some name =>
          refine congrArg Except.ok ?_
          rw [Option.map_some, Option.elim_some, Option.elim_some, List.length_cons,
            Nat.add_comm name.length 1, BitVec.ofNat_add, ← BitVec.add_assoc]
          rfl
    · have hout : l.structureSize.toNat - cursor.toNat = 0 := by
        have := mt BitVec.lt_def.mpr hin
        omega
      have heq : cursor = l.structureSize := BitVec.eq_of_toNat_eq (by omega)
      rw [if_neg hin, hout]
      exact congrArg Except.ok heq

/-- The next multiple of four. -/
def roundUp4 (n : ℕ) : ℕ := (n + 3) / 4 * 4

theorem align4_eq {value : ℕ} {limit : U32} (hv : value ≤ limit.toNat) :
    align4 (BitVec.ofNat 32 value) limit =
      if roundUp4 value ≤ limit.toNat then some (BitVec.ofNat 32 (roundUp4 value)) else none := by
  have hval : (BitVec.ofNat 32 value).toNat = value := by
    rw [BitVec.toNat_ofNat]
    omega
  have hpad : (((4 : U32) - (BitVec.ofNat 32 value &&& 3)) &&& 3).toNat = (4 - value % 4) % 4 := by
    have hand : ∀ x : U32, (x &&& 3).toNat = x.toNat % 4 := fun x => by
      rw [BitVec.toNat_and]
      exact Nat.and_two_pow_sub_one_eq_mod x.toNat 2
    rw [hand, BitVec.toNat_sub, hand, hval, show (4 : U32).toNat = 4 from rfl]
    omega
  have hsub : (limit - BitVec.ofNat 32 value).toNat = limit.toNat - value := by
    rw [BitVec.toNat_sub, hval]
    omega
  rw [align4, if_neg fun hgt => by have := BitVec.lt_def.mp hgt; omega]
  by_cases hfit : roundUp4 value ≤ limit.toNat
  · rw [if_pos hfit]
    rw [roundUp4] at hfit ⊢
    rw [if_neg fun hgt => by have := BitVec.lt_def.mp hgt; omega]
    refine congrArg some (BitVec.eq_of_toNat_eq ?_)
    rw [BitVec.toNat_add, hpad, hval, BitVec.toNat_ofNat]
    omega
  · rw [if_neg hfit]
    rw [roundUp4] at hfit
    exact if_pos (BitVec.lt_def.mpr (by omega))

end Readers

/-! ### Tokens in memory -/

/-- **The bytes from an offset of the structure block on are a token**, and the next token
stands at the second offset.  What fills up a token to four bytes is arbitrary. -/
inductive TokenAt (bytes : ℕ → Byte) (l : Layout) : ℕ → Token → ℕ → Prop
  | beginNode {c : ℕ} {name : List Byte} (htoken : be32 bytes (l.at c) = fdtBeginNode)
      (hzero : 0 ∉ name) (hname : BytesAt bytes (l.at (c + 4)) (name ++ [0]))
      (hfits : roundUp4 (c + 4 + name.length + 1) ≤ l.structureSize.toNat) :
      TokenAt bytes l c (.beginNode name) (roundUp4 (c + 4 + name.length + 1))
  | endNode {c : ℕ} (htoken : be32 bytes (l.at c) = fdtEndNode)
      (hfits : c + 4 ≤ l.structureSize.toNat) : TokenAt bytes l c .endNode (c + 4)
  | prop {c : ℕ} {name value : List Byte} (htoken : be32 bytes (l.at c) = fdtProp)
      (hlength : value.length = (be32 bytes (l.at (c + 4))).toNat)
      (hvalue : BytesAt bytes (l.at (c + 12)) value) (hzero : 0 ∉ name)
      (hname : BytesAt bytes
        (l.stringsOffset.toNat + (be32 bytes (l.at (c + 8))).toNat) (name ++ [0]))
      (hstrings : (be32 bytes (l.at (c + 8))).toNat + name.length < l.stringsSize.toNat)
      (hfits : roundUp4 (c + 12 + value.length) ≤ l.structureSize.toNat) :
      TokenAt bytes l c (.prop name value) (roundUp4 (c + 12 + value.length))
  | nop {c : ℕ} (htoken : be32 bytes (l.at c) = fdtNop)
      (hfits : c + 4 ≤ l.structureSize.toNat) : TokenAt bytes l c .nop (c + 4)
  | fin {c : ℕ} (htoken : be32 bytes (l.at c) = fdtEnd)
      (hfits : c + 4 ≤ l.structureSize.toNat) : TokenAt bytes l c .fin (c + 4)

/-- Tokens one after the other. -/
inductive TokensAt (bytes : ℕ → Byte) (l : Layout) : ℕ → List Token → ℕ → Prop
  | nil (c : ℕ) : TokensAt bytes l c [] c
  | cons {c c' c'' : ℕ} {token : Token} {tokens : List Token} (head : TokenAt bytes l c token c')
      (tail : TokensAt bytes l c' tokens c'') : TokensAt bytes l c (token :: tokens) c''

/-- A token that ends inside the block. -/
def fitted (l : Layout) (token : Token) (c : ℕ) : Option (Token × ℕ) :=
  if c ≤ l.structureSize.toNat then some (token, c) else none

/-- The token of a node that begins. -/
def decodeNode (bytes : ℕ → Byte) (l : Layout) (c : ℕ) : Option (Token × ℕ) :=
  (cstring bytes (l.at (c + 4)) (l.structureSize.toNat - (c + 4))).bind fun name =>
    fitted l (.beginNode name) (roundUp4 (c + 4 + name.length + 1))

/-- The token of a property. -/
def decodeProp (bytes : ℕ → Byte) (l : Layout) (c : ℕ) : Option (Token × ℕ) :=
  let length := (be32 bytes (l.at (c + 4))).toNat
  let offset := (be32 bytes (l.at (c + 8))).toNat
  (cstring bytes (l.stringsOffset.toNat + offset) (l.stringsSize.toNat - offset)).bind fun name =>
    fitted l (.prop name (bytesFrom bytes (l.at (c + 12)) length)) (roundUp4 (c + 12 + length))

/-- The token at an offset. -/
def decode (bytes : ℕ → Byte) (l : Layout) (c : ℕ) : Option (Token × ℕ) :=
  let value := be32 bytes (l.at c)
  if value = fdtBeginNode then decodeNode bytes l c
  else if value = fdtEndNode then fitted l .endNode (c + 4)
  else if value = fdtProp then decodeProp bytes l c
  else if value = fdtNop then fitted l .nop (c + 4)
  else if value = fdtEnd then fitted l .fin (c + 4)
  else none

section Tokens

variable {bytes : ℕ → Byte} {l : Layout} {c c' : ℕ} {t : Token}

theorem fitted_eq_some_iff {token : Token} :
    fitted l token c = some (t, c') ↔ t = token ∧ c' = c ∧ c ≤ l.structureSize.toNat := by
  rw [fitted]
  split
  · rename_i hfits
    rw [Option.some_inj, Prod.mk.injEq]
    exact ⟨fun h => ⟨h.1.symm, h.2.symm, hfits⟩, fun h => ⟨h.1.symm, h.2.1.symm⟩⟩
  · rename_i hfits
    exact ⟨fun h => (Option.some_ne_none _ h.symm).elim, fun h => absurd h.2.2 hfits⟩

theorem decodeNode_eq_some_iff (htoken : be32 bytes (l.at c) = fdtBeginNode) :
    decodeNode bytes l c = some (t, c') ↔ TokenAt bytes l c t c' := by
  rw [decodeNode, Option.bind_eq_some_iff]
  constructor
  · rintro ⟨name, hname, hfit⟩
    obtain ⟨rfl, rfl, hfits⟩ := fitted_eq_some_iff.mp hfit
    obtain ⟨hzero, hat, -⟩ := cstring_eq_some_iff.mp hname
    exact .beginNode htoken hzero hat hfits
  · intro h
    cases h with
    | beginNode _ hzero hname hfits =>
      refine ⟨_, cstring_eq_some_iff.mpr ⟨hzero, hname, ?_⟩,
        fitted_eq_some_iff.mpr ⟨rfl, rfl, hfits⟩⟩
      rw [roundUp4] at hfits
      omega
    | endNode h' | nop h' | fin h' | prop h' => exact absurd (htoken.symm.trans h') (by decide)

theorem decodeProp_eq_some_iff (htoken : be32 bytes (l.at c) = fdtProp) :
    decodeProp bytes l c = some (t, c') ↔ TokenAt bytes l c t c' := by
  rw [decodeProp, Option.bind_eq_some_iff]
  constructor
  · rintro ⟨name, hname, hfit⟩
    obtain ⟨rfl, rfl, hfits⟩ := fitted_eq_some_iff.mp hfit
    obtain ⟨hzero, hat, hstrings⟩ := cstring_eq_some_iff.mp hname
    obtain ⟨hlength, hvalue⟩ := bytesFrom_eq_iff.mp (rfl : bytesFrom bytes (l.at (c + 12))
      (be32 bytes (l.at (c + 4))).toNat = _)
    have htok := TokenAt.prop htoken hlength hvalue hzero hat (by omega) (by rwa [hlength])
    rwa [hlength] at htok
  · intro h
    cases h with
    | prop _ hlength hvalue hzero hname hstrings hfits =>
      rw [← hlength, bytesFrom_eq_iff.mpr ⟨rfl, hvalue⟩]
      exact ⟨_, cstring_eq_some_iff.mpr ⟨hzero, hname, by omega⟩,
        fitted_eq_some_iff.mpr ⟨rfl, rfl, hfits⟩⟩
    | beginNode h' | endNode h' | nop h' | fin h' => exact absurd (htoken.symm.trans h') (by decide)

/-- **The decoder computes the token at an offset.** -/
theorem decode_eq_some_iff : decode bytes l c = some (t, c') ↔ TokenAt bytes l c t c' := by
  rw [decode]
  split_ifs with hbegin hend hprop hnop hfin
  · exact decodeNode_eq_some_iff hbegin
  · rw [fitted_eq_some_iff]
    constructor
    · rintro ⟨rfl, rfl, hfits⟩
      exact .endNode hend hfits
    · intro h
      cases h with
      | endNode _ hfits => exact ⟨rfl, rfl, hfits⟩
      | beginNode h' | prop h' | nop h' | fin h' => exact absurd (hend.symm.trans h') (by decide)
  · exact decodeProp_eq_some_iff hprop
  · rw [fitted_eq_some_iff]
    constructor
    · rintro ⟨rfl, rfl, hfits⟩
      exact .nop hnop hfits
    · intro h
      cases h with
      | nop _ hfits => exact ⟨rfl, rfl, hfits⟩
      | beginNode h' | endNode h' | prop h' | fin h' =>
        exact absurd (hnop.symm.trans h') (by decide)
  · rw [fitted_eq_some_iff]
    constructor
    · rintro ⟨rfl, rfl, hfits⟩
      exact .fin hfin hfits
    · intro h
      cases h with
      | fin _ hfits => exact ⟨rfl, rfl, hfits⟩
      | beginNode h' | endNode h' | prop h' | nop h' =>
        exact absurd (hfin.symm.trans h') (by decide)
  · refine ⟨False.elim, fun h => ?_⟩
    cases h with
    | beginNode h' => exact absurd h' hbegin
    | endNode h' => exact absurd h' hend
    | prop h' => exact absurd h' hprop
    | nop h' => exact absurd h' hnop
    | fin h' => exact absurd h' hfin

theorem TokenAt.unique {t' : Token} {c'' : ℕ} (h : TokenAt bytes l c t c')
    (h' : TokenAt bytes l c t' c'') : t' = t ∧ c'' = c' := by
  have heq := (decode_eq_some_iff.mpr h').symm.trans (decode_eq_some_iff.mpr h)
  exact Prod.mk.inj (Option.some.inj heq)

/-- Where the token after this one stands. -/
theorem TokenAt.next (h : TokenAt bytes l c t c') (hc : c % 4 = 0) :
    c' % 4 = 0 ∧ c + 4 ≤ c' ∧ c' ≤ l.structureSize.toNat := by
  cases h with
  | beginNode _ _ _ hfits | prop _ _ _ _ _ _ hfits =>
    rw [roundUp4] at hfits ⊢
    omega
  | endNode _ hfits | nop _ hfits | fin _ hfits => omega

end Tokens

end Fdt

end Jixia
