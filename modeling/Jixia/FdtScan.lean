/-
The token loop of `cpu_count`, from bytes to registers.

The loop is the registers of `FdtTree` moved from token to token of the structure block.

* `turn_answers` — one turn of the loop passes the token that stands at the cursor;
* `tokenLoop_spec` — the loop returns within its number of turns, reads only what is
  readable, and accepts exactly the tokens that bring the depth back before `FDT_END`;
* `cpuCount_of_tree` — on a flattened tree `cpu_count` is the number of processors;
* `cpuCount_one_tree_iff` — what is accepted is one tree exactly if it has one root;
* `cpuCount_total` — for every content of the blob `cpu_count` returns.
-/
import Jixia.FdtTokens

namespace Jixia

open ByteBuffer

namespace Fdt

/-! ### One turn of the loop -/

/-- The variables of the loop, from the registers. -/
def Loop.of (c : ℕ) (r : Registers) : Loop :=
  ⟨BitVec.ofNat 32 c, r.depth, r.cpusDepth, r.counted, BitVec.ofNat 32 r.count⟩

/-- What a turn makes of the token at the cursor. -/
inductive Answers (bytes : ℕ → Byte) (l : Layout) (c : ℕ) (r : Registers) : Turn → Prop
  | next {t : Token} {c' : ℕ} {r' : Registers} (htoken : decode bytes l c = some (t, c'))
      (hstep : r.step t = some r') : Answers bytes l c r (.next (.of c' r'))
  | complete {c' : ℕ} (htoken : decode bytes l c = some (.fin, c')) (hdepth : r.depth = -1) :
      Answers bytes l c r (.stop ⟨BitVec.ofNat 32 r.count, true⟩)
  | reject {n : U32} (hnone : ∀ t c', decode bytes l c = some (t, c') →
      r.step t = none ∧ (t = .fin → r.depth ≠ -1)) : Answers bytes l c r (.stop ⟨n, false⟩)

/-- What the header check leaves: both blocks lie in readable memory. -/
structure Scanned (blob : Blob) (bytes : ℕ → Byte) (l : Layout) : Prop where
  structures : Readable blob bytes l.structureOffset.toNat (l.at l.structureSize.toNat)
  strings : Readable blob bytes l.stringsOffset.toNat
    (l.stringsOffset.toNat + l.stringsSize.toNat)

/-- What holds of the registers at a cursor. -/
structure Bounded (c : ℕ) (r : Registers) : Prop where
  aligned : c % 4 = 0
  low : -1 ≤ r.depth
  high : 4 * (r.depth + 1) ≤ c
  count : 4 * r.count ≤ c

section Turns

variable {blob : Blob} {bytes : ℕ → Byte} {l : Layout} {c : ℕ} {r : Registers}

theorem toNat_cursor (hc : c ≤ l.structureSize.toNat) : (BitVec.ofNat 32 c).toNat = c := by
  have := l.structureSize.isLt
  rw [BitVec.toNat_ofNat, Nat.mod_eq_of_lt (by omega)]

theorem cpusName_zero : (0 : Byte) ∉ cpusName := by decide

theorem deviceTypeName_zero : (0 : Byte) ∉ deviceTypeName := by decide

/-- Both loops enter a node in the same way. -/
theorem entered_of (c c' : ℕ) (r : Registers) (name : List Byte) (isCpus : Bool)
    (h : isCpus = decide (r.depth + 1 = 1 ∧ name = cpusName)) :
    ∃ r', r.step (.beginNode name) = some r' ∧
      (Loop.of c r).entered (BitVec.ofNat 32 c') isCpus = .of c' r' := by
  refine ⟨_, rfl, ?_⟩
  rw [Loop.entered, Loop.of, Loop.of, h]
  simp only [decide_eq_true_eq]

/-- A turn that rejects where there is no token. -/
theorem Answers.of_none (n : U32) (h : decode bytes l c = none) :
    Answers bytes l c r (.stop ⟨n, false⟩) :=
  .reject fun t c' h' => (Option.some_ne_none (t, c') (h'.symm.trans h)).elim

theorem isCpusNode_ok (hs : Scanned blob bytes l) {nameOffset : ℕ} {name : List Byte} (depth : ℤ)
    (hzero : 0 ∉ name) (hat : BytesAt bytes (l.at nameOffset) (name ++ [0]))
    (hend : nameOffset + name.length < l.structureSize.toNat) :
    isCpusNode blob l depth (BitVec.ofNat 32 nameOffset) =
      .ok (decide (depth = 1 ∧ name = cpusName)) := by
  rw [isCpusNode]
  by_cases hd : depth = 1
  · rw [if_pos hd, toNat_cursor (l := l) (by omega),
      stringEquals_ok hs.structures hzero cpusName_zero hat (Nat.le_add_right _ _)
        (by rw [Layout.at, Layout.at]; omega)]
    refine congrArg Except.ok (decide_eq_decide.mpr ?_)
    rw [eq_true hd, true_and]
  · rw [if_neg hd, decide_eq_false fun h => hd h.1]

theorem beginNode_answers (hs : Scanned blob bytes l) (hb : Bounded c r)
    (hc : c + 4 ≤ l.structureSize.toNat) (htoken : be32 bytes (l.at c) = fdtBeginNode) :
    ∃ answer, beginNode blob l (.of (c + 4) r) = .ok answer ∧ Answers bytes l c r answer := by
  have hskip := @skipName_ok _ _ l hs.structures (l.structureSize.toNat + 1)
    (BitVec.ofNat 32 (c + 4)) (by rw [toNat_cursor hc]; exact hc) (by omega)
  rw [toNat_cursor hc] at hskip
  have hdecode : decode bytes l c = decodeNode bytes l c := if_pos htoken
  rw [decodeNode] at hdecode
  rw [beginNode, show (Loop.of (c + 4) r).cursor = BitVec.ofNat 32 (c + 4) from rfl, hskip]
  cases hname : cstring bytes (l.at (c + 4)) (l.structureSize.toNat - (c + 4)) with
  | none =>
    rw [hname] at hdecode
    exact ⟨_, if_pos (BitVec.le_refl _), .of_none _ hdecode⟩
  | some name =>
    rw [hname, Option.bind_some, fitted] at hdecode
    obtain ⟨hzero, hat, hlen⟩ := cstring_eq_some_iff.mp hname
    have hend : c + 4 + name.length < l.structureSize.toNat := by omega
    have hnot : ¬ BitVec.ofNat 32 (c + 4) + BitVec.ofNat 32 name.length ≥ l.structureSize := by
      rw [← BitVec.ofNat_add]
      intro hge
      have := BitVec.le_def.mp hge
      rw [toNat_cursor (l := l) (by omega)] at this
      omega
    have halign := @align4_eq (c + 4 + name.length + 1) l.structureSize (by omega)
    rw [BitVec.ofNat_add, BitVec.ofNat_add] at halign
    rw [Option.elim_some, ok_bind, if_neg hnot, show (1 : U32) = BitVec.ofNat 32 1 from rfl, halign]
    by_cases hfits : roundUp4 (c + 4 + name.length + 1) ≤ l.structureSize.toNat
    · rw [if_pos hfits] at hdecode
      rw [if_pos hfits]
      -- Each node takes eight bytes, so that the depth stays below the size of the block.
      have hdepth : ¬ r.depth ≥ 0x7fffffff := by
        have := hb.high
        omega
      obtain ⟨r', hstep, hloop⟩ :=
        entered_of (c + 4) (roundUp4 (c + 4 + name.length + 1)) r name _ rfl
      refine ⟨_, (if_neg hdepth).trans ?_, .next hdecode hstep⟩
      rw [isCpusNode_ok hs _ hzero hat hend, ok_bind]
      exact congrArg (fun loop => Except.ok (Turn.next loop)) hloop
    · rw [if_neg hfits] at hdecode
      rw [if_neg hfits]
      exact ⟨_, rfl, .of_none _ hdecode⟩

theorem endNode_answers (hc : c + 4 ≤ l.structureSize.toNat)
    (htoken : be32 bytes (l.at c) = fdtEndNode) :
    Answers bytes l c r (endNode (.of (c + 4) r)) := by
  have hdecode : decode bytes l c = some (.endNode, c + 4) :=
    decode_eq_some_iff.mpr (.endNode htoken hc)
  by_cases hneg : r.depth < 0
  · have hstep : r.step .endNode = none := if_pos hneg
    rw [show endNode (.of (c + 4) r) = .stop ⟨BitVec.ofNat 32 r.count, false⟩ from if_pos hneg]
    refine .reject fun t c' h => ?_
    cases hdecode.symm.trans h
    exact ⟨hstep, Token.noConfusion⟩
  · rw [show endNode (.of (c + 4) r) = _ from if_neg hneg]
    exact .next hdecode (if_neg hneg)

/-- The condition of the source for a property that counts. -/
theorem isCpuProperty_ok (hs : Scanned blob bytes l) {offset valueOffset : ℕ} {length : U32}
    {name value : List Byte} (hzero : 0 ∉ name)
    (hname : BytesAt bytes (l.stringsOffset.toNat + offset) (name ++ [0]))
    (hstrings : offset + name.length < l.stringsSize.toNat)
    (hvalue : BytesAt bytes (l.at valueOffset) value) (hlength : value.length = length.toNat)
    (hend : valueOffset + length.toNat ≤ l.structureSize.toNat) :
    isCpuProperty blob (.of c r) (l.stringsOffset.toNat + offset) (l.at valueOffset) length =
      .ok (decide (r.cpusDepth ≥ 0 ∧ r.depth = r.cpusDepth + 1 ∧ r.counted = false ∧
        (Item.prop name value).isCpuType)) := by
  rw [isCpuProperty]
  by_cases hopen : r.cpusDepth ≥ 0 ∧ r.depth = r.cpusDepth + 1 ∧ r.counted = false
  · refine (if_pos hopen).trans ?_
    rw [stringEquals_ok hs.strings hzero deviceTypeName_zero hname (by omega) (by omega),
      ok_bind]
    have hvalue' := @propertyStringEquals_ok _ _ _ _ hs.structures (l.at valueOffset) length
      cpuValue value 0 hvalue (by rw [hlength]; exact Nat.zero_add _) (Nat.le_add_right _ _)
      (by rw [Layout.at, Layout.at]; omega)
    by_cases hdevice : name = deviceTypeName
    · refine (if_pos (decide_eq_true hdevice)).trans (hvalue'.trans ?_)
      refine congrArg Except.ok (decide_eq_decide.mpr ?_)
      rw [eq_true hopen.1, eq_true hopen.2.1, eq_true hopen.2.2, Item.isCpuType, hdevice]
      simp only [true_and, BEq.rfl, Bool.true_and, beq_iff_eq]
    · refine (if_neg (by rw [decide_eq_true_iff]; exact hdevice)).trans ?_
      refine congrArg Except.ok (decide_eq_false fun h => hdevice ?_).symm
      have := h.2.2.2
      rw [Item.isCpuType, Bool.and_eq_true, beq_iff_eq] at this
      exact this.1
  · refine (if_neg hopen).trans ?_
    exact congrArg Except.ok (decide_eq_false fun h => hopen ⟨h.1, h.2.1, h.2.2.1⟩).symm

/-- Both loops count in the same way. -/
theorem counted_of (c c' : ℕ) (r : Registers) (name value : List Byte) :
    ∃ r', r.step (.prop name value) = some r' ∧
      (Loop.of c r).counted (BitVec.ofNat 32 c') (decide (r.cpusDepth ≥ 0 ∧
        r.depth = r.cpusDepth + 1 ∧ r.counted = false ∧ (Item.prop name value).isCpuType)) =
          .of c' r' := by
  rw [Registers.step, Loop.counted]
  split
  · rename_i hcpu
    refine ⟨_, rfl, ?_⟩
    rw [decide_eq_true hcpu, Loop.of, Loop.of, BitVec.ofNat_add]
    rfl
  · rename_i hcpu
    refine ⟨r, rfl, ?_⟩
    rw [decide_eq_false hcpu]
    rfl

theorem decodeProp_eq_none (h : l.structureSize.toNat <
    c + 12 + (be32 bytes (l.at (c + 4))).toNat) : decodeProp bytes l c = none := by
  rw [decodeProp, Option.bind_eq_none_iff]
  intro name _
  refine if_neg ?_
  rw [roundUp4]
  omega

theorem propValue_answers (hs : Scanned blob bytes l)
    (hc : c + 12 + (be32 bytes (l.at (c + 4))).toNat ≤ l.structureSize.toNat)
    (htoken : be32 bytes (l.at c) = fdtProp) :
    ∃ answer, propValue blob l (.of (c + 4) r) (BitVec.ofNat 32 (c + 12))
      (be32 bytes (l.at (c + 4))) (be32 bytes (l.at (c + 8))) = .ok answer ∧
        Answers bytes l c r answer := by
  have hdecode : decode bytes l c = decodeProp bytes l c := by
    rw [decode, htoken]
    rfl
  rw [decodeProp] at hdecode
  generalize hlength : be32 bytes (l.at (c + 4)) = length at hc hdecode
  generalize be32 bytes (l.at (c + 8)) = offset at hdecode
  rw [propValue, stringAt_ok hs.strings, ok_bind]
  cases hname : cstring bytes (l.stringsOffset.toNat + offset.toNat)
      (l.stringsSize.toNat - offset.toNat) with
  | none =>
    rw [hname] at hdecode
    exact ⟨_, rfl, .of_none _ hdecode⟩
  | some name =>
    obtain ⟨hzero, hat, hlen⟩ := cstring_eq_some_iff.mp hname
    obtain ⟨hvalueLength, hvalue⟩ :=
      bytesFrom_eq_iff.mp (rfl : bytesFrom bytes (l.at (c + 12)) length.toNat = _)
    generalize bytesFrom bytes (l.at (c + 12)) length.toNat = value at hdecode hvalueLength hvalue
    rw [hname, Option.bind_some, fitted] at hdecode
    have hcpu := @isCpuProperty_ok blob bytes l (c + 4) r hs offset.toNat (c + 12) length name value
      hzero hat (by omega) hvalue hvalueLength hc
    rw [Option.isSome_some, if_neg Bool.true_eq_false.mp, toNat_cursor (l := l) (by omega), hcpu,
      ok_bind]
    have halign := align4_eq hc
    rw [BitVec.ofNat_add, BitVec.ofNat_toNat, BitVec.setWidth_eq] at halign
    rw [halign]
    by_cases hfits : roundUp4 (c + 12 + length.toNat) ≤ l.structureSize.toNat
    · rw [if_pos hfits] at hdecode
      rw [if_pos hfits]
      obtain ⟨r', hstep, hloop⟩ :=
        counted_of (c + 4) (roundUp4 (c + 12 + length.toNat)) r name value
      refine ⟨_, ?_, .next hdecode hstep⟩
      exact congrArg (fun loop => Except.ok (Turn.next loop)) hloop
    · rw [if_neg hfits] at hdecode
      rw [if_neg hfits]
      exact ⟨_, rfl, .of_none _ hdecode⟩

theorem prop_answers (hs : Scanned blob bytes l) (hc : c + 4 ≤ l.structureSize.toNat)
    (htoken : be32 bytes (l.at c) = fdtProp) :
    ∃ answer, prop blob l (.of (c + 4) r) = .ok answer ∧ Answers bytes l c r answer := by
  have hdecode : decode bytes l c = decodeProp bytes l c := by
    rw [decode, htoken]
    rfl
  have hsub {k : ℕ} (hk : k ≤ l.structureSize.toNat) :
      (l.structureSize - BitVec.ofNat 32 k).toNat = l.structureSize.toNat - k := by
    rw [BitVec.toNat_sub, toNat_cursor hk]
    have := l.structureSize.isLt
    omega
  rw [prop]
  by_cases hshort : l.structureSize - BitVec.ofNat 32 (c + 4) < 8
  · refine ⟨_, if_pos hshort, .of_none _ (hdecode.trans (decodeProp_eq_none ?_))⟩
    have := BitVec.lt_def.mp hshort
    rw [hsub hc, show (8 : U32).toNat = 8 from rfl] at this
    omega
  · have hlong : c + 12 ≤ l.structureSize.toNat := by
      have := mt BitVec.lt_def.mpr hshort
      rw [hsub hc, show (8 : U32).toNat = 8 from rfl] at this
      omega
    have hread {k : ℕ} (hk : k + 4 ≤ l.structureSize.toNat) :
        readBe32 blob (l.at k) = .ok (be32 bytes (l.at k)) :=
      readBe32_ok hs.structures (Nat.le_add_right _ _) (by rw [Layout.at, Layout.at]; omega)
    rw [show (Loop.of (c + 4) r).cursor = BitVec.ofNat 32 (c + 4) from rfl, if_neg hshort,
      toNat_cursor hc, hread (by omega), ok_bind, hread (by omega), ok_bind,
      show (8 : U32) = BitVec.ofNat 32 8 from rfl, ← BitVec.ofNat_add]
    by_cases hlength : be32 bytes (l.at (c + 4)) > l.structureSize - BitVec.ofNat 32 (c + 12)
    · refine ⟨_, if_pos hlength, .of_none _ (hdecode.trans (decodeProp_eq_none ?_))⟩
      have := BitVec.lt_def.mp hlength
      rw [hsub hlong] at this
      omega
    · rw [if_neg hlength]
      refine propValue_answers hs ?_ htoken
      have := mt BitVec.lt_def.mpr hlength
      rw [hsub hlong] at this
      omega

/-- **One turn of the loop** does not fail, and passes the token at the cursor. -/
theorem turn_answers (hs : Scanned blob bytes l) (hb : Bounded c r)
    (hc : c + 4 ≤ l.structureSize.toNat) :
    ∃ answer, turn blob l (.of c r) = .ok answer ∧ Answers bytes l c r answer := by
  have hread : readBe32 blob (l.at c) = .ok (be32 bytes (l.at c)) :=
    readBe32_ok hs.structures (Nat.le_add_right _ _) (by rw [Layout.at, Layout.at]; omega)
  have hnext : ({ Loop.of c r with cursor := (Loop.of c r).cursor + 4 } : Loop) =
      .of (c + 4) r := by
    rw [Loop.of, Loop.of, BitVec.ofNat_add]
    rfl
  rw [turn, show (Loop.of c r).cursor.toNat = c from toNat_cursor (l := l) (by omega), hread,
    ok_bind, hnext, token]
  by_cases hbegin : be32 bytes (l.at c) = fdtBeginNode
  · rw [if_pos hbegin]
    exact beginNode_answers hs hb hc hbegin
  rw [if_neg hbegin]
  by_cases hend : be32 bytes (l.at c) = fdtEndNode
  · exact ⟨_, if_pos hend, endNode_answers hc hend⟩
  rw [if_neg hend]
  by_cases hprop : be32 bytes (l.at c) = fdtProp
  · rw [if_pos hprop]
    exact prop_answers hs hc hprop
  rw [if_neg hprop]
  by_cases hnop : be32 bytes (l.at c) = fdtNop
  · exact ⟨_, if_pos hnop, .next (decode_eq_some_iff.mpr (.nop hnop hc)) rfl⟩
  rw [if_neg hnop]
  by_cases hfin : be32 bytes (l.at c) = fdtEnd
  · have hdecode := decode_eq_some_iff.mpr (TokenAt.fin hfin hc)
    refine ⟨_, if_pos hfin, ?_⟩
    by_cases hd : r.depth = -1
    · rw [if_neg (not_not.mpr (show (Loop.of (c + 4) r).depth = -1 from hd))]
      exact .complete hdecode hd
    · rw [if_pos (show (Loop.of (c + 4) r).depth ≠ -1 from hd)]
      refine .reject fun t c' h => ?_
      cases hdecode.symm.trans h
      exact ⟨rfl, fun _ => hd⟩
  · refine ⟨_, if_neg hfin, .of_none _ ?_⟩
    rw [decode, if_neg hbegin, if_neg hend, if_neg hprop, if_neg hnop, if_neg hfin]

/-- A turn keeps the registers in bounds. -/
theorem Bounded.step {t : Token} {c' : ℕ} {r' : Registers} (hb : Bounded c r)
    (htoken : TokenAt bytes l c t c') (hstep : r.step t = some r') : Bounded c' r' := by
  obtain ⟨haligned, hnext, -⟩ := htoken.next hb.aligned
  have hd := Registers.step_depth hstep
  have hcount := Registers.step_count hstep
  have hmoves := t.moves_le
  have hhigh := hb.high
  have hcount' := hb.count
  exact ⟨haligned, Registers.step_low hstep hb.low, by omega, by omega⟩

end Turns

/-! ### The whole loop -/

/-- Tokens that bring the depth back before `FDT_END`, with what is counted then. -/
def Accepts (bytes : ℕ → Byte) (l : Layout) (c : ℕ) (r : Registers) (n : ℕ) : Prop :=
  ∃ tokens c' c'' r', TokensAt bytes l c tokens c' ∧ TokenAt bytes l c' .fin c'' ∧
    r.run tokens = some r' ∧ r'.depth = -1 ∧ r'.count = n

section Loops

variable {blob : Blob} {bytes : ℕ → Byte} {l : Layout} {c : ℕ} {r : Registers}

/-- Where tokens are accepted, there is one. -/
theorem Accepts.first {n : ℕ} (h : Accepts bytes l c r n) :
    ∃ t c', TokenAt bytes l c t c' ∧ ((t = .fin ∧ r.depth = -1 ∧ r.count = n) ∨
      ∃ r', r.step t = some r' ∧ Accepts bytes l c' r' n) := by
  obtain ⟨tokens, c', c'', r', hat, hfin, hrun, hdepth, hcount⟩ := h
  cases hat with
  | nil =>
    cases hrun
    exact ⟨_, _, hfin, .inl ⟨rfl, hdepth, hcount⟩⟩
  | cons head tail =>
    rw [Registers.run_cons] at hrun
    obtain ⟨r1, hstep, hrun⟩ := Option.bind_eq_some_iff.mp hrun
    exact ⟨_, _, head, .inr ⟨r1, hstep, _, _, _, _, tail, hfin, hrun, hdepth, hcount⟩⟩

theorem Accepts.cons {t : Token} {c' n : ℕ} {r' : Registers} (head : TokenAt bytes l c t c')
    (hstep : r.step t = some r') (h : Accepts bytes l c' r' n) : Accepts bytes l c r n := by
  obtain ⟨tokens, c1, c2, r1, hat, hfin, hrun, hdepth, hcount⟩ := h
  refine ⟨t :: tokens, c1, c2, r1, .cons head hat, hfin, ?_, hdepth, hcount⟩
  rw [Registers.run_cons, hstep]
  exact hrun

theorem accepts_iff_next {t : Token} {c' n : ℕ} {r' : Registers} (head : TokenAt bytes l c t c')
    (hstep : r.step t = some r') : Accepts bytes l c r n ↔ Accepts bytes l c' r' n := by
  refine ⟨fun h => ?_, fun h => h.cons head hstep⟩
  obtain ⟨t', c'', head', h⟩ := h.first
  obtain ⟨rfl, rfl⟩ := head.unique head'
  rcases h with ⟨rfl, -, -⟩ | ⟨r'', hstep', h⟩
  · cases hstep
  · cases hstep.symm.trans hstep'
    exact h

/-- **The token loop** returns within the turns that the block has room for, and accepts
exactly what brings the depth back. -/
theorem tokenLoop_spec (hs : Scanned blob bytes l) (hsize : l.structureSize.toNat + 4 < 2 ^ 32)
    {turns : ℕ} (hb : Bounded c r) (hc : c ≤ l.structureSize.toNat)
    (hturns : l.structureSize.toNat < c + 4 * turns + 4) :
    ∃ result, tokenLoop blob l turns (.of c r) = .ok result ∧
      ∀ n, Accepts bytes l c r n ↔ result.valid = true ∧ result.count.toNat = n := by
  -- The cursor does not pass the size, so that the guard does not wrap around.
  have hguard {c : ℕ} {r : Registers} (hc : c ≤ l.structureSize.toNat) :
      (Loop.of c r).cursor + 4 ≤ l.structureSize ↔ c + 4 ≤ l.structureSize.toNat := by
    rw [BitVec.le_def, show (Loop.of c r).cursor + 4 = BitVec.ofNat 32 (c + 4) by
      rw [BitVec.ofNat_add]; rfl, BitVec.toNat_ofNat, Nat.mod_eq_of_lt (by omega)]
  have hdone {c : ℕ} {r : Registers} {n : ℕ} {count : U32} (hb : Bounded c r)
      (hout : ¬ c + 4 ≤ l.structureSize.toNat) : Accepts bytes l c r n ↔
        (⟨count, false⟩ : CpuCountResult).valid = true ∧ count.toNat = n := by
    refine ⟨fun h => ?_, fun h => Bool.noConfusion h.1⟩
    obtain ⟨t, c', head, -⟩ := h.first
    have := head.next hb.aligned
    omega
  induction turns generalizing c r with
  | zero =>
    have hout : ¬ c + 4 ≤ l.structureSize.toNat := by omega
    exact ⟨_, if_neg fun h => hout ((hguard hc).mp h), fun n => hdone hb hout⟩
  | succ turns ih =>
    rw [tokenLoop]
    by_cases hin : c + 4 ≤ l.structureSize.toNat
    · obtain ⟨answer, hturn, hanswer⟩ := turn_answers hs hb hin
      rw [if_pos ((hguard hc).mpr hin), hturn, ok_bind]
      cases hanswer with
      | next htoken hstep =>
        have head := decode_eq_some_iff.mp htoken
        obtain ⟨-, hnext, hfits⟩ := head.next hb.aligned
        obtain ⟨result, hloop, hresult⟩ := ih (hb.step head hstep) hfits (by omega)
        exact ⟨result, hloop, fun n => (accepts_iff_next head hstep).trans (hresult n)⟩
      | complete htoken hdepth =>
        have head := decode_eq_some_iff.mp htoken
        have hcount := hb.count
        refine ⟨_, rfl, fun n => ?_⟩
        rw [BitVec.toNat_ofNat, Nat.mod_eq_of_lt (by omega)]
        constructor
        · intro h
          obtain ⟨t', c'', head', h⟩ := h.first
          obtain ⟨rfl, rfl⟩ := head.unique head'
          rcases h with ⟨-, -, hn⟩ | ⟨r', hstep, -⟩
          · exact ⟨rfl, hn⟩
          · cases hstep
        · rintro ⟨-, hn⟩
          exact ⟨[], c, _, r, .nil c, head, rfl, hdepth, hn⟩
      | reject hnone =>
        refine ⟨_, rfl, fun n => ⟨fun h => ?_, fun h => Bool.noConfusion h.1⟩⟩
        obtain ⟨t, c', head, h⟩ := h.first
        obtain ⟨hstep, hfin⟩ := hnone t c' (decode_eq_some_iff.mpr head)
        rcases h with ⟨rfl, hdepth, -⟩ | ⟨r', hstep', -⟩
        · exact absurd hdepth (hfin rfl)
        · cases hstep.symm.trans hstep'
    · exact ⟨_, if_neg fun h => hin ((hguard hc).mp h), fun n => hdone hb hin⟩

end Loops

/-! ### The header -/

/-- `totalsize`. -/
def totalSize (bytes : ℕ → Byte) : U32 := be32 bytes 4

/-- The fields of the header that describe the blocks. -/
def Layout.read (bytes : ℕ → Byte) : Layout :=
  ⟨be32 bytes 8, be32 bytes 12, be32 bytes 32, be32 bytes 36⟩

/-- The magic number is there and both blocks lie inside of the blob. -/
structure HeaderOk (bytes : ℕ → Byte) : Prop where
  magic : be32 bytes 0 = fdtMagic
  total : 40 ≤ (totalSize bytes).toNat
  structures : (Layout.read bytes).at (Layout.read bytes).structureSize.toNat ≤
    (totalSize bytes).toNat
  strings : (Layout.read bytes).stringsOffset.toNat + (Layout.read bytes).stringsSize.toNat ≤
    (totalSize bytes).toNat

/-- The header can be read, and what it describes too. -/
structure BlobReadable (blob : Blob) (bytes : ℕ → Byte) : Prop where
  header : Readable blob bytes 0 40
  blocks : HeaderOk bytes → Scanned blob bytes (.read bytes)

section Header

variable {blob : Blob} {bytes : ℕ → Byte} {l : Layout}

theorem Registers.start_bounded : Bounded 0 Registers.start :=
  ⟨rfl, le_refl _, le_refl _, le_refl _⟩

/-- A check of the header, with a subtraction that does not wrap around. -/
theorem block_fits {offset size total : U32} (ho : ¬ offset > total) :
    ¬ size > total - offset ↔ offset.toNat + size.toNat ≤ total.toNat := by
  have ho' := mt BitVec.lt_def.mpr ho
  rw [gt_iff_lt, BitVec.lt_def, BitVec.toNat_sub]
  omega

theorem countIn_eq (htotal : 40 ≤ (totalSize bytes).toNat)
    (hstructures : l.at l.structureSize.toNat ≤ (totalSize bytes).toNat)
    (hstrings : l.stringsOffset.toNat + l.stringsSize.toNat ≤ (totalSize bytes).toNat) :
    countIn blob l (totalSize bytes) = tokenLoop blob l (l.structureSize.toNat / 4) .start := by
  rw [Layout.at] at hstructures
  have hso : ¬ l.structureOffset > totalSize bytes :=
    fun h => by have := BitVec.lt_def.mp h; omega
  have hsto : ¬ l.stringsOffset > totalSize bytes :=
    fun h => by have := BitVec.lt_def.mp h; omega
  have hsize : ¬ totalSize bytes < fdtHeaderSize :=
    fun h => by have : _ < 40 := BitVec.lt_def.mp h; omega
  rw [countIn, if_neg hsize, if_neg hso, if_neg ((block_fits hso).mpr hstructures), if_neg hsto,
    if_neg ((block_fits hsto).mpr hstrings)]

/-- The checks of the header refuse what does not fit. -/
theorem countIn_refused (h : ¬ (40 ≤ (totalSize bytes).toNat ∧
    l.at l.structureSize.toNat ≤ (totalSize bytes).toNat ∧
    l.stringsOffset.toNat + l.stringsSize.toNat ≤ (totalSize bytes).toNat)) :
    countIn blob l (totalSize bytes) = .ok ⟨0, false⟩ := by
  rw [countIn]
  by_cases hsize : totalSize bytes < fdtHeaderSize
  · exact if_pos hsize
  rw [if_neg hsize]
  by_cases hso : l.structureOffset > totalSize bytes
  · exact if_pos hso
  rw [if_neg hso]
  by_cases hss : l.structureSize > totalSize bytes - l.structureOffset
  · exact if_pos hss
  rw [if_neg hss]
  by_cases hsto : l.stringsOffset > totalSize bytes
  · exact if_pos hsto
  rw [if_neg hsto]
  by_cases hsts : l.stringsSize > totalSize bytes - l.stringsOffset
  · exact if_pos hsts
  refine absurd ⟨?_, (block_fits hso).mp hss, (block_fits hsto).mp hsts⟩ h
  exact Nat.le_of_not_lt fun hlt => hsize (BitVec.lt_def.mpr hlt)

/-- `cpu_count` is the loop where the header is in order, and nothing otherwise. -/
theorem cpuCount_eq (hr : BlobReadable blob bytes) {dtbAddress : Word} (ha : dtbAddress ≠ 0) :
    (HeaderOk bytes → cpuCount blob dtbAddress = tokenLoop blob (.read bytes)
      ((Layout.read bytes).structureSize.toNat / 4) .start) ∧
    (¬ HeaderOk bytes → cpuCount blob dtbAddress = .ok ⟨0, false⟩) := by
  have hread {i : ℕ} (hi : i + 4 ≤ 40) : readBe32 blob i = .ok (be32 bytes i) :=
    readBe32_ok hr.header (Nat.zero_le i) hi
  rw [cpuCount, if_neg ha, hread (by decide), ok_bind]
  by_cases hmagic : be32 bytes 0 = fdtMagic
  · rw [if_neg (not_not.mpr hmagic), hread (by decide), ok_bind, hread (by decide), ok_bind,
      hread (by decide), ok_bind, hread (by decide), ok_bind, hread (by decide), ok_bind]
    refine ⟨fun h => countIn_eq h.total h.structures h.strings, fun h => countIn_refused ?_⟩
    exact fun hfits => h ⟨hmagic, hfits.1, hfits.2.1, hfits.2.2⟩
  · rw [if_pos hmagic]
    exact ⟨fun h => absurd h.magic hmagic, fun _ => rfl⟩

/-- A small number has a high byte that is zero. -/
theorem be32_lt {i : ℕ} (h : bytes i ≠ 0) : 2 ^ 24 ≤ (be32 bytes i).toNat := by
  have hpos : (bytes i).toNat ≠ 0 := fun h0 => h (BitVec.eq_of_toNat_eq h0)
  rw [be32, toNat_word32]
  omega

theorem decode_eq_none {c : ℕ} (h : bytes (l.at c) ≠ 0) : decode bytes l c = none := by
  have hbig := be32_lt h
  have hne {value : U32} (hv : value.toNat < 2 ^ 24) : be32 bytes (l.at c) ≠ value := by
    rintro rfl
    omega
  rw [decode, if_neg (hne (by decide)), if_neg (hne (by decide)), if_neg (hne (by decide)),
    if_neg (hne (by decide)), if_neg (hne (by decide))]

/-- The bytes of the magic number. -/
theorem magic_bytes (h : be32 bytes 0 = fdtMagic) {i : ℕ} (hi : i < 4) : bytes i ≠ 0 := by
  have h' := congrArg BitVec.toNat h
  rw [be32, toNat_word32, show fdtMagic.toNat = 0xd00dfeed from rfl] at h'
  have h1 := (bytes 1).isLt
  have h2 := (bytes 2).isLt
  have h3 := (bytes 3).isLt
  intro hz
  have hz' : (bytes i).toNat = 0 := by rw [hz]; rfl
  have hcases : i = 0 ∨ i = 1 ∨ i = 2 ∨ i = 3 := by omega
  rcases hcases with rfl | rfl | rfl | rfl <;> simp only [Nat.zero_add] at h' <;> omega

/-- **`cpu_count` always returns**, and it accepts exactly the tokens that bring the depth
back. -/
theorem cpuCount_spec (hr : BlobReadable blob bytes) (dtbAddress : Word) :
    ∃ result, cpuCount blob dtbAddress = .ok result ∧ ∀ n,
      (result.valid = true ∧ result.count.toNat = n) ↔
        dtbAddress ≠ 0 ∧ HeaderOk bytes ∧ Accepts bytes (.read bytes) 0 .start n := by
  by_cases ha : dtbAddress = 0
  · exact ⟨_, if_pos ha, fun n => ⟨fun h => Bool.noConfusion h.1, fun h => absurd ha h.1⟩⟩
  by_cases hok : HeaderOk bytes
  swap
  · exact ⟨_, (cpuCount_eq hr ha).2 hok, fun n =>
      ⟨fun h => Bool.noConfusion h.1, fun h => absurd h.2.1 hok⟩⟩
  rw [(cpuCount_eq hr ha).1 hok]
  have hs := hr.blocks hok
  generalize hl : Layout.read bytes = l at hs
  by_cases hsize : l.structureSize.toNat + 4 < 2 ^ 32
  · obtain ⟨result, hloop, hresult⟩ := @tokenLoop_spec blob bytes l 0 .start hs hsize
      (l.structureSize.toNat / 4) Registers.start_bounded (Nat.zero_le _) (by omega)
    exact ⟨result, hloop, fun n => (hresult n).symm.trans ⟨fun h => ⟨ha, hok, h⟩, fun h => h.2.2⟩⟩
  · -- A block of that size begins inside of the magic number, and that is not a token.
    have hstart : l.structureOffset.toNat < 4 := by
      have hfits := hok.structures
      have hlt := (totalSize bytes).isLt
      rw [hl, Layout.at] at hfits
      omega
    have hnone : decode bytes l 0 = none := decode_eq_none (magic_bytes hok.magic hstart)
    obtain ⟨answer, hturn, hanswer⟩ := turn_answers hs Registers.start_bounded
      (show 0 + 4 ≤ l.structureSize.toNat by omega)
    obtain ⟨turns, hturns⟩ : ∃ turns, l.structureSize.toNat / 4 = turns + 1 :=
      Nat.exists_eq_succ_of_ne_zero (by omega)
    have hguard : Loop.start.cursor + 4 ≤ l.structureSize :=
      BitVec.le_def.mpr (show 4 ≤ l.structureSize.toNat by omega)
    rw [hturns, tokenLoop, if_pos hguard, show Loop.start = .of 0 .start from rfl, hturn, ok_bind]
    cases hanswer with
    | next htoken | complete htoken => cases hnone.symm.trans htoken
    | reject =>
      refine ⟨_, rfl, fun n => ⟨fun h => Bool.noConfusion h.1, fun h => ?_⟩⟩
      obtain ⟨t, c', head, -⟩ := h.2.2.first
      cases hnone.symm.trans (decode_eq_some_iff.mpr head)

end Header

/-! ### Trees -/

/-- **A blob that flattens a tree**: the blocks lie inside of it, and the structure block
has the tokens of the tree, with `FDT_NOP` anywhere between them, and `FDT_END`. -/
structure Flattens (bytes : ℕ → Byte) (root : Item) : Prop where
  header : HeaderOk bytes
  tokens : ∃ tokens c c', significant tokens = root.tokens ∧
    TokensAt bytes (.read bytes) 0 tokens c ∧ TokenAt bytes (.read bytes) c .fin c'

/-- The tokens up to the first `FDT_END`. -/
def Consumed (bytes : ℕ → Byte) (tokens : List Token) : Prop :=
  .fin ∉ tokens ∧
    ∃ c c', TokensAt bytes (.read bytes) 0 tokens c ∧ TokenAt bytes (.read bytes) c .fin c'

section Trees

variable {blob : Blob} {bytes : ℕ → Byte} {dtbAddress : Word}

theorem BlobReadable.of_total
    (h : Readable blob bytes 0 (max 40 (totalSize bytes).toNat)) : BlobReadable blob bytes where
  header i _ hi := h i (Nat.zero_le i) (Nat.lt_of_lt_of_le hi (Nat.le_max_left _ _))
  blocks hok :=
    ⟨fun i _ hi => h i (Nat.zero_le i) (Nat.lt_of_lt_of_le hi
        (Nat.le_trans hok.structures (Nat.le_max_right _ _))),
      fun i _ hi => h i (Nat.zero_le i) (Nat.lt_of_lt_of_le hi
        (Nat.le_trans hok.strings (Nat.le_max_right _ _)))⟩

/-- The tokens of a tree bring the depth back, and its processors are counted. -/
theorem Flattens.accepts {root : Item} (h : Flattens bytes root) :
    Accepts bytes (.read bytes) 0 .start root.cpuNodes := by
  obtain ⟨tokens, c, c', hsig, hat, hfin⟩ := h.tokens
  obtain ⟨counted, hrun⟩ := Registers.run_tokens (r := Registers.start) rfl rfl [root]
  rw [listTokens_singleton, ← hsig, run_significant] at hrun
  refine ⟨tokens, c, c', _, hat, hfin, hrun, rfl, ?_⟩
  rw [List.map_singleton, List.sum_singleton]
  exact Nat.zero_add _

/-- **Every tree is counted**: on a blob that flattens a tree, `cpu_count` returns the
number of its processors. -/
theorem cpuCount_of_tree {name : List Byte} {items : List Item}
    (hread : Readable blob bytes 0 (totalSize bytes).toNat) (haddress : dtbAddress ≠ 0)
    (hflat : Flattens bytes (.node name items)) :
    ∃ result, cpuCount blob dtbAddress = .ok result ∧ result.valid = true ∧
      result.count.toNat = (Item.node name items).cpuNodes := by
  have hr : BlobReadable blob bytes := .of_total (by rwa [Nat.max_eq_right hflat.header.total])
  obtain ⟨result, hcount, hresult⟩ := cpuCount_spec hr dtbAddress
  exact ⟨result, hcount, (hresult _).mpr ⟨haddress, hflat.header, hflat.accepts⟩⟩

/-- A tree with one processor: `/cpus/cpu@0`. -/
def sampleTree : Item :=
  .node [] [.node cpusName [.node [0x63, 0x70, 0x75, 0x40, 0x30]
    [.prop deviceTypeName (cpuValue ++ [0])]]]

/-- A blob of that tree, with one `FDT_NOP`. -/
def sampleBlob : List Byte :=
  -- The header: 68 bytes of structure after it, 12 bytes of strings, 120 bytes in all.
  [0xd0, 0x0d, 0xfe, 0xed, 0, 0, 0, 120, 0, 0, 0, 40, 0, 0, 0, 108, 0, 0, 0, 0,
    0, 0, 0, 17, 0, 0, 0, 16, 0, 0, 0, 0, 0, 0, 0, 12, 0, 0, 0, 68] ++
  -- Three nodes begin.
  [0, 0, 0, 1, 0, 0, 0, 0] ++
  [0, 0, 0, 1, 0x63, 0x70, 0x75, 0x73, 0, 0, 0, 0] ++
  [0, 0, 0, 1, 0x63, 0x70, 0x75, 0x40, 0x30, 0, 0, 0] ++
  -- `device_type = "cpu"`, and the ends.
  [0, 0, 0, 3, 0, 0, 0, 4, 0, 0, 0, 0, 0x63, 0x70, 0x75, 0] ++
  [0, 0, 0, 2, 0, 0, 0, 4, 0, 0, 0, 2, 0, 0, 0, 2, 0, 0, 0, 9] ++
  deviceTypeName ++ [0]

theorem sampleBlob_flattens : Flattens (byteAt sampleBlob) sampleTree := by
  have hat (c c' : ℕ) (t : Token)
      (h : decode (byteAt sampleBlob) (.read (byteAt sampleBlob)) c = some (t, c')) :
      TokenAt (byteAt sampleBlob) (.read (byteAt sampleBlob)) c t c' := decode_eq_some_iff.mp h
  have hcpu := hat 20 32 (.beginNode [0x63, 0x70, 0x75, 0x40, 0x30]) (by decide +kernel)
  have htype := hat 32 48 (.prop deviceTypeName (cpuValue ++ [0])) (by decide +kernel)
  exact ⟨⟨by decide +kernel, by decide +kernel, by decide +kernel, by decide +kernel⟩,
    _, 64, 68, rfl,
    .cons (hat 0 8 (.beginNode []) (by decide +kernel)) <|
    .cons (hat 8 20 (.beginNode cpusName) (by decide +kernel)) <| .cons hcpu <| .cons htype <|
    .cons (hat 48 52 .endNode (by decide +kernel)) <| .cons (hat 52 56 .nop (by decide +kernel)) <|
    .cons (hat 56 60 .endNode (by decide +kernel)) <|
    .cons (hat 60 64 .endNode (by decide +kernel)) <| .nil 64,
    hat 64 68 .fin (by decide +kernel)⟩

theorem cpuCount_of_sampleTree : ∃ result,
    cpuCount (fun i => some (byteAt sampleBlob i)) 0x1000 = .ok result ∧ result.valid = true ∧
      result.count.toNat = sampleTree.cpuNodes :=
  cpuCount_of_tree (fun _ _ _ => rfl) (by decide) sampleBlob_flattens

/-- The loop does not go on past `FDT_END`. -/
theorem fin_notMem_of_run {tokens : List Token} {r r' : Registers} (h : r.run tokens = some r') :
    .fin ∉ tokens := by
  induction tokens generalizing r with
  | nil => exact List.not_mem_nil
  | cons token tokens ih =>
    rw [Registers.run_cons] at h
    obtain ⟨r1, hstep, h⟩ := Option.bind_eq_some_iff.mp h
    rw [List.mem_cons, not_or]
    refine ⟨?_, ih h⟩
    rintro rfl
    cases hstep

/-- A block has one list of tokens up to its first `FDT_END`. -/
theorem TokensAt.unique {l : Layout} {c d d' e e' : ℕ} {tokens tokens' : List Token}
    (h : TokensAt bytes l c tokens d) (h' : TokensAt bytes l c tokens' d')
    (hfin : TokenAt bytes l d .fin e) (hfin' : TokenAt bytes l d' .fin e') (hno : .fin ∉ tokens)
    (hno' : .fin ∉ tokens') : tokens = tokens' := by
  induction h generalizing tokens' with
  | nil c =>
    cases h' with
    | nil => rfl
    | cons head tail =>
      obtain ⟨rfl, -⟩ := head.unique hfin
      exact absurd List.mem_cons_self hno'
  | cons head tail ih =>
    cases h' with
    | nil =>
      obtain ⟨rfl, -⟩ := head.unique hfin'
      exact absurd List.mem_cons_self hno
    | cons head' tail' =>
      obtain ⟨rfl, rfl⟩ := head.unique head'
      rw [ih tail' hfin (fun h => hno (List.mem_cons_of_mem _ h))
        fun h => hno' (List.mem_cons_of_mem _ h)]

/-- **What is accepted is one tree exactly if it has one root.**  There are tokens up to the
first `FDT_END`, and these flatten one tree whose processors are counted exactly if one node
begins outside of all nodes and nothing else stands there.  The loop only looks at the depth:
nothing at all, several trees and properties outside of them pass as well. -/
theorem cpuCount_one_tree_iff {result : CpuCountResult}
    (hread : Readable blob bytes 0 (max 40 (totalSize bytes).toNat))
    (hrun : cpuCount blob dtbAddress = .ok result) (hvalid : result.valid = true) :
    (∃ tokens, Consumed bytes tokens) ∧ ∀ tokens, Consumed bytes tokens →
      ((∃ name items, significant tokens = (Item.node name items).tokens ∧
        result.count.toNat = (Item.node name items).cpuNodes) ↔
      ∃ name, topLevel (-1) (significant tokens) = [.beginNode name]) := by
  obtain ⟨result', hcount, hresult⟩ := cpuCount_spec (.of_total hread) dtbAddress
  cases hrun.symm.trans hcount
  obtain ⟨-, -, tokens, c, c', r, hat, hfin, hloop, hdepth, hn⟩ := (hresult _).mp ⟨hvalid, rfl⟩
  have hno := fin_notMem_of_run hloop
  refine ⟨⟨tokens, hno, c, c', hat, hfin⟩, ?_⟩
  rintro tokens' ⟨hno', d, d', hat', hfin'⟩
  obtain rfl := hat.unique hat' hfin hfin' hno hno'
  obtain ⟨items, hitems⟩ := exists_items hloop hdepth
  constructor
  · rintro ⟨name, inner, hsig, -⟩
    rw [← listTokens_singleton] at hsig
    exact (single_root_iff hsig).mp ⟨name, inner, rfl⟩
  · intro htop
    obtain ⟨name, inner, rfl⟩ := (single_root_iff hitems).mpr htop
    refine ⟨name, inner, hitems.trans (listTokens_singleton _), ?_⟩
    obtain ⟨counted, htokens⟩ :=
      Registers.run_tokens (r := Registers.start) rfl rfl [.node name inner]
    rw [← hitems, run_significant, hloop, Option.some_inj] at htokens
    rw [← hn, htokens, List.map_singleton, List.sum_singleton]
    exact Nat.zero_add _

/-- The tokens of the sample blob are those of its tree. -/
theorem cpuCount_one_tree_iff_sample : ∃ tokens, Consumed (byteAt sampleBlob) tokens ∧
    ∃ name items, significant tokens = (Item.node name items).tokens ∧
      (1 : U32).toNat = (Item.node name items).cpuNodes := by
  obtain ⟨⟨tokens, hconsumed⟩, hiff⟩ :=
    @cpuCount_one_tree_iff (fun i => some (byteAt sampleBlob i)) _ 0x1000 ⟨1, true⟩
      (fun _ _ _ => rfl) (by decide +kernel) rfl
  refine ⟨tokens, hconsumed, (hiff tokens hconsumed).mpr ⟨[], ?_⟩⟩
  obtain ⟨-, tokens', c, c', hsig, hat, hfin⟩ := sampleBlob_flattens
  have hno : .fin ∉ tokens' := by
    intro hmem
    have hsignificant : Token.fin ∈ significant tokens' := List.mem_filter.mpr ⟨hmem, rfl⟩
    rw [hsig] at hsignificant
    exact absurd hsignificant (by decide)
  obtain ⟨hno', d, d', hat', hfin'⟩ := hconsumed
  rw [← hat.unique hat' hfin hfin' hno hno', hsig]
  decide

/-- A blob whose structure block is `FDT_END` alone. -/
def rootlessBlob : List Byte :=
  [0xd0, 0x0d, 0xfe, 0xed, 0, 0, 0, 44, 0, 0, 0, 40, 0, 0, 0, 44, 0, 0, 0, 0,
    0, 0, 0, 17, 0, 0, 0, 16, 0, 0, 0, 0, 0, 0, 0, 0, 0, 0, 0, 4, 0, 0, 0, 9]

/-- There is no tree, and the blob is accepted. -/
theorem cpuCount_accepts_rootless :
    cpuCount (fun i => some (byteAt rootlessBlob i)) 0x1000 = .ok ⟨0, true⟩ ∧
      Consumed (byteAt rootlessBlob) [] ∧
      ∀ name items, significant [] ≠ (Item.node name items).tokens := by
  refine ⟨by decide +kernel,
    ⟨List.not_mem_nil, 0, 4, .nil 0, decode_eq_some_iff.mp (by decide +kernel)⟩, ?_⟩
  intro name items h
  rw [Item.tokens] at h
  exact List.cons_ne_nil _ _ h.symm

end Trees

/-! ### Safety -/

/-- Only the header can be read, and of the structure and the strings block what lies
below `totalsize`. -/
def guarded (bytes : ℕ → Byte) : Blob := fun i =>
  let l := Layout.read bytes
  if i < max 40 (totalSize bytes).toNat ∧
      (i < 40 ∨ (l.structureOffset.toNat ≤ i ∧ i < l.at l.structureSize.toNat) ∨
        (l.stringsOffset.toNat ≤ i ∧ i < l.stringsOffset.toNat + l.stringsSize.toNat)) then
    some (bytes i)
  else none

/-- **For every content of the blob `cpu_count` returns**: it reads nothing but the header
and the blocks, the depth does not overflow, and the loop takes at most as many turns as
the structure block has words. -/
theorem cpuCount_total (bytes : ℕ → Byte) (dtbAddress : Word) :
    ∃ result, cpuCount (guarded bytes) dtbAddress = .ok result := by
  have hr : BlobReadable (guarded bytes) bytes := by
    refine ⟨fun i _ hi => if_pos ⟨Nat.lt_of_lt_of_le hi (Nat.le_max_left _ _), .inl hi⟩,
      fun hok => ⟨fun i hl hi => if_pos ⟨?_, .inr (.inl ⟨hl, hi⟩)⟩,
        fun i hl hi => if_pos ⟨?_, .inr (.inr ⟨hl, hi⟩)⟩⟩⟩
    · exact Nat.lt_of_lt_of_le hi (Nat.le_trans hok.structures (Nat.le_max_right _ _))
    · exact Nat.lt_of_lt_of_le hi (Nat.le_trans hok.strings (Nat.le_max_right _ _))
  obtain ⟨result, hcount, -⟩ := cpuCount_spec hr dtbAddress
  exact ⟨result, hcount⟩

end Fdt

end Jixia
