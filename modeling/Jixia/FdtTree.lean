/-
Device trees and their tokens.

A device tree is a node with properties and nodes in it, and its flattening a list of
tokens.  This module is about the tokens alone: `Registers` are the three variables of
`cpu_count` and its counter, moved from token to token.

* `run_tokens` — over the tokens of a list of nodes and properties the counter grows by
  the number of processors, and the depth is what it was;
* `run_zipper` — a list of tokens that brings the depth back to where it was is the
  flattening of nodes and properties.
-/
import Jixia.Fdt

namespace Jixia

namespace Fdt

/-! ### Trees -/

/-- A property, or a node with what stands in it. -/
inductive Item
  | prop (name value : List Byte)
  | node (name : List Byte) (items : List Item)

/-- The tokens of the structure block; a property carries its name, not an offset. -/
inductive Token
  | beginNode (name : List Byte)
  | endNode
  | prop (name value : List Byte)
  | nop
  | fin
  deriving DecidableEq

mutual

/-- The flattening of a node or a property. -/
def Item.tokens : Item → List Token
  | .prop name value => [.prop name value]
  | .node name items => .beginNode name :: (listTokens items ++ [.endNode])

/-- The flattening of the contents of a node. -/
def listTokens : List Item → List Token
  | [] => []
  | item :: items => item.tokens ++ listTokens items

end

/-- The property `device_type = "cpu"`. -/
def Item.isCpuType : Item → Bool
  | .prop name value => name == deviceTypeName && value == cpuValue ++ [0]
  | .node _ _ => false

/-- A node with such a property. -/
def Item.isCpu : Item → Bool
  | .prop _ _ => false
  | .node _ items => items.any Item.isCpuType

/-- The processors in a node of depth 1: the nodes in it, if it is named `cpus`. -/
def Item.cpus : Item → ℕ
  | .prop _ _ => 0
  | .node name items => if name = cpusName then items.countP Item.isCpu else 0

/-- **The number of processors of a tree.** -/
def Item.cpuNodes : Item → ℕ
  | .prop _ _ => 0
  | .node _ items => (items.map Item.cpus).sum

/-! ### The registers -/

structure Registers where
  depth : ℤ
  cpusDepth : ℤ
  counted : Bool
  count : ℕ

namespace Registers

/-- The registers before the first token. -/
def start : Registers := ⟨-1, -1, false, 0⟩

/-- What the loop of `cpu_count` makes of a token; `none` when it gives up. -/
def step (r : Registers) : Token → Option Registers
  | .beginNode name =>
    let depth := r.depth + 1
    let cpusDepth := if depth = 1 ∧ name = cpusName then depth else r.cpusDepth
    some { r with
      depth := depth
      cpusDepth := cpusDepth
      counted := if cpusDepth ≥ 0 ∧ depth = cpusDepth + 1 then false else r.counted }
  | .endNode =>
    if r.depth < 0 then none
    else some { r with
      cpusDepth := if r.depth = r.cpusDepth then -1 else r.cpusDepth
      depth := r.depth - 1 }
  | .prop name value =>
    if r.cpusDepth ≥ 0 ∧ r.depth = r.cpusDepth + 1 ∧ r.counted = false ∧
        (Item.prop name value).isCpuType then
      some { r with count := r.count + 1, counted := true }
    else some r
  | .nop => some r
  | .fin => none

/-- The registers after a list of tokens. -/
def run (r : Registers) (tokens : List Token) : Option Registers := tokens.foldlM step r

theorem run_nil (r : Registers) : r.run [] = some r := rfl

theorem run_cons (r : Registers) (token : Token) (tokens : List Token) :
    r.run (token :: tokens) = (r.step token).bind fun r' => r'.run tokens := by
  rw [run, List.foldlM_cons]
  rfl

theorem run_append (r : Registers) (tokens tokens' : List Token) :
    r.run (tokens ++ tokens') = (r.run tokens).bind fun r' => r'.run tokens' := by
  rw [run, List.foldlM_append]
  rfl

/-! ### Whole nodes -/

variable {r : Registers}

/-- The registers one node further down, where nothing is counted. -/
theorem step_beginNode_below (h0 : 0 < r.depth) (hc : r.cpusDepth < r.depth) (name : List Byte) :
    r.step (.beginNode name) = some { r with depth := r.depth + 1 } := by
  have hname : ¬ (r.depth + 1 = 1 ∧ name = cpusName) := fun h => by omega
  have hflag : ¬ (r.cpusDepth ≥ 0 ∧ r.depth + 1 = r.cpusDepth + 1) := fun h => by omega
  simp only [step, if_neg hname, if_neg hflag]

theorem step_endNode_below (h0 : 0 < r.depth) (hc : r.cpusDepth < r.depth) :
    ({ r with depth := r.depth + 1 } : Registers).step .endNode = some r := by
  have hneg : ¬ r.depth + 1 < 0 := by omega
  have hne : ¬ r.depth + 1 = r.cpusDepth := by omega
  simp only [step, if_neg hneg, if_neg hne, Int.add_sub_cancel]

/-- A property of a node that is not a child of `/cpus`. -/
theorem step_prop_below (hd : r.depth ≠ r.cpusDepth + 1) (name value : List Byte) :
    r.step (.prop name value) = some r :=
  if_neg fun h => hd h.2.1

mutual

/-- **Below the children of `/cpus`, and outside of it, nothing happens.** -/
theorem run_below {r : Registers} (h0 : 0 < r.depth) (hc : r.cpusDepth + 1 < r.depth)
    (item : Item) : r.run item.tokens = some r := by
  cases item with
  | prop name value =>
    rw [Item.tokens, run_cons, step_prop_below (by omega)]
    rfl
  | node name items =>
    have hdown : ({ r with depth := r.depth + 1 } : Registers).run (listTokens items) = _ :=
      run_below_list (show 0 < r.depth + 1 by omega) (show r.cpusDepth + 1 < r.depth + 1 by omega)
        items
    rw [Item.tokens, run_cons, step_beginNode_below h0 (by omega), Option.bind_some, run_append,
      hdown, Option.bind_some, run_cons, step_endNode_below h0 (by omega)]
    rfl

theorem run_below_list {r : Registers} (h0 : 0 < r.depth) (hc : r.cpusDepth + 1 < r.depth)
    (items : List Item) : r.run (listTokens items) = some r := by
  cases items with
  | nil => rfl
  | cons item items =>
    rw [listTokens, run_append, run_below h0 hc item, Option.bind_some]
    exact run_below_list h0 hc items

end

/-- A node inside a child of `/cpus` leaves the registers. -/
theorem run_node_below (h0 : 0 < r.depth) (hc : r.cpusDepth < r.depth) (name : List Byte)
    (items : List Item) : r.run (Item.node name items).tokens = some r := by
  have hdown : ({ r with depth := r.depth + 1 } : Registers).run (listTokens items) = _ :=
    run_below_list (show 0 < r.depth + 1 by omega) (show r.cpusDepth + 1 < r.depth + 1 by omega)
      items
  rw [Item.tokens, run_cons, step_beginNode_below h0 hc, Option.bind_some, run_append, hdown,
    Option.bind_some, run_cons, step_endNode_below h0 hc]
  rfl

/-- In a child of `/cpus`, the first property `device_type = "cpu"` counts. -/
theorem run_child (hd : r.depth = 2) (hc : r.cpusDepth = 1) (items : List Item) :
    r.run (listTokens items) = some { r with
      counted := r.counted || items.any Item.isCpuType
      count := r.count + if !r.counted && items.any Item.isCpuType then 1 else 0 } := by
  induction items generalizing r with
  | nil => simp [listTokens, run_nil]
  | cons item items ih =>
    rw [listTokens, run_append]
    cases item with
    | node name inner =>
      rw [run_node_below (by omega) (by omega), Option.bind_some, ih hd hc]
      simp only [List.any_cons, Item.isCpuType, Bool.false_or]
    | prop name value =>
      rw [Item.tokens, run_cons]
      by_cases hcount : r.counted = false ∧ (Item.prop name value).isCpuType = true
      · rw [step, if_pos ⟨by omega, by omega, hcount⟩, Option.bind_some, run_nil,
          Option.bind_some]
        rw [ih (r := { r with count := r.count + 1, counted := true }) hd hc]
        simp [hcount.1, hcount.2]
      · rw [step, if_neg fun h => hcount h.2.2, Option.bind_some, run_nil, Option.bind_some,
          ih hd hc]
        rcases Bool.eq_false_or_eq_true r.counted with hr | hr
        · simp [hr]
        · have hno : (Item.prop name value).isCpuType = false :=
            Bool.eq_false_iff.mpr fun h => hcount ⟨hr, h⟩
          simp [hno]

/-- In `/cpus`, every child that is a processor counts once. -/
theorem run_cpus (hd : r.depth = 1) (hc : r.cpusDepth = 1) (items : List Item) :
    ∃ counted, r.run (listTokens items) = some { r with
      counted := counted
      count := r.count + items.countP Item.isCpu } := by
  induction items generalizing r with
  | nil => exact ⟨r.counted, rfl⟩
  | cons item items ih =>
    rw [listTokens, run_append]
    cases item with
    | prop name value =>
      obtain ⟨counted, hrest⟩ := ih hd hc
      refine ⟨counted, ?_⟩
      rw [Item.tokens, run_cons, step_prop_below (by omega), Option.bind_some, run_nil,
        Option.bind_some, hrest, List.countP_cons_of_neg (by simp [Item.isCpu])]
    | node name inner =>
      -- The child is entered with the flag cleared.
      have henter : r.step (.beginNode name) =
          some { r with depth := r.depth + 1, counted := false } := by
        have hname : ¬ (r.depth + 1 = 1 ∧ name = cpusName) := fun h => by omega
        have hflag : r.cpusDepth ≥ 0 ∧ r.depth + 1 = r.cpusDepth + 1 := by omega
        simp only [step, if_neg hname, if_pos hflag]
      have hinner := run_child
        (r := { r with depth := r.depth + 1, counted := false }) (by simp [hd]) hc inner
      have hneg : ¬ r.depth + 1 < 0 := by omega
      have hne : ¬ r.depth + 1 = r.cpusDepth := by omega
      have hleave : ({ r with
          depth := r.depth + 1
          counted := inner.any Item.isCpuType
          count := r.count + if inner.any Item.isCpuType then 1 else 0 } : Registers).step
            .endNode = some { r with
          counted := inner.any Item.isCpuType
          count := r.count + if inner.any Item.isCpuType then 1 else 0 } := by
        simp only [step, if_neg hneg, if_neg hne, Int.add_sub_cancel]
      simp only [Bool.false_or, Bool.not_false, Bool.true_and] at hinner
      obtain ⟨counted, hrest⟩ := ih (r := { r with
        counted := inner.any Item.isCpuType
        count := r.count + if inner.any Item.isCpuType then 1 else 0 }) hd hc
      refine ⟨counted, ?_⟩
      rw [Item.tokens, run_cons, henter, Option.bind_some, run_append, hinner, Option.bind_some,
        run_cons, hleave, Option.bind_some, run_nil, Option.bind_some, hrest, List.countP_cons]
      cases hany : inner.any Item.isCpuType with
      | false => simp [Item.isCpu, hany]
      | true =>
        simp only [Item.isCpu, hany, if_true, Option.some.injEq, Registers.mk.injEq, true_and]
        omega

/-- In the root, every node named `cpus` counts. -/
theorem run_root (hd : r.depth = 0) (hc : r.cpusDepth = -1) (items : List Item) :
    ∃ counted, r.run (listTokens items) = some { r with
      counted := counted
      count := r.count + (items.map Item.cpus).sum } := by
  induction items generalizing r with
  | nil => exact ⟨r.counted, rfl⟩
  | cons item items ih =>
    rw [listTokens, run_append, List.map_cons, List.sum_cons]
    -- What the item adds, and that it leaves the two depths.
    obtain ⟨counted, hitem⟩ : ∃ counted, r.run item.tokens = some { r with
        counted := counted
        count := r.count + item.cpus } := by
      cases item with
      | prop name value =>
        refine ⟨r.counted, ?_⟩
        rw [Item.tokens, run_cons, step, if_neg fun h => by omega]
        rfl
      | node name inner =>
        have hneg : ¬ r.depth + 1 < 0 := by omega
        by_cases hname : name = cpusName
        · have henter : r.step (.beginNode name) =
              some { r with depth := r.depth + 1, cpusDepth := r.depth + 1 } := by
            have hcpus : r.depth + 1 = 1 ∧ name = cpusName := ⟨by omega, hname⟩
            have hflag : ¬ (r.depth + 1 ≥ 0 ∧ r.depth + 1 = r.depth + 1 + 1) := fun h => by omega
            simp only [step, if_pos hcpus, if_neg hflag]
          obtain ⟨counted, hinner⟩ := run_cpus
            (r := { r with depth := r.depth + 1, cpusDepth := r.depth + 1 }) (by simp [hd])
            (by simp [hd]) inner
          refine ⟨counted, ?_⟩
          rw [Item.tokens, run_cons, henter, Option.bind_some, run_append, hinner,
            Option.bind_some, run_cons, Item.cpus, if_pos hname]
          simp only [step, if_neg hneg, Int.add_sub_cancel, ← hc]
          rfl
        · have henter : r.step (.beginNode name) = some { r with depth := r.depth + 1 } := by
            have hcpus : ¬ (r.depth + 1 = 1 ∧ name = cpusName) := fun h => hname h.2
            have hflag : ¬ (r.cpusDepth ≥ 0 ∧ r.depth + 1 = r.cpusDepth + 1) := fun h => by omega
            simp only [step, if_neg hcpus, if_neg hflag]
          have hinner := run_below_list (r := { r with depth := r.depth + 1 })
            (show 0 < r.depth + 1 by omega) (show r.cpusDepth + 1 < r.depth + 1 by omega) inner
          have hne : ¬ r.depth + 1 = r.cpusDepth := by omega
          refine ⟨r.counted, ?_⟩
          rw [Item.tokens, run_cons, henter, Option.bind_some, run_append, hinner,
            Option.bind_some, run_cons, Item.cpus, if_neg hname]
          simp only [step, if_neg hneg, if_neg hne, Int.add_sub_cancel]
          rfl
    obtain ⟨counted', hrest⟩ := ih (r := { r with
      counted := counted
      count := r.count + item.cpus }) hd hc
    refine ⟨counted', ?_⟩
    rw [hitem, Option.bind_some, hrest, Nat.add_assoc]

/-- **Over the tokens of trees the counter grows by the number of their processors.**
Properties outside of all nodes are passed over. -/
theorem run_tokens (hd : r.depth = -1) (hc : r.cpusDepth = -1) (items : List Item) :
    ∃ counted, r.run (listTokens items) = some { r with
      counted := counted
      count := r.count + (items.map Item.cpuNodes).sum } := by
  induction items generalizing r with
  | nil => exact ⟨r.counted, rfl⟩
  | cons item items ih =>
    rw [listTokens, run_append, List.map_cons, List.sum_cons]
    obtain ⟨counted, hitem⟩ : ∃ counted, r.run item.tokens = some { r with
        counted := counted
        count := r.count + item.cpuNodes } := by
      cases item with
      | prop name value =>
        refine ⟨r.counted, ?_⟩
        rw [Item.tokens, run_cons, step, if_neg fun h => by omega]
        rfl
      | node name inner =>
        have henter : r.step (.beginNode name) = some { r with depth := r.depth + 1 } := by
          have hcpus : ¬ (r.depth + 1 = 1 ∧ name = cpusName) := fun h => by omega
          have hflag : ¬ (r.cpusDepth ≥ 0 ∧ r.depth + 1 = r.cpusDepth + 1) := fun h => by omega
          simp only [step, if_neg hcpus, if_neg hflag]
        obtain ⟨counted, hinner⟩ := run_root (r := { r with depth := r.depth + 1 }) (by simp [hd])
          hc inner
        have hneg : ¬ r.depth + 1 < 0 := by omega
        have hne : ¬ r.depth + 1 = r.cpusDepth := by omega
        refine ⟨counted, ?_⟩
        rw [Item.tokens, run_cons, henter, Option.bind_some, run_append, hinner,
          Option.bind_some, run_cons, Item.cpuNodes]
        simp only [step, if_neg hneg, if_neg hne, Int.add_sub_cancel]
        rfl
    obtain ⟨counted', hrest⟩ := ih (r := { r with
      counted := counted
      count := r.count + item.cpuNodes }) hd hc
    refine ⟨counted', ?_⟩
    rw [hitem, Option.bind_some, hrest, Nat.add_assoc]

end Registers

/-! ### Back from tokens to trees -/

/-- How a token moves the depth. -/
def Token.moves : Token → ℤ
  | .beginNode _ => 1
  | .endNode => -1
  | .prop _ _ => 0
  | .nop => 0
  | .fin => 0

theorem Registers.step_depth {r r' : Registers} {token : Token} (h : r.step token = some r') :
    r'.depth = r.depth + token.moves := by
  cases token with
  | beginNode name =>
    cases h
    rfl
  | endNode =>
    rw [step] at h
    split at h <;> cases h
    rfl
  | prop name value =>
    rw [step] at h
    split at h <;> (cases h; exact (Int.add_zero _).symm)
  | nop =>
    cases h
    exact (Int.add_zero _).symm
  | fin => cases h

theorem Token.moves_le (token : Token) : token.moves ≤ 1 := by
  cases token <;> rw [moves] <;> decide

/-- No node is left that is not open. -/
theorem Registers.step_low {r r' : Registers} {token : Token} (h : r.step token = some r')
    (hlow : -1 ≤ r.depth) : -1 ≤ r'.depth := by
  have hd := step_depth h
  cases token with
  | endNode =>
    rw [step] at h
    split at h
    · cases h
    · rw [hd, Token.moves]
      omega
  | beginNode name =>
    rw [hd, Token.moves]
    omega
  | prop name value | nop | fin => rwa [hd, Token.moves, Int.add_zero]

theorem Registers.step_count {r r' : Registers} {token : Token} (h : r.step token = some r') :
    r'.count ≤ r.count + 1 := by
  cases token with
  | beginNode name =>
    cases h
    exact Nat.le_succ _
  | endNode =>
    rw [step] at h
    split at h <;> cases h
    exact Nat.le_succ _
  | prop name value =>
    rw [step] at h
    split at h <;> cases h
    · exact Nat.le_refl _
    · exact Nat.le_succ _
  | nop =>
    cases h
    exact Nat.le_succ _
  | fin => cases h

/-- The tokens that say something. -/
def significant (tokens : List Token) : List Token := tokens.filter fun token => token ≠ .nop

theorem significant_cons_nop (tokens : List Token) :
    significant (.nop :: tokens) = significant tokens := rfl

theorem significant_cons {token : Token} (h : token ≠ .nop) (tokens : List Token) :
    significant (token :: tokens) = token :: significant tokens :=
  List.filter_cons_of_pos (decide_eq_true h)

theorem run_significant (r : Registers) (tokens : List Token) :
    r.run (significant tokens) = r.run tokens := by
  induction tokens generalizing r with
  | nil => rfl
  | cons token tokens ih =>
    by_cases hnop : token = .nop
    · subst hnop
      rw [significant_cons_nop, ih, Registers.run_cons]
      rfl
    · rw [significant_cons hnop, Registers.run_cons, Registers.run_cons]
      exact Option.bind_congr fun r' _ => ih r'

theorem listTokens_append (items items' : List Item) :
    listTokens (items ++ items') = listTokens items ++ listTokens items' := by
  induction items with
  | nil => rfl
  | cons item items ih => rw [List.cons_append, listTokens, listTokens, ih, List.append_assoc]

theorem listTokens_singleton (item : Item) : listTokens [item] = item.tokens := by
  rw [listTokens, listTokens, List.append_nil]

/-- The nodes that are open, innermost first, each with what stands in it so far. -/
abbrev Frames := List (List Byte × List Item)

/-- The tokens of what is closed and of what is open. -/
def zipTokens (closed : List Item) : Frames → List Token
  | [] => listTokens closed
  | (name, items) :: outer => zipTokens closed outer ++ .beginNode name :: listTokens items

/-- A complete item is added to what stands in the innermost node. -/
theorem zipTokens_add (closed : List Item) (frames : Frames) (item : Item) :
    ∃ closed' frames', frames'.length = frames.length ∧
      zipTokens closed' frames' = zipTokens closed frames ++ item.tokens := by
  cases frames with
  | nil =>
    refine ⟨closed ++ [item], [], rfl, ?_⟩
    rw [zipTokens, zipTokens, listTokens_append, listTokens_singleton]
  | cons frame outer =>
    obtain ⟨name, items⟩ := frame
    refine ⟨closed, (name, items ++ [item]) :: outer, rfl, ?_⟩
    rw [zipTokens, zipTokens, listTokens_append, listTokens_singleton, List.append_assoc,
      List.cons_append]

/-- **Tokens that the loop passes are the flattening of trees and open nodes.** -/
theorem run_zipper {r r' : Registers} {tokens : List Token} (hrun : r.run tokens = some r')
    (closed : List Item) (frames : Frames) (hl : (frames.length : ℤ) = r.depth + 1) :
    ∃ closed' frames', ((frames' : Frames).length : ℤ) = r'.depth + 1 ∧
      zipTokens closed' frames' = zipTokens closed frames ++ significant tokens := by
  induction tokens generalizing r closed frames with
  | nil =>
    cases hrun
    exact ⟨closed, frames, hl, (List.append_nil _).symm⟩
  | cons token tokens ih =>
    rw [Registers.run_cons] at hrun
    obtain ⟨r1, hstep, hrest⟩ := Option.bind_eq_some_iff.mp hrun
    have hd := Registers.step_depth hstep
    cases token with
    | beginNode name =>
      obtain ⟨closed', frames', hl', heq⟩ := ih hrest closed ((name, []) :: frames) (by
        rw [List.length_cons, hd, Token.moves]
        omega)
      refine ⟨closed', frames', hl', heq.trans ?_⟩
      rw [significant_cons Token.noConfusion, zipTokens, listTokens, List.append_assoc]
      rfl
    | endNode =>
      have hneg : ¬ r.depth < 0 := by
        intro hneg
        rw [Registers.step, if_pos hneg] at hstep
        cases hstep
      -- Some node is open: it is closed and goes into the one around it.
      cases frames with
      | nil =>
        rw [List.length_nil] at hl
        omega
      | cons frame outer =>
        obtain ⟨name, items⟩ := frame
        obtain ⟨closed1, frames1, hlen, hadd⟩ := zipTokens_add closed outer (.node name items)
        rw [List.length_cons] at hl
        obtain ⟨closed', frames', hl', heq⟩ := ih hrest closed1 frames1 (by
          rw [hlen, hd, Token.moves]
          omega)
        refine ⟨closed', frames', hl', heq.trans ?_⟩
        rw [hadd, significant_cons Token.noConfusion, zipTokens, Item.tokens]
        simp only [List.append_assoc, List.cons_append, List.nil_append]
    | prop name value =>
      obtain ⟨closed1, frames1, hlen, hadd⟩ := zipTokens_add closed frames (.prop name value)
      obtain ⟨closed', frames', hl', heq⟩ := ih hrest closed1 frames1 (by
        rw [hlen, hd, Token.moves]
        omega)
      refine ⟨closed', frames', hl', heq.trans ?_⟩
      rw [hadd, significant_cons Token.noConfusion, Item.tokens, List.append_assoc]
      rfl
    | nop =>
      cases hstep
      exact ih hrest closed frames hl
    | fin => cases hstep

/-- Tokens that bring the depth back are the flattening of nodes and properties. -/
theorem exists_items {r : Registers} {tokens : List Token}
    (hrun : Registers.start.run tokens = some r) (hd : r.depth = -1) :
    ∃ items, significant tokens = listTokens items := by
  obtain ⟨closed, frames, hl, heq⟩ := run_zipper hrun [] [] rfl
  cases frames with
  | nil => exact ⟨closed, heq.symm⟩
  | cons frame outer =>
    rw [List.length_cons] at hl
    omega

/-! ### The outermost tokens -/

/-- The tokens that stand outside of all nodes. -/
def topLevel : ℤ → List Token → List Token
  | _, [] => []
  | depth, token :: tokens =>
    if depth = -1 then token :: topLevel (depth + token.moves) tokens
    else topLevel (depth + token.moves) tokens

/-- The token that an item begins with. -/
def Item.head : Item → Token
  | .prop name value => .prop name value
  | .node name _ => .beginNode name

mutual

theorem topLevel_inside {depth : ℤ} (hd : 0 ≤ depth) (item : Item) (tokens : List Token) :
    topLevel depth (item.tokens ++ tokens) = topLevel depth tokens := by
  cases item with
  | prop name value =>
    rw [Item.tokens, List.singleton_append, topLevel, if_neg (by omega), Token.moves,
      Int.add_zero]
  | node name items =>
    rw [Item.tokens, List.cons_append, List.append_assoc, topLevel, if_neg (by omega)]
    have hinner := topLevel_inside_list (show 0 ≤ depth + 1 by omega) items
      ([.endNode] ++ tokens)
    refine hinner.trans ?_
    rw [List.singleton_append, topLevel, if_neg (by omega)]
    simp only [Token.moves, Int.add_neg_cancel_right]

theorem topLevel_inside_list {depth : ℤ} (hd : 0 ≤ depth) (items : List Item)
    (tokens : List Token) :
    topLevel depth (listTokens items ++ tokens) = topLevel depth tokens := by
  cases items with
  | nil => rfl
  | cons item items =>
    rw [listTokens, List.append_assoc, topLevel_inside hd item]
    exact topLevel_inside_list hd items tokens

end

/-- Outside of all nodes stand the heads of the items. -/
theorem topLevel_listTokens (items : List Item) :
    topLevel (-1) (listTokens items) = items.map Item.head := by
  induction items with
  | nil => rfl
  | cons item items ih =>
    rw [listTokens, List.map_cons, ← ih]
    cases item with
    | prop name value =>
      rw [Item.tokens, List.singleton_append, topLevel, if_pos rfl]
      rfl
    | node name inner =>
      rw [Item.tokens, List.cons_append, List.append_assoc, topLevel, if_pos rfl]
      have hinner : topLevel 0 (listTokens inner ++ ([.endNode] ++ listTokens items)) = _ :=
        topLevel_inside_list (le_refl 0) inner _
      refine congrArg _ (hinner.trans ?_)
      rw [List.singleton_append, topLevel, if_neg (by decide)]
      rfl

/-- **One tree**: there is one item, and it is a node. -/
theorem single_root_iff {tokens : List Token} {items : List Item}
    (h : significant tokens = listTokens items) :
    (∃ name inner, items = [.node name inner]) ↔
      ∃ name, topLevel (-1) (significant tokens) = [.beginNode name] := by
  rw [h, topLevel_listTokens]
  constructor
  · rintro ⟨name, inner, rfl⟩
    exact ⟨name, rfl⟩
  · rintro ⟨name, hmap⟩
    obtain ⟨item, rest, rfl, hhead, hrest⟩ := List.map_eq_cons_iff.mp hmap
    obtain rfl := List.map_eq_nil_iff.mp hrest
    cases item with
    | prop name' value => cases hhead
    | node name' inner => exact ⟨name', inner, rfl⟩

end Fdt

end Jixia
