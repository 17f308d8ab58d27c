/-
Forests of multi-level tables.

A table maps digits to entries; an entry is empty, points to a table one level down
or holds a value.  `lookup` follows a list of digits from a table.  In a `Forest` the
levels fit together and no table is shared, so a change of one entry is seen by the
one digit list that leads to it.

* `Forest.path_unique` — a table is reached from one root, along one digit list;
* `Forest.addRoot`, `Forest.link`, `Forest.setLeaf` — the changes that keep a forest;
* `lookup_addTable`, `lookup_link` — a fresh table changes no lookup;
* `lookup_setLeaf`, `lookup_setLeaf_ne` — a new value is seen where it was put, and
  nowhere else.
-/
import Mathlib.Logic.Function.Basic
import Mathlib.Data.List.Induction
import Mathlib.Tactic.Common

namespace RadixTree

open Function

/-- An entry of a table. -/
inductive Slot (P A : Type*)
  | empty
  | table (child : P)
  | leaf (value : A)

/-- Tables with their entries; `depth p` is the number of levels below the table `p`,
and `none` where `p` is no table. -/
structure Tables (P I A : Type*) where
  entry : P → I → Slot P A
  depth : P → Option ℕ

variable {P I A : Type*} {g : Tables P I A} {p q c r : P} {i j : I} {d N : ℕ} {a : A}

namespace Tables

/-- The value found along the digits. -/
def lookup (g : Tables P I A) : P → List I → Option A
  | _, [] => none
  | p, i :: rest =>
    match g.entry p i with
    | .empty => none
    | .leaf value => if rest.isEmpty then some value else none
    | .table child => g.lookup child rest

/-- The digits lead from a table to another. -/
inductive Path (g : Tables P I A) : P → List I → P → Prop
  | nil (p : P) : Path g p [] p
  | cons {p c q : P} {i : I} {l : List I} : g.entry p i = .table c → Path g c l q →
      Path g p (i :: l) q

variable [DecidableEq P]

/-- A fresh table, with no entries. -/
def addTable (g : Tables P I A) (c : P) (d : ℕ) : Tables P I A :=
  { entry := update g.entry c fun _ => .empty
    depth := update g.depth c (some d) }

@[simp] theorem addTable_entry_same : (g.addTable c d).entry c i = .empty := by
  simp [addTable]

theorem addTable_entry_ne (h : p ≠ c) : (g.addTable c d).entry p i = g.entry p i := by
  simp [addTable, h]

@[simp] theorem addTable_depth_same : (g.addTable c d).depth c = some d := by
  simp [addTable]

theorem addTable_depth_ne (h : p ≠ c) : (g.addTable c d).depth p = g.depth p := by
  simp [addTable, h]

variable [DecidableEq I]

/-- One entry replaced. -/
def set (g : Tables P I A) (p : P) (i : I) (slot : Slot P A) : Tables P I A :=
  { g with entry := update g.entry p (update (g.entry p) i slot) }

@[simp] theorem set_depth (slot : Slot P A) : (g.set p i slot).depth = g.depth := rfl

@[simp] theorem set_entry_same (slot : Slot P A) : (g.set p i slot).entry p i = slot := by
  simp [set]

theorem set_entry_ne {slot : Slot P A} (h : ¬ (q = p ∧ j = i)) :
    (g.set p i slot).entry q j = g.entry q j := by
  by_cases hq : q = p
  · subst hq
    have hj : j ≠ i := fun hj => h ⟨rfl, hj⟩
    simp [set, hj]
  · simp [set, hq]

end Tables

open Tables

/-- The tables form a forest: the levels fit, a table that is no root has a parent,
and no table has two. -/
structure Forest (N : ℕ) (g : Tables P I A) : Prop where
  bounded : ∀ {p d}, g.depth p = some d → d ≤ N
  child : ∀ {p d i c}, g.depth p = some d → g.entry p i = .table c →
    ∃ e, d = e + 1 ∧ g.depth c = some e
  leaf : ∀ {p d i a}, g.depth p = some d → g.entry p i = .leaf a → d = 0
  parent : ∀ {p d}, g.depth p = some d → d < N →
    ∃ q e i, g.depth q = some e ∧ g.entry q i = .table p
  parent_unique : ∀ {p q d e i j c}, g.depth p = some d → g.depth q = some e →
    g.entry p i = .table c → g.entry q j = .table c → p = q ∧ i = j

/-! ### Paths -/

theorem Tables.Path.snoc_iff {l : List I} :
    Path g p (l ++ [i]) q ↔ ∃ c, Path g p l c ∧ g.entry c i = .table q := by
  induction l generalizing p with
  | nil =>
    constructor
    · rintro (_ | ⟨he, ⟨⟩⟩)
      exact ⟨p, .nil p, he⟩
    · rintro ⟨_, ⟨⟩, he⟩
      exact .cons he (.nil q)
  | cons k l ih =>
    constructor
    · rintro (_ | ⟨he, hp⟩)
      obtain ⟨c, hc, hi⟩ := ih.mp hp
      exact ⟨c, .cons he hc, hi⟩
    · rintro ⟨c, _ | ⟨he, hp⟩, hi⟩
      exact .cons he (ih.mpr ⟨c, hp, hi⟩)

/-- A path goes down one level a digit. -/
theorem Forest.path_depth (hf : Forest N g) {l : List I} (hp : Path g p l q)
    (hd : g.depth p = some d) : ∃ e, d = e + l.length ∧ g.depth q = some e := by
  induction hp generalizing d with
  | nil p => exact ⟨d, rfl, hd⟩
  | cons he _ ih =>
    obtain ⟨e, rfl, hc⟩ := hf.child hd he
    obtain ⟨e', rfl, hq⟩ := ih hc
    exact ⟨e', by simp [Nat.add_assoc], hq⟩

/-- **A table is reached from one root, along one digit list.** -/
theorem Forest.path_unique (hf : Forest N g) {r' : P} {l l' : List I} (hr : g.depth r = some N)
    (hr' : g.depth r' = some N) (hp : Path g r l q) (hp' : Path g r' l' q) : r = r' ∧ l = l' := by
  -- Both lists have the length the level of `q` gives, so they are taken apart together.
  induction l using List.reverseRecOn generalizing q l' with
  | nil =>
    cases hp
    obtain ⟨e, hN, hd⟩ := hf.path_depth hp' hr'
    rw [hr, Option.some_inj] at hd
    have hnil : l' = [] := List.length_eq_zero_iff.mp (by omega)
    subst hnil
    cases hp'
    exact ⟨rfl, rfl⟩
  | append_singleton l i ih =>
    obtain ⟨e, hN, hd⟩ := hf.path_depth hp hr
    obtain ⟨e', hN', hd'⟩ := hf.path_depth hp' hr'
    rw [hd, Option.some_inj] at hd'
    obtain ⟨c, hc, hi⟩ := Path.snoc_iff.mp hp
    obtain ⟨_, _, hcd⟩ := hf.path_depth hc hr
    cases l' using List.reverseRecOn with
    | nil =>
      simp only [List.length_append, List.length_singleton, List.length_nil] at hN hN'
      omega
    | append_singleton l' k =>
      obtain ⟨c', hc', hk⟩ := Path.snoc_iff.mp hp'
      obtain ⟨_, _, hcd'⟩ := hf.path_depth hc' hr'
      obtain ⟨rfl, rfl⟩ := hf.parent_unique hcd hcd' hi hk
      obtain ⟨rfl, rfl⟩ := ih hc hc'
      exact ⟨rfl, rfl⟩

/-! ### Lookups that see no change -/

/-- Lookups from tables that keep their entries are the same, where a new table
stands for an empty entry as long as it has none itself. -/
theorem lookup_congr {g' : Tables P I A} (hchild : ∀ {p d i c}, g.depth p = some d →
      g.entry p i = .table c → ∃ e, g.depth c = some e)
    (hsame : ∀ {p d}, g.depth p = some d → ∀ i, g'.entry p i = g.entry p i ∨
      g.entry p i = .empty ∧ ∃ c, g'.entry p i = .table c ∧ ∀ j, g'.entry c j = .empty)
    (hp : g.depth p = some d) (l : List I) : g'.lookup p l = g.lookup p l := by
  induction l generalizing p d with
  | nil => rfl
  | cons i l ih =>
    rw [lookup, lookup]
    rcases hsame hp i with he | ⟨hempty, c, hc, hnone⟩
    · rw [he]
      cases hg : g.entry p i with
      | empty => rfl
      | leaf value => rfl
      | table c =>
        obtain ⟨e, hd⟩ := hchild hp hg
        exact ih hd
    · rw [hempty, hc]
      -- The new table has nothing to find.
      cases l with
      | nil => rfl
      | cons j l => simp only [lookup, hnone j]

theorem Forest.ne_of_fresh (hp : g.depth p = some d) (hc : g.depth c = none) : p ≠ c := by
  rintro rfl
  rw [hp] at hc
  cases hc

section Changes

variable [DecidableEq P]

theorem lookup_addTable (hf : Forest N g) (hc : g.depth c = none) {e : ℕ}
    (hp : g.depth p = some d) (l : List I) : (g.addTable c e).lookup p l = g.lookup p l := by
  refine lookup_congr (fun hd he => ?_) (fun hd i => .inl ?_) hp l
  · obtain ⟨e, _, hc⟩ := hf.child hd he
    exact ⟨e, hc⟩
  · exact addTable_entry_ne (Forest.ne_of_fresh hd hc)

/-- A fresh table is a new tree. -/
theorem Forest.addRoot (hf : Forest N g) (hc : g.depth c = none) : Forest N (g.addTable c N) := by
  -- An old table, or the new one.
  have hold : ∀ {p d}, (g.addTable c N).depth p = some d → p = c ∧ d = N ∨ g.depth p = some d := by
    intro p d hd
    by_cases hpc : p = c
    · subst hpc
      rw [addTable_depth_same, Option.some_inj] at hd
      exact .inl ⟨rfl, hd.symm⟩
    · rw [addTable_depth_ne hpc] at hd
      exact .inr hd
  have hentry : ∀ {p d i}, (g.addTable c N).depth p = some d →
      (g.addTable c N).entry p i ≠ .empty →
      g.depth p = some d ∧ (g.addTable c N).entry p i = g.entry p i := by
    intro p d i hd hne
    rcases hold hd with ⟨rfl, _⟩ | hg
    · exact absurd addTable_entry_same hne
    · exact ⟨hg, addTable_entry_ne (ne_of_fresh hg hc)⟩
  have hkeep : ∀ {p e}, g.depth p = some e → (g.addTable c N).depth p = some e := by
    intro p e hp
    rw [addTable_depth_ne (ne_of_fresh hp hc), hp]
  constructor
  · intro p d hd
    rcases hold hd with ⟨_, rfl⟩ | hg
    · exact Nat.le_refl _
    · exact hf.bounded hg
  · intro p d i c' hd he
    obtain ⟨hg, heq⟩ := hentry hd (by rw [he]; nofun)
    obtain ⟨e, hde, hc'⟩ := hf.child hg (heq ▸ he)
    exact ⟨e, hde, hkeep hc'⟩
  · intro p d i a hd he
    obtain ⟨hg, heq⟩ := hentry hd (by rw [he]; nofun)
    exact hf.leaf hg (heq ▸ he)
  · intro p d hd hlt
    rcases hold hd with ⟨_, rfl⟩ | hg
    · exact absurd hlt (Nat.lt_irrefl _)
    · obtain ⟨q, e, i, hq, he⟩ := hf.parent hg hlt
      exact ⟨q, e, i, hkeep hq, by rw [addTable_entry_ne (ne_of_fresh hq hc), he]⟩
  · intro p q d e i j c' hp hq hi hj
    obtain ⟨hgp, heqp⟩ := hentry hp (by rw [hi]; nofun)
    obtain ⟨hgq, heqq⟩ := hentry hq (by rw [hj]; nofun)
    exact hf.parent_unique hgp hgq (heqp ▸ hi) (heqq ▸ hj)

variable [DecidableEq I]

/-- A fresh table under the entry `i` of `p`. -/
def Tables.link (g : Tables P I A) (p : P) (i : I) (c : P) (d : ℕ) : Tables P I A :=
  (g.addTable c d).set p i (.table c)

/-- The entries of a table once `c` hangs under the empty entry `i` of `p`. -/
theorem link_entry_cases (g : Tables P I A) (p : P) (i : I) (c : P) (d : ℕ) (q : P) (j : I) :
    q = p ∧ j = i ∧ (g.link p i c d).entry q j = .table c ∨
    q = c ∧ (g.link p i c d).entry q j = .empty ∨
    q ≠ c ∧ ¬ (q = p ∧ j = i) ∧ (g.link p i c d).entry q j = g.entry q j := by
  by_cases hslot : q = p ∧ j = i
  · obtain ⟨rfl, rfl⟩ := hslot
    exact .inl ⟨rfl, rfl, set_entry_same _⟩
  · rw [link, set_entry_ne hslot]
    by_cases hqc : q = c
    · subst hqc
      exact .inr (.inl ⟨rfl, addTable_entry_same⟩)
    · exact .inr (.inr ⟨hqc, hslot, addTable_entry_ne hqc⟩)

theorem link_depth_cases {e : ℕ} (h : (g.link p i c d).depth q = some e) :
    q = c ∧ e = d ∨ g.depth q = some e := by
  rw [link, set_depth] at h
  by_cases hqc : q = c
  · subst hqc
    rw [addTable_depth_same, Option.some_inj] at h
    exact .inl ⟨rfl, h.symm⟩
  · rw [addTable_depth_ne hqc] at h
    exact .inr h

theorem link_depth_old {e : ℕ} (hc : g.depth c = none) (h : g.depth q = some e) :
    (g.link p i c d).depth q = some e := by
  rw [link, set_depth, addTable_depth_ne (Forest.ne_of_fresh h hc), h]

theorem link_depth_new : (g.link p i c d).depth c = some d := by
  rw [link, set_depth, addTable_depth_same]

/-- A table entry stays when a fresh table is linked. -/
theorem link_entry_table (he : g.entry p i = .empty) (hc : g.depth c = none) {q c' : P} {e : ℕ}
    (hq : g.depth q = some e) (hj : g.entry q j = .table c') :
    (g.link p i c d).entry q j = .table c' := by
  have hslot : ¬ (q = p ∧ j = i) := by
    rintro ⟨rfl, rfl⟩
    rw [he] at hj
    cases hj
  rw [link, set_entry_ne hslot, addTable_entry_ne (Forest.ne_of_fresh hq hc), hj]

/-- A fresh table under an empty entry keeps the forest. -/
theorem Forest.link (hf : Forest N g) (hp : g.depth p = some (d + 1)) (he : g.entry p i = .empty)
    (hc : g.depth c = none) : Forest N (g.link p i c d) := by
  have hpc := ne_of_fresh hp hc
  -- An entry that is not empty is the new one or an old one.
  have hentry : ∀ {q e j slot}, (g.link p i c d).depth q = some e →
      (g.link p i c d).entry q j = slot → slot ≠ .empty →
      (q = p ∧ j = i ∧ e = d + 1 ∧ slot = .table c) ∨
        g.depth q = some e ∧ g.entry q j = slot := by
    intro q e j slot hd hs hne
    rcases link_entry_cases g p i c d q j with ⟨rfl, rfl, ht⟩ | ⟨_, hempty⟩ | ⟨hqc, _, hold⟩
    · rcases link_depth_cases hd with ⟨rfl, _⟩ | hg
      · exact absurd rfl hpc
      · rw [hp, Option.some_inj] at hg
        exact .inl ⟨rfl, rfl, hg.symm, hs.symm.trans ht⟩
    · exact absurd (hs.symm.trans hempty) hne
    · rcases link_depth_cases hd with ⟨rfl, _⟩ | hg
      · exact absurd rfl hqc
      · exact .inr ⟨hg, hold.symm.trans hs⟩
  -- No old entry points to the fresh table.
  have hfresh : ∀ {q e j}, g.depth q = some e → g.entry q j ≠ .table c := by
    intro q e j hq hj
    obtain ⟨_, _, hd⟩ := hf.child hq hj
    rw [hc] at hd
    cases hd
  constructor
  · intro q e hd
    rcases link_depth_cases hd with ⟨_, rfl⟩ | hg
    · exact Nat.le_of_succ_le (hf.bounded hp)
    · exact hf.bounded hg
  · intro q e j c' hd hs
    rcases hentry hd hs nofun with ⟨rfl, rfl, rfl, ht⟩ | ⟨hg, ht⟩
    · cases ht
      exact ⟨d, rfl, link_depth_new⟩
    · obtain ⟨e', hde, hc'⟩ := hf.child hg ht
      exact ⟨e', hde, link_depth_old hc hc'⟩
  · intro q e j a hd hs
    rcases hentry hd hs nofun with ⟨_, _, _, ht⟩ | ⟨hg, ht⟩
    · cases ht
    · exact hf.leaf hg ht
  · intro q e hd hlt
    rcases link_depth_cases hd with ⟨rfl, rfl⟩ | hg
    · refine ⟨p, e + 1, i, link_depth_old hc hp, ?_⟩
      rw [Tables.link, set_entry_same]
    · obtain ⟨q', e', j, hq', hj⟩ := hf.parent hg hlt
      exact ⟨q', e', j, link_depth_old hc hq', link_entry_table he hc hq' hj⟩
  · intro q q' e e' j j' c' hq hq' hj hj'
    rcases hentry hq hj nofun with ⟨rfl, rfl, _, ht⟩ | ⟨hg, ht⟩
    · cases ht
      rcases hentry hq' hj' nofun with ⟨rfl, rfl, _, _⟩ | ⟨hg', ht'⟩
      · exact ⟨rfl, rfl⟩
      · exact absurd ht' (hfresh hg')
    · rcases hentry hq' hj' nofun with ⟨_, _, _, ht'⟩ | ⟨hg', ht'⟩
      · cases ht'
        exact absurd ht (hfresh hg)
      · exact hf.parent_unique hg hg' ht ht'

/-- **A fresh table under an empty entry changes no lookup.** -/
theorem lookup_link (hf : Forest N g) (hp : g.depth p = some (d + 1)) (he : g.entry p i = .empty)
    (hc : g.depth c = none) {e : ℕ} (hq : g.depth q = some e) (l : List I) :
    (g.link p i c d).lookup q l = g.lookup q l := by
  refine lookup_congr (fun hd ht => ?_) (fun {q e} hd j => ?_) hq l
  · obtain ⟨e, _, hc⟩ := hf.child hd ht
    exact ⟨e, hc⟩
  · rcases link_entry_cases g p i c d q j with ⟨rfl, rfl, ht⟩ | ⟨rfl, _⟩ | ⟨_, _, hold⟩
    · refine .inr ⟨he, c, ht, fun k => ?_⟩
      rw [link, set_entry_ne (fun h => Forest.ne_of_fresh hp hc h.1.symm), addTable_entry_same]
    · exact absurd rfl (Forest.ne_of_fresh hd hc)
    · exact .inl hold

/-! ### A new value -/

/-- A value in an empty entry of the last level keeps the forest. -/
theorem Forest.setLeaf (hf : Forest N g) (hq : g.depth q = some 0) (he : g.entry q j = .empty) :
    Forest N (g.set q j (.leaf a)) := by
  have hentry : ∀ {p i c}, (g.set q j (.leaf a)).entry p i = .table c ↔ g.entry p i = .table c := by
    intro p i c
    by_cases hslot : p = q ∧ i = j
    · obtain ⟨rfl, rfl⟩ := hslot
      rw [set_entry_same, he]
      exact ⟨nofun, nofun⟩
    · rw [set_entry_ne hslot]
  constructor
  · exact hf.bounded
  · intro p d i c hd ht
    exact hf.child hd (hentry.mp ht)
  · intro p d i b hd hl
    by_cases hslot : p = q ∧ i = j
    · rw [set_depth, hslot.1, hq, Option.some_inj] at hd
      exact hd.symm
    · rw [set_entry_ne hslot] at hl
      exact hf.leaf hd hl
  · intro p d hd hlt
    obtain ⟨r, e, i, hr, ht⟩ := hf.parent hd hlt
    exact ⟨r, e, i, hr, hentry.mpr ht⟩
  · intro p r d e i k c hp hr hi hk
    exact hf.parent_unique hp hr (hentry.mp hi) (hentry.mp hk)

/-- **The new value is found along the digits that lead to it.** -/
theorem lookup_setLeaf (he : g.entry q j = .empty) {l : List I} (hp : Path g p l q) :
    g.lookup p (l ++ [j]) = none ∧ (g.set q j (.leaf a)).lookup p (l ++ [j]) = some a := by
  induction hp with
  | nil q => simp [lookup, he]
  | @cons p c q i l ht _ ih =>
    have hslot : ¬ (p = q ∧ i = j) := by
      rintro ⟨rfl, rfl⟩
      rw [he] at ht
      cases ht
    rw [List.cons_append, lookup, lookup, set_entry_ne hslot, ht]
    exact ih he

/-- **Other lookups do not see it.** -/
theorem lookup_setLeaf_ne (hf : Forest N g) (hq : g.depth q = some 0) (he : g.entry q j = .empty)
    (hp : g.depth p = some d) {l : List I} (hl : l.length = d + 1)
    (hne : ∀ l', l = l' ++ [j] → ¬ Path g p l' q) :
    (g.set q j (.leaf a)).lookup p l = g.lookup p l := by
  induction l generalizing p d with
  | nil => rfl
  | cons i l ih =>
    have hslot : ¬ (p = q ∧ i = j) := by
      rintro ⟨rfl, rfl⟩
      rw [hq, Option.some_inj] at hp
      have hnil : l = [] := List.length_eq_zero_iff.mp (by simp at hl; omega)
      exact hne [] (by rw [hnil]; rfl) (.nil p)
    rw [lookup, lookup, set_entry_ne hslot]
    cases ht : g.entry p i with
    | empty => rfl
    | leaf value => rfl
    | table c =>
      obtain ⟨e, rfl, hc⟩ := hf.child hp ht
      refine ih hc (by simpa using hl) fun l' hl' hpath => ?_
      exact hne (i :: l') (by rw [hl']; rfl) (.cons ht hpath)

end Changes

end RadixTree
