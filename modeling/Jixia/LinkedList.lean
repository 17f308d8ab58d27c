/-
Intrusive doubly linked lists.

The nodes of an intrusive list carry their own links, so a heap of nodes is a
pair of total functions `next prev : α → Option α` and one heap holds many lists
at once.  A list is *represented* when following the links visits exactly its
elements:

* `Linked next prev p l q` — the segment `l` lies between the outer neighbours
  `p` and `q`;
* `Holds next prev head tail l` — a whole list with its head and tail pointers,
  free of repetitions;
* `walk next n head` — the elements found by following `next`, the executable
  reading of a list out of its heap.

There are two operations: `insNext`/`insPrev` put a node between two neighbours,
`delNext`/`delPrev` take one out.  `Holds.insert` and `Holds.delete` say what they
do to the list that holds the node; nodes of other lists keep their links.

`Family` is a set of disjoint lists in one heap, indexed by `ι`, whose nodes carry
a membership mark; `Family.insert` and `Family.delete` are the operations on it.
-/
import Mathlib.Data.List.Nodup
import Mathlib.Data.List.Infix
import Mathlib.Tactic.Common

namespace LinkedList

open Function

variable {α : Type*}

/-- The segment `l` is linked forwards by `next` and backwards by `prev`; its
first node points back to `p` and its last node points on to `q`. -/
def Linked (next prev : α → Option α) : Option α → List α → Option α → Prop
  | _, [], _ => True
  | p, a :: l, q => prev a = p ∧ next a = l.head?.or q ∧ Linked next prev (some a) l q

variable {next prev next' prev' : α → Option α} {p q head tail : Option α}
  {a : α} {l l1 l2 : List α}

@[simp] theorem linked_nil : Linked next prev p [] q := trivial

@[simp] theorem linked_cons :
    Linked next prev p (a :: l) q ↔
      prev a = p ∧ next a = l.head?.or q ∧ Linked next prev (some a) l q := Iff.rfl

/-- Links of nodes outside the segment do not matter. -/
theorem Linked.congr (h : Linked next prev p l q)
    (hn : ∀ b ∈ l, next' b = next b) (hp : ∀ b ∈ l, prev' b = prev b) :
    Linked next' prev' p l q := by
  induction l generalizing p with
  | nil => trivial
  | cons b l ih =>
    obtain ⟨h1, h2, h3⟩ := h
    refine ⟨?_, ?_, ih h3 (fun c hc => hn c (by simp [hc])) (fun c hc => hp c (by simp [hc]))⟩
    · rw [hp b (by simp), h1]
    · rw [hn b (by simp), h2]

theorem linked_append :
    Linked next prev p (l1 ++ l2) q ↔
      Linked next prev p l1 (l2.head?.or q) ∧ Linked next prev (l1.getLast?.or p) l2 q := by
  induction l1 generalizing p with
  | nil => simp
  | cons b l ih =>
    simp only [List.cons_append, linked_cons, ih]
    have hhead : (l ++ l2).head?.or q = l.head?.or (l2.head?.or q) := by
      cases l <;> simp
    have hlast : (b :: l).getLast?.or p = l.getLast?.or (some b) := by
      rw [List.getLast?_cons]
      cases l.getLast? <;> simp
    rw [hhead, hlast]
    tauto

/-- The forward neighbour of a segment sits on its last node only. -/
theorem Linked.relinkLast (h : Linked next prev p l q) (hd : l.Nodup)
    (hn : ∀ b ∈ l, some b ≠ l.getLast? → next' b = next b)
    (hlast : ∀ b, l.getLast? = some b → next' b = tail)
    (hp : ∀ b ∈ l, prev' b = prev b) : Linked next' prev' p l tail := by
  rcases List.eq_nil_or_concat' l with rfl | ⟨l', b, rfl⟩
  · trivial
  · rw [linked_append] at h ⊢
    have hne : ∀ c ∈ l', some c ≠ (l' ++ [b]).getLast? := by
      intro c hc heq
      rw [List.getLast?_concat, Option.some_inj] at heq
      subst heq
      exact absurd hd (by simp [List.nodup_append, hc])
    refine ⟨h.1.congr (fun c hc => hn c (by simp [hc]) (hne c hc))
      (fun c hc => hp c (by simp [hc])), ?_, ?_, trivial⟩
    · rw [hp b (by simp), h.2.1]
    · rw [hlast b (by simp), List.head?_nil, Option.none_or]

/-- The backward neighbour of a segment sits on its first node only. -/
theorem Linked.relinkFirst (h : Linked next prev p l q) (hd : l.Nodup)
    (hp : ∀ b ∈ l, some b ≠ l.head? → prev' b = prev b)
    (hfirst : ∀ b, l.head? = some b → prev' b = head)
    (hn : ∀ b ∈ l, next' b = next b) : Linked next' prev' head l q := by
  cases l with
  | nil => trivial
  | cons b l =>
    obtain ⟨_, h2, h3⟩ := h
    have hne : ∀ c ∈ l, some c ≠ (b :: l).head? := by
      intro c hc heq
      rw [List.head?_cons, Option.some_inj] at heq
      subst heq
      exact (List.nodup_cons.mp hd).1 hc
    exact ⟨hfirst b rfl, by rw [hn b (by simp), h2],
      h3.congr (fun c hc => hn c (by simp [hc])) (fun c hc => hp c (by simp [hc]) (hne c hc))⟩

/-! ### Whole lists -/

/-- A list together with the pointers to its two ends. -/
structure Holds (next prev : α → Option α) (head tail : Option α) (l : List α) : Prop where
  linked : Linked next prev none l none
  head_eq : head = l.head?
  tail_eq : tail = l.getLast?
  nodup : l.Nodup

theorem Holds.nil : Holds next prev none none ([] : List α) :=
  ⟨trivial, rfl, rfl, List.nodup_nil⟩

theorem Holds.congr (h : Holds next prev head tail l)
    (hn : ∀ b ∈ l, next' b = next b) (hp : ∀ b ∈ l, prev' b = prev b) :
    Holds next' prev' head tail l :=
  ⟨h.linked.congr hn hp, h.head_eq, h.tail_eq, h.nodup⟩

/-- The neighbours of a member are the ends of the two segments around it. -/
theorem Holds.neighbours (l1 : List α) (h : Holds next prev head tail (l1 ++ a :: l2)) :
    next a = l2.head? ∧ prev a = l1.getLast? := by
  have hl := h.linked
  rw [linked_append, linked_cons] at hl
  simp only [Option.or_none] at hl
  exact ⟨hl.2.2.1, hl.2.1⟩

/-! ### Linking and unlinking a node -/

section Operations

variable [DecidableEq α]

/-- The forward links after `a` was put between `before` and `after`. -/
def insNext (next : α → Option α) (before after : Option α) (a : α) : α → Option α := fun b =>
  if b = a then after else if before = some b then some a else next b

/-- The backward links after `a` was put between `before` and `after`. -/
def insPrev (prev : α → Option α) (before after : Option α) (a : α) : α → Option α := fun b =>
  if b = a then before else if after = some b then some a else prev b

/-- The forward links after `a` was taken out. -/
def delNext (next prev : α → Option α) (a : α) : α → Option α := fun b =>
  if b = a then none else if prev a = some b then next a else next b

/-- The backward links after `a` was taken out. -/
def delPrev (next prev : α → Option α) (a : α) : α → Option α := fun b =>
  if b = a then none else if next a = some b then prev a else prev b

theorem insNext_of_ne {before after : Option α} {b : α} (hb : b ≠ a) (hbef : before ≠ some b) :
    insNext next before after a b = next b := by
  simp [insNext, hb, hbef]

theorem insPrev_of_ne {before after : Option α} {b : α} (hb : b ≠ a) (haft : after ≠ some b) :
    insPrev prev before after a b = prev b := by
  simp [insPrev, hb, haft]

theorem delNext_of_ne {b : α} (hb : b ≠ a) (hbef : prev a ≠ some b) :
    delNext next prev a b = next b := by
  simp [delNext, hb, hbef]

theorem delPrev_of_ne {b : α} (hb : b ≠ a) (haft : next a ≠ some b) :
    delPrev next prev a b = prev b := by
  simp [delPrev, hb, haft]

/-- The links after the first node of a list was taken out. -/
theorem delete_first (hp : prev a = none) (b : α) :
    delNext next prev a b = (if b = a then none else next b) ∧
      delPrev next prev a b = if b = a ∨ next a = some b then none else prev b := by
  by_cases hb : b = a <;> simp [delNext, delPrev, hp, hb]

/-- Put a node between two segments. -/
theorem Holds.insert (l1 l2 : List α) (h : Holds next prev head tail (l1 ++ l2))
    (ha : a ∉ l1 ++ l2) :
    Holds (insNext next l1.getLast? l2.head? a) (insPrev prev l1.getLast? l2.head? a)
      (l1 ++ a :: l2).head? (l1 ++ a :: l2).getLast? (l1 ++ a :: l2) := by
  obtain ⟨hl, _, _, hd⟩ := h
  rw [linked_append] at hl
  obtain ⟨hd1, hd2, hdisj⟩ := List.nodup_append.mp hd
  have hne : ∀ b ∈ l1 ++ l2, b ≠ a := fun b hb hba => ha (hba ▸ hb)
  refine ⟨?_, rfl, rfl, List.nodup_middle.mpr (List.nodup_cons.mpr ⟨ha, hd⟩)⟩
  rw [linked_append, linked_cons]
  refine ⟨hl.1.relinkLast hd1 ?_ ?_ ?_, by simp [insPrev], by simp [insNext],
    hl.2.relinkFirst hd2 ?_ ?_ ?_⟩
  · exact fun c hc hlast => insNext_of_ne (hne c (by simp [hc])) (Ne.symm hlast)
  · intro c hc
    have hca := hne c (by simp [List.mem_of_getLast? hc])
    simp [insNext, hca, hc]
  · intro c hc
    refine insPrev_of_ne (hne c (by simp [hc])) fun heq => ?_
    exact hdisj c hc c (List.mem_of_head? heq) rfl
  · exact fun c hc hfirst => insPrev_of_ne (hne c (by simp [hc])) (Ne.symm hfirst)
  · intro c hc
    have hca := hne c (by simp [List.mem_of_head? hc])
    simp [insPrev, hca, hc]
  · intro c hc
    refine insNext_of_ne (hne c (by simp [hc])) fun heq => ?_
    exact hdisj c (List.mem_of_getLast? heq) c hc rfl

/-- Take a node out. -/
theorem Holds.delete (l1 : List α) (h : Holds next prev head tail (l1 ++ a :: l2)) :
    Holds (delNext next prev a) (delPrev next prev a) (l1 ++ l2).head? (l1 ++ l2).getLast?
      (l1 ++ l2) := by
  obtain ⟨hna, hpa⟩ := h.neighbours l1
  obtain ⟨hl, _, _, hd⟩ := h
  rw [linked_append, linked_cons] at hl
  obtain ⟨ha, hd'⟩ := List.nodup_cons.mp (List.nodup_middle.mp hd)
  obtain ⟨hd1, hd2, hdisj⟩ := List.nodup_append.mp hd'
  have hne : ∀ b ∈ l1 ++ l2, b ≠ a := fun b hb hba => ha (hba ▸ hb)
  refine ⟨?_, rfl, rfl, hd'⟩
  rw [linked_append]
  refine ⟨hl.1.relinkLast hd1 ?_ ?_ ?_, hl.2.2.2.relinkFirst hd2 ?_ ?_ ?_⟩
  · intro c hc hlast
    exact delNext_of_ne (hne c (by simp [hc])) fun heq => hlast (by rw [← hpa, heq])
  · intro c hc
    have hca := hne c (by simp [List.mem_of_getLast? hc])
    simp [delNext, hca, hpa, hc, hna]
  · intro c hc
    refine delPrev_of_ne (hne c (by simp [hc])) fun heq => ?_
    exact hdisj c hc c (List.mem_of_head? (hna ▸ heq)) rfl
  · intro c hc hfirst
    exact delPrev_of_ne (hne c (by simp [hc])) fun heq => hfirst (by rw [← hna, heq])
  · intro c hc
    have hca := hne c (by simp [List.mem_of_head? hc])
    simp [delPrev, hca, hna, hc, hpa]
  · intro c hc
    refine delNext_of_ne (hne c (by simp [hc])) fun heq => ?_
    exact hdisj c (List.mem_of_getLast? (hpa ▸ heq)) c hc rfl

/-- A node outside of the list keeps its links when another one is put in. -/
theorem insert_outside (next prev : α → Option α) (l1 l2 : List α) {b : α} (hb : b ≠ a)
    (hbl : b ∉ l1 ++ l2) :
    insNext next l1.getLast? l2.head? a b = next b ∧
      insPrev prev l1.getLast? l2.head? a b = prev b := by
  rw [List.mem_append, not_or] at hbl
  exact ⟨insNext_of_ne hb fun h => hbl.1 (List.mem_of_getLast? h),
    insPrev_of_ne hb fun h => hbl.2 (List.mem_of_head? h)⟩

/-- A node outside of the list keeps its links when a member is taken out. -/
theorem Holds.delete_outside (l1 : List α) (h : Holds next prev head tail (l1 ++ a :: l2))
    {b : α} (hb : b ∉ l1 ++ a :: l2) :
    delNext next prev a b = next b ∧ delPrev next prev a b = prev b := by
  obtain ⟨hna, hpa⟩ := h.neighbours l1
  rw [List.mem_append, List.mem_cons, not_or, not_or] at hb
  exact ⟨delNext_of_ne hb.2.1 fun hc => hb.1 (List.mem_of_getLast? (hpa ▸ hc)),
    delPrev_of_ne hb.2.1 fun hc => hb.2.2 (List.mem_of_head? (hna ▸ hc))⟩

end Operations

/-! ### Reading a list out of its links -/

/-- The nodes met by following `next` from `head`, at most `n` of them. -/
def walk (next : α → Option α) : ℕ → Option α → List α
  | 0, _ => []
  | _ + 1, none => []
  | n + 1, some a => a :: walk next n (next a)

theorem Linked.walk_eq (h : Linked next prev p l none) {n : ℕ} (hn : l.length ≤ n) :
    walk next n l.head? = l := by
  induction l generalizing p n with
  | nil => cases n <;> rfl
  | cons b l ih =>
    obtain ⟨_, h2, h3⟩ := h
    obtain ⟨m, rfl⟩ : ∃ m, n = m + 1 := ⟨n - 1, by simp at hn; omega⟩
    rw [Option.or_none] at h2
    simp only [List.head?_cons, walk, h2]
    rw [ih h3 (by simpa using hn)]

/-- Walking a represented list gives the list back. -/
theorem Holds.walk_eq (h : Holds next prev head tail l) {n : ℕ} (hn : l.length ≤ n) :
    walk next n head = l := by
  rw [h.head_eq]
  exact h.linked.walk_eq hn

/-- The two link functions are inverse to each other along a list. -/
theorem Holds.next_eq_iff (h : Holds next prev head tail l) {b : α} (ha : a ∈ l) (hb : b ∈ l) :
    next a = some b ↔ prev b = some a := by
  constructor
  · intro hab
    obtain ⟨l1, l2, rfl⟩ := List.append_of_mem ha
    rw [(h.neighbours _).1] at hab
    obtain ⟨l3, rfl⟩ := List.head?_eq_some_iff.mp hab
    have hl := h.linked
    rw [linked_append, linked_cons, linked_cons] at hl
    exact hl.2.2.2.1
  · intro hba
    obtain ⟨l1, l2, rfl⟩ := List.append_of_mem hb
    rw [(h.neighbours _).2] at hba
    obtain ⟨l3, rfl⟩ := List.getLast?_eq_some_iff.mp hba
    have hl := h.linked
    rw [List.append_assoc, linked_append, List.singleton_append, linked_cons] at hl
    simpa using hl.2.2.1

/-- The links do not leave the list. -/
theorem Holds.next_mem (h : Holds next prev head tail l) {b : α} (ha : a ∈ l)
    (hab : next a = some b) : b ∈ l := by
  obtain ⟨l1, l2, rfl⟩ := List.append_of_mem ha
  rw [(h.neighbours _).1] at hab
  exact List.mem_append_right _ (List.mem_cons_of_mem _ (List.mem_of_head? hab))

theorem Holds.prev_mem (h : Holds next prev head tail l) {b : α} (ha : a ∈ l)
    (hab : prev a = some b) : b ∈ l := by
  obtain ⟨l1, l2, rfl⟩ := List.append_of_mem ha
  rw [(h.neighbours _).2] at hab
  exact List.mem_append_left _ (List.mem_of_getLast? hab)

/-! ### Many lists in one heap -/

/-- Disjoint lists `l i` with their end pointers; a node is marked as queued when
it is in one of them. -/
structure Family {ι : Type*} (next prev : α → Option α) (queued : α → Prop)
    (head tail : ι → Option α) (l : ι → List α) : Prop where
  holds : ∀ i, Holds next prev (head i) (tail i) (l i)
  queued_iff : ∀ a, queued a ↔ ∃ i, a ∈ l i
  disjoint : ∀ {i j a}, a ∈ l i → a ∈ l j → i = j

namespace Family

variable {ι : Type*} {queued queued' : α → Prop} {head tail head' tail' : ι → Option α}
  {l : ι → List α} {i : ι}

/-- A node that is not queued is in no list. -/
theorem not_mem (h : Family next prev queued head tail l) (ha : ¬ queued a) (i : ι) : a ∉ l i :=
  fun hmem => ha ((h.queued_iff a).mpr ⟨i, hmem⟩)

/-- Only the links and marks of the members matter. -/
theorem congr (h : Family next prev queued head tail l)
    (hn : ∀ i, ∀ a ∈ l i, next' a = next a) (hp : ∀ i, ∀ a ∈ l i, prev' a = prev a)
    (hq : ∀ a, queued' a ↔ queued a) (hh : ∀ i, head' i = head i)
    (ht : ∀ i, tail' i = tail i) : Family next' prev' queued' head' tail' l where
  holds i := by
    rw [hh, ht]
    exact (h.holds i).congr (hn i) (hp i)
  queued_iff a := by rw [hq, h.queued_iff]
  disjoint := h.disjoint

variable [DecidableEq ι]

/-- Replace one list by another one. -/
theorem replace (h : Family next prev queued head tail l) {new : List α} {first last : Option α}
    (hnew : Holds next' prev' first last new)
    (hn : ∀ j, j ≠ i → ∀ b ∈ l j, next' b = next b)
    (hp : ∀ j, j ≠ i → ∀ b ∈ l j, prev' b = prev b)
    (hq : ∀ b, queued' b ↔ b ∈ new ∨ ∃ j, j ≠ i ∧ b ∈ l j)
    (hd : ∀ j, j ≠ i → ∀ b ∈ l j, b ∉ new) :
    Family next' prev' queued' (update head i first) (update tail i last)
      (update l i new) where
  holds j := by
    by_cases hj : j = i
    · subst hj
      simpa only [update_self] using hnew
    · simp only [update_of_ne hj]
      exact (h.holds j).congr (hn j hj) (hp j hj)
  queued_iff b := by
    rw [hq b]
    constructor
    · rintro (hb | ⟨j, hj, hb⟩)
      · exact ⟨i, by rwa [update_self]⟩
      · exact ⟨j, by rwa [update_of_ne hj]⟩
    · rintro ⟨j, hb⟩
      by_cases hj : j = i
      · subst hj
        rw [update_self] at hb
        exact .inl hb
      · rw [update_of_ne hj] at hb
        exact .inr ⟨j, hj, hb⟩
  disjoint {j1 j2 b} h₁ h₂ := by
    by_cases hj1 : j1 = i <;> by_cases hj2 : j2 = i
    · rw [hj1, hj2]
    · subst hj1
      rw [update_self] at h₁
      rw [update_of_ne hj2] at h₂
      exact absurd h₁ (hd j2 hj2 b h₂)
    · subst hj2
      rw [update_self] at h₂
      rw [update_of_ne hj1] at h₁
      exact absurd h₂ (hd j1 hj1 b h₁)
    · rw [update_of_ne hj1] at h₁
      rw [update_of_ne hj2] at h₂
      exact h.disjoint h₁ h₂

variable [DecidableEq α]

/-- Put a node that is in no list between two segments of the list `i`. -/
theorem insert (h : Family next prev queued head tail l) {l1 l2 : List α} (hi : l i = l1 ++ l2)
    (ha : ¬ queued a) :
    Family (insNext next l1.getLast? l2.head? a) (insPrev prev l1.getLast? l2.head? a)
      (fun b => b = a ∨ queued b) (update head i (l1 ++ a :: l2).head?)
      (update tail i (l1 ++ a :: l2).getLast?)
      (update l i (l1 ++ a :: l2)) := by
  have hmem := h.not_mem ha
  have hold := h.holds i
  rw [hi] at hold
  have hout : ∀ j, j ≠ i → ∀ b ∈ l j, b ≠ a ∧ b ∉ l1 ++ l2 := by
    intro j hj b hb
    refine ⟨fun hba => hmem j (hba ▸ hb), fun hb' => hj (h.disjoint hb ?_)⟩
    rwa [hi]
  refine h.replace (hold.insert l1 l2 (hi ▸ hmem i)) (fun j hj b hb => ?_) (fun j hj b hb => ?_)
    (fun b => ?_) (fun j hj b hb hnew => ?_)
  · exact (insert_outside next prev l1 l2 (hout j hj b hb).1 (hout j hj b hb).2).1
  · exact (insert_outside next prev l1 l2 (hout j hj b hb).1 (hout j hj b hb).2).2
  · rw [h.queued_iff b]
    constructor
    · rintro (rfl | ⟨j, hb⟩)
      · simp
      · by_cases hj : j = i
        · subst hj
          rw [hi, List.mem_append] at hb
          rw [List.mem_append, List.mem_cons]
          tauto
        · exact .inr ⟨j, hj, hb⟩
    · rintro (hb | ⟨j, _, hb⟩)
      · rw [List.mem_append, List.mem_cons] at hb
        rcases hb with hb | rfl | hb
        · exact .inr ⟨i, by rw [hi]; simp [hb]⟩
        · exact .inl rfl
        · exact .inr ⟨i, by rw [hi]; simp [hb]⟩
      · exact .inr ⟨j, hb⟩
  · have := hout j hj b hb
    simp only [List.mem_append, List.mem_cons] at hnew this
    tauto

/-- Take a node out of the list `i`. -/
theorem delete (h : Family next prev queued head tail l) {l1 l2 : List α}
    (hi : l i = l1 ++ a :: l2) :
    Family (delNext next prev a) (delPrev next prev a) (fun b => b ≠ a ∧ queued b)
      (update head i (l1 ++ l2).head?) (update tail i (l1 ++ l2).getLast?)
      (update l i (l1 ++ l2)) := by
  have hold := h.holds i
  rw [hi] at hold
  have ha : a ∉ l1 ++ l2 := (List.nodup_cons.mp (List.nodup_middle.mp hold.nodup)).1
  have hout : ∀ j, j ≠ i → ∀ b ∈ l j, b ∉ l1 ++ a :: l2 := by
    intro j hj b hb hb'
    refine hj (h.disjoint hb ?_)
    rwa [hi]
  refine h.replace (hold.delete l1) (fun j hj b hb => ?_) (fun j hj b hb => ?_)
    (fun b => ?_) (fun j hj b hb hnew => ?_)
  · exact (hold.delete_outside l1 (hout j hj b hb)).1
  · exact (hold.delete_outside l1 (hout j hj b hb)).2
  · rw [h.queued_iff b]
    constructor
    · rintro ⟨hba, j, hb⟩
      by_cases hj : j = i
      · subst hj
        rw [hi, List.mem_append, List.mem_cons] at hb
        rw [List.mem_append]
        tauto
      · exact .inr ⟨j, hj, hb⟩
    · rintro (hb | ⟨j, hj, hb⟩)
      · refine ⟨fun hba => ha (hba ▸ hb), i, ?_⟩
        rw [hi, List.mem_append, List.mem_cons]
        rw [List.mem_append] at hb
        tauto
      · refine ⟨fun hba => hout j hj b hb ?_, j, hb⟩
        rw [hba]
        simp
  · have := hout j hj b hb
    simp only [List.mem_append, List.mem_cons] at hnew this
    tauto

end Family

end LinkedList
