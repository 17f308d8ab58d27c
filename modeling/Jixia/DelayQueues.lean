/-
Delay queues over any set of tasks.

`DelayQueue` is an intrusive list sorted by deadline, without a tail pointer.  Here its three
operations are stated for arbitrary tasks `τ` and queues `ι`, statement by statement as in
`time_manager.cpp`; the queues of the executive are an instance
(`Kernel.delayQueueInsert_heap`, `Kernel.delayQueueRemoveExpired_heap`).

* `DelayFamily` — the queues are disjoint lists; `DelayFamily.insert_eq` and
  `DelayFamily.removeExpired_cons` give the operations in closed form;
* `DelayOk` — they are sorted by deadline, with equal deadlines in the order of their arrival;
* `DelayOk.insert`, `DelayOk.removeExpired`, `DelayOk.drain` — one call, and calls until none
  is left;
* `delay_queue_stable` — any sequence of calls.
-/
import Jixia.Kernel
import Jixia.LinkedList
import Mathlib.Data.List.TakeWhile

namespace Jixia

open LinkedList Function

/-! ### The operations -/

/-- The fields of a task that a delay queue uses. -/
structure DelayTask (τ : Type) where
  previous : Option τ := none
  next : Option τ := none
  deadline : Word := 0
  queued : Bool := false
  runQueued : Bool := false
  state : TaskState := .zero

/-- Tasks, and the queues that share them. -/
structure DelayHeap (ι τ : Type) where
  tasks : τ → DelayTask τ
  head : ι → Option τ

namespace DelayHeap

variable {ι τ : Type}

def next (s : DelayHeap ι τ) (t : τ) : Option τ := (s.tasks t).next

def previous (s : DelayHeap ι τ) (t : τ) : Option τ := (s.tasks t).previous

def deadline (s : DelayHeap ι τ) (t : τ) : Word := (s.tasks t).deadline

/-- The task may not enter a delay queue. -/
def refuses (s : DelayHeap ι τ) (t : τ) : Bool :=
  (s.tasks t).queued || (s.tasks t).runQueued || (s.tasks t).state == .ended

/-- The search loop of `DelayQueue::insert`. -/
def seek (s : DelayHeap ι τ) (deadline : Word) :
    ℕ → Option τ → Option τ → Option (Option τ × Option τ)
  | 0, _, _ => none
  | _ + 1, previous, none => some (previous, none)
  | fuel + 1, previous, some cursor =>
    if s.deadline cursor ≤ deadline then s.seek deadline fuel (some cursor) (s.next cursor)
    else some (previous, some cursor)

/-- `DelayQueue::ticks_until_next`. -/
def ticksUntilNext (s : DelayHeap ι τ) (q : ι) (now maximum : Word) : Word :=
  match s.head q with
  | none => maximum
  | some head =>
    if s.deadline head ≤ now then 1
    else
      let remaining := s.deadline head - now
      if remaining < maximum then remaining else maximum

variable [DecidableEq τ]

def modifyTask (s : DelayHeap ι τ) (t : τ) (f : DelayTask τ → DelayTask τ) : DelayHeap ι τ :=
  { s with tasks := update s.tasks t (f (s.tasks t)) }

@[simp] theorem modifyTask_tasks (s : DelayHeap ι τ) (t : τ) (f : DelayTask τ → DelayTask τ) :
    (s.modifyTask t f).tasks = update s.tasks t (f (s.tasks t)) := rfl

variable [DecidableEq ι]

/-- `DelayQueue::insert`; `none` when the search loop has not ended after `fuel` rounds. -/
def insert (fuel : ℕ) (s : DelayHeap ι τ) (q : ι) (t : τ) (deadline : Word) :
    Option (Bool × DelayHeap ι τ) :=
  if s.refuses t then some (false, s)
  else
    (s.seek deadline fuel none (s.head q)).map fun place =>
      let s := s.modifyTask t fun task => { task with
        previous := place.1, next := place.2, deadline := deadline, queued := true }
      let s := match place.1 with
        | some before => s.modifyTask before fun task => { task with next := some t }
        | none => { s with head := update s.head q (some t) }
      let s := match place.2 with
        | some after => s.modifyTask after fun task => { task with previous := some t }
        | none => s
      (true, s)

/-- `DelayQueue::remove_expired`. -/
def removeExpired (s : DelayHeap ι τ) (q : ι) (now : Word) : Option τ × DelayHeap ι τ :=
  match s.head q with
  | none => (none, s)
  | some t =>
    if s.deadline t > now then (none, s)
    else
      let head := s.next t
      let s := { s with head := update s.head q head }
      let s := match head with
        | some first => s.modifyTask first fun task => { task with previous := none }
        | none => s
      (some t, s.modifyTask t fun task =>
        { task with previous := none, next := none, queued := false })

/-- Calls of `remove_expired` until one returns nothing; `none` when there were more than
`fuel` of them. -/
def drain : ℕ → DelayHeap ι τ → ι → Word → Option (List τ × DelayHeap ι τ)
  | 0, _, _, _ => none
  | fuel + 1, s, q, now =>
    match s.removeExpired q now with
    | (none, s) => some ([], s)
    | (some t, s) => (drain fuel s q now).map fun rest => (t :: rest.1, rest.2)

end DelayHeap

/-! ### Lists that change -/

section Lists

variable {ι τ : Type} {s : DelayHeap ι τ} {d : ι → List τ} {q : ι} {t u : τ} {due : Word}

/-- A task is put between two segments of one list: the order among the others stays. -/
theorem pairwise_insert [DecidableEq ι] {R R' : τ → τ → Prop} {l1 l2 : List τ}
    (hs : ∀ q, (d q).Pairwise R) (hsplit : l1 ++ l2 = d q)
    (hkeep : ∀ q', ∀ a ∈ d q', ∀ b ∈ d q', R a b → R' a b) (h1 : ∀ a ∈ l1, R' a t)
    (h2 : ∀ b ∈ l2, R' t b) (q' : ι) :
    (update d q (l1 ++ t :: l2) q').Pairwise R' := by
  have hold : (d q').Pairwise R' := (hs q').imp_of_mem fun {a b} ha hb => hkeep q' a ha b hb
  by_cases hq : q' = q
  · subst hq
    rw [← hsplit, List.pairwise_append] at hold
    rw [update_self, List.pairwise_append, List.pairwise_cons]
    refine ⟨hold.1, ⟨h2, hold.2.1⟩, fun a ha b hb => ?_⟩
    rcases List.mem_cons.mp hb with rfl | hb
    · exact h1 a ha
    · exact hold.2.2 a ha b hb
  · rwa [update_of_ne hq]

/-- The head of one list is taken off. -/
theorem pairwise_tail [DecidableEq ι] {R : τ → τ → Prop} {rest : List τ}
    (hs : ∀ q, (d q).Pairwise R) (hq : d q = t :: rest) (q' : ι) :
    (update d q rest q').Pairwise R := by
  by_cases hq' : q' = q
  · subst hq'
    rw [update_self]
    exact (List.pairwise_cons.mp (hq ▸ hs q')).2
  · rw [update_of_ne hq']
    exact hs q'

/-- Every deadline behind the insertion point is later. -/
theorem DelayHeap.lt_of_mem_dropWhile {l : List τ}
    (hs : l.Pairwise fun a b => s.deadline a ≤ s.deadline b)
    (hu : u ∈ l.dropWhile fun u => s.deadline u ≤ due) : due < s.deadline u := by
  replace hs := hs.sublist (List.dropWhile_sublist fun u => decide (s.deadline u ≤ due))
  have hhead := List.head?_dropWhile_not (fun u => decide (s.deadline u ≤ due)) l
  generalize l.dropWhile _ = l at hu hs hhead
  cases l with
  | nil => cases hu
  | cons c l =>
    have hc : due < s.deadline c := by simpa using hhead
    rcases List.mem_cons.mp hu with rfl | hu
    · exact hc
    · have hle := (List.pairwise_cons.mp hs).1 u hu
      bv_omega

/-- More rounds do not change where the search ends. -/
theorem DelayHeap.seek_mono {fuel fuel' : ℕ} {p c : Option τ} {place : Option τ × Option τ}
    (h : s.seek due fuel p c = some place) (hf : fuel ≤ fuel') :
    s.seek due fuel' p c = some place := by
  induction fuel generalizing p c fuel' with
  | zero => cases h
  | succ n ih =>
    obtain ⟨n', rfl⟩ : ∃ n', fuel' = n' + 1 := ⟨fuel' - 1, by omega⟩
    cases c with
    | none => exact h
    | some u =>
      rw [DelayHeap.seek] at h ⊢
      split at h
      · rename_i hle
        rw [if_pos hle]
        exact ih h (Nat.le_of_succ_le_succ hf)
      · rename_i hle
        rw [if_neg hle]
        exact h

/-- The search passes every deadline that is not later. -/
theorem DelayHeap.seek_eq {p : Option τ} {l : List τ} (h : Linked s.next s.previous p l none)
    {fuel : ℕ} (hf : l.length < fuel) (due : Word) :
    s.seek due fuel p l.head? =
      some ((l.takeWhile fun u => s.deadline u ≤ due).getLast?.or p,
        (l.dropWhile fun u => s.deadline u ≤ due).head?) := by
  induction l generalizing p fuel with
  | nil =>
    obtain ⟨n, rfl⟩ : ∃ n, fuel = n + 1 := ⟨fuel - 1, by simp at hf; omega⟩
    simp [DelayHeap.seek]
  | cons u l ih =>
    obtain ⟨n, rfl⟩ : ∃ n, fuel = n + 1 := ⟨fuel - 1, by omega⟩
    obtain ⟨_, hnext, hrest⟩ := h
    rw [Option.or_none] at hnext
    rw [List.head?_cons, DelayHeap.seek]
    by_cases hle : s.deadline u ≤ due
    · have hstep := @ih _ hrest n (by simpa using hf)
      rw [if_pos hle, hnext, hstep, List.takeWhile_cons_of_pos (by simpa using hle),
        List.dropWhile_cons_of_pos (by simpa using hle), List.getLast?_cons]
      cases (l.takeWhile fun u => s.deadline u ≤ due).getLast? with
      | none => rfl
      | some b => rfl
    · rw [if_neg hle, List.takeWhile_cons_of_neg (by simpa using hle),
        List.dropWhile_cons_of_neg (by simpa using hle)]
      rfl

end Lists

/-! ### Sorted lists -/

section Calls

variable {ι τ : Type} [DecidableEq τ] {s s' : DelayHeap ι τ} {d : ι → List τ} {q : ι} {t u : τ}
  {arrivals : List τ} {due now : Word}

/-- Every queue is the list `d q`; there is no tail pointer. -/
abbrev DelayFamily (s : DelayHeap ι τ) (d : ι → List τ) : Prop :=
  Family s.next s.previous (fun t => (s.tasks t).queued = true) s.head
    (fun q => (d q).getLast?) d

/-- `a` is released before `b`: its deadline is earlier, or it is the same and `a` came first.
The latest arrival is the head of `arrivals`. -/
def DelayHeap.Before (s : DelayHeap ι τ) (arrivals : List τ) (a b : τ) : Prop :=
  s.deadline a < s.deadline b ∨
    s.deadline a = s.deadline b ∧ arrivals.idxOf b < arrivals.idxOf a

theorem DelayHeap.Before.le {a b : τ} (h : s.Before arrivals a b) :
    s.deadline a ≤ s.deadline b := by
  rcases h with hlt | ⟨heq, -⟩
  · exact BitVec.le_of_lt hlt
  · rw [heq]
    exact BitVec.le_refl _

/-- Every queue is a list in the order of release; a task is marked as queued when it is in one
of the lists, and no task is in two of them. -/
structure DelayOk (s : DelayHeap ι τ) (d : ι → List τ) (arrivals : List τ) : Prop where
  family : DelayFamily s d
  sorted : ∀ q, (d q).Pairwise (s.Before arrivals)

namespace DelayOk

theorem queued_iff (h : DelayOk s d arrivals) (t : τ) :
    (s.tasks t).queued = true ↔ ∃! q, t ∈ d q := by
  rw [h.family.queued_iff]
  constructor
  · rintro ⟨q, hq⟩
    exact ⟨q, hq, fun q' hq' => h.family.disjoint hq' hq⟩
  · rintro ⟨q, hq, -⟩
    exact ⟨q, hq⟩

/-- Following the links from the head visits the list. -/
theorem walk_eq (h : DelayOk s d arrivals) (q : ι) {n : ℕ} (hn : (d q).length ≤ n) :
    LinkedList.walk s.next n (s.head q) = d q :=
  (h.family.holds q).walk_eq hn

theorem head_eq (h : DelayOk s d arrivals) (q : ι) : s.head q = (d q).head? :=
  (h.family.holds q).head_eq

/-- The head of a queue has the earliest deadline. -/
theorem head_le (h : DelayOk s d arrivals) {rest : List τ} (hq : d q = t :: rest) (hu : u ∈ d q) :
    s.deadline t ≤ s.deadline u := by
  have hsorted := h.sorted q
  rw [hq, List.pairwise_cons] at hsorted
  rw [hq, List.mem_cons] at hu
  rcases hu with rfl | hu
  · exact BitVec.le_refl _
  · exact (hsorted.1 u hu).le

/-- A queued task may change in all but its node, any other one in all but its mark. -/
theorem change (h : DelayOk s d arrivals) (htasks : ∀ u, u ≠ t → s'.tasks u = s.tasks u)
    (hmark : (s'.tasks t).queued = (s.tasks t).queued)
    (hnode : (s.tasks t).queued = true → s'.next t = s.next t ∧ s'.previous t = s.previous t ∧
      s'.deadline t = s.deadline t) (hhead : s'.head = s.head) : DelayOk s' d arrivals := by
  have hmem : ∀ q, ∀ u ∈ d q, s'.next u = s.next u ∧ s'.previous u = s.previous u ∧
      s'.deadline u = s.deadline u := by
    intro q u hu
    by_cases hut : u = t
    · subst hut
      exact hnode ((h.family.queued_iff u).mpr ⟨q, hu⟩)
    · rw [DelayHeap.next, DelayHeap.previous, DelayHeap.deadline, htasks u hut]
      exact ⟨rfl, rfl, rfl⟩
  refine ⟨h.family.congr (fun q u hu => (hmem q u hu).1) (fun q u hu => (hmem q u hu).2.1)
    (fun u => ?_) (fun q => by rw [hhead]) fun _ => rfl, fun q => ?_⟩
  · by_cases hut : u = t
    · rw [hut, hmark]
    · rw [htasks u hut]
  · refine (h.sorted q).imp_of_mem fun {a b} ha hb hab => ?_
    rw [DelayHeap.Before, (hmem q a ha).2.2, (hmem q b hb).2.2]
    exact hab

/-! ### The timer -/

/-- The answer of `ticks_until_next` is positive, and not past the next deadline. -/
theorem ticksUntilNext (h : DelayOk s d arrivals) {maximum : Word} (hmax : 1 ≤ maximum) (q : ι) :
    1 ≤ s.ticksUntilNext q now maximum ∧ s.ticksUntilNext q now maximum ≤ maximum ∧
      ∀ t ∈ d q, now < s.deadline t →
        s.ticksUntilNext q now maximum ≤ s.deadline t - now := by
  have hhead := h.head_eq q
  rw [DelayHeap.ticksUntilNext, hhead]
  cases hq : d q with
  | nil => exact ⟨hmax, BitVec.le_refl _, fun t ht => absurd ht List.not_mem_nil⟩
  | cons c rest =>
    have hle : ∀ t ∈ c :: rest, s.deadline c ≤ s.deadline t := fun t ht =>
      h.head_le hq (hq ▸ ht)
    simp only [List.head?_cons]
    by_cases hdue : s.deadline c ≤ now
    · rw [if_pos hdue]
      refine ⟨BitVec.le_refl _, hmax, fun t _ hlt => ?_⟩
      bv_omega
    · rw [if_neg hdue]
      split
      · refine ⟨by bv_omega, by bv_omega, fun t ht hlt => ?_⟩
        have hct := hle t ht
        bv_omega
      · refine ⟨hmax, BitVec.le_refl _, fun t ht hlt => ?_⟩
        have hct := hle t ht
        bv_omega

end DelayOk

/-! ### Insertion -/

variable [DecidableEq ι]

/-- The heap once `t` stands between the segments `l1` and `l2` of the queue `q`. -/
def DelayHeap.placed (s : DelayHeap ι τ) (q : ι) (t : τ) (due : Word) (l1 l2 : List τ) :
    DelayHeap ι τ where
  tasks u := { s.tasks u with
    next := insNext s.next l1.getLast? l2.head? t u
    previous := insPrev s.previous l1.getLast? l2.head? t u
    deadline := if u = t then due else s.deadline u
    queued := if u = t then true else (s.tasks u).queued }
  head := update s.head q (l1 ++ t :: l2).head?

omit [DecidableEq ι] in
/-- Writing the node of `t` and its two neighbours links it in. -/
theorem DelayHeap.link_tasks (due : Word) {before after : Option τ} (hb : before ≠ some t)
    (ha : after ≠ some t) (hne : ∀ u, before = some u → after ≠ some u) :
    (after.elim id fun c (tasks : τ → DelayTask τ) =>
        update tasks c { tasks c with previous := some t })
      (before.elim id (fun c (tasks : τ → DelayTask τ) =>
        update tasks c { tasks c with next := some t })
      (update s.tasks t { s.tasks t with
        previous := before, next := after, deadline := due, queued := true })) =
    fun u => { s.tasks u with
      next := insNext s.next before after t u
      previous := insPrev s.previous before after t u
      deadline := if u = t then due else s.deadline u
      queued := if u = t then true else (s.tasks u).queued } := by
  funext u
  by_cases hu : u = t
  · subst hu
    cases before <;> cases after <;> simp_all [insNext, insPrev, eq_comm]
  · by_cases hbu : before = some u
    · have hau := hne u hbu
      subst hbu
      cases after <;> simp_all [insNext, insPrev, eq_comm, DelayHeap.previous, DelayHeap.deadline]
    · by_cases hau : after = some u
      · subst hau
        cases before <;> simp_all [insNext, insPrev, eq_comm, DelayHeap.next, DelayHeap.deadline]
      · cases before <;> cases after <;>
          simp_all [insNext, insPrev, eq_comm, DelayHeap.next, DelayHeap.previous,
            DelayHeap.deadline]

theorem DelayHeap.insert_refused {fuel : ℕ} (ht : s.refuses t = true) :
    s.insert fuel q t due = some (false, s) := if_pos ht

theorem DelayHeap.insert_mono {fuel fuel' : ℕ} {result : Bool × DelayHeap ι τ}
    (h : s.insert fuel q t due = some result) (hf : fuel ≤ fuel') :
    s.insert fuel' q t due = some result := by
  rw [DelayHeap.insert] at h ⊢
  split at h
  · rename_i ht
    rw [if_pos ht]
    exact h
  · rename_i ht
    rw [if_neg ht]
    obtain ⟨place, hplace, hresult⟩ := Option.map_eq_some_iff.mp h
    rw [DelayHeap.seek_mono hplace hf, Option.map_some]
    exact congrArg some hresult

namespace DelayFamily

/-- `insert` in closed form. -/
theorem insert_eq (h : DelayFamily s d) (ht : s.refuses t = false) {fuel : ℕ}
    (hf : (d q).length < fuel) :
    s.insert fuel q t due = some (true, s.placed q t due
      ((d q).takeWhile fun u => s.deadline u ≤ due)
      ((d q).dropWhile fun u => s.deadline u ≤ due)) := by
  have hold := h.holds q
  have hnot : ¬ (s.tasks t).queued = true := by
    intro hq
    rw [DelayHeap.refuses, hq] at ht
    cases ht
  have hseek := DelayHeap.seek_eq hold.linked hf due
  rw [Option.or_none, ← hold.head_eq] at hseek
  rw [DelayHeap.insert, ht, if_neg Bool.false_ne_true, hseek, Option.map_some]
  have hsplit : ((d q).takeWhile fun u => decide (s.deadline u ≤ due)) ++
      (d q).dropWhile (fun u => decide (s.deadline u ≤ due)) = d q :=
    List.takeWhile_append_dropWhile
  generalize (d q).takeWhile _ = l1 at hsplit ⊢
  generalize (d q).dropWhile _ = l2 at hsplit ⊢
  have hmem : t ∉ l1 ++ l2 := hsplit ▸ h.not_mem hnot q
  have hdisj := (List.nodup_append.mp (hsplit ▸ hold.nodup)).2.2
  rw [List.mem_append, not_or] at hmem
  have htasks := DelayHeap.link_tasks (s := s) due
    (fun hb : l1.getLast? = some t => hmem.1 (List.mem_of_getLast? hb))
    (fun ha : l2.head? = some t => hmem.2 (List.mem_of_head? ha))
    fun u hb ha => hdisj u (List.mem_of_getLast? hb) u (List.mem_of_head? ha) rfl
  -- With a predecessor the head pointer stays what it is.
  have hhead : ∀ b, l1.getLast? = some b →
      update s.head q (l1 ++ t :: l2).head? = s.head := by
    intro b hb
    have heq : (l1 ++ t :: l2).head? = s.head q := by
      rw [hold.head_eq, ← hsplit]
      cases l1 with
      | nil => cases hb
      | cons c l => rfl
    rw [heq, update_eq_self]
  have hfirst : l1.getLast? = none → (l1 ++ t :: l2).head? = some t := by
    intro hb
    rw [List.getLast?_eq_none_iff.mp hb]
    rfl
  rw [DelayHeap.placed, ← htasks]
  cases hb : l1.getLast? with
  | none =>
    rw [hfirst hb]
    cases ha : l2.head? with
    | none => rfl
    | some c => rfl
  | some b =>
    rw [hhead b hb]
    cases ha : l2.head? with
    | none => rfl
    | some c => rfl

theorem placed (h : DelayFamily s d) (hnot : ¬ (s.tasks t).queued = true) {l1 l2 : List τ}
    (hsplit : l1 ++ l2 = d q) (due : Word) :
    DelayFamily (s.placed q t due l1 l2) (update d q (l1 ++ t :: l2)) := by
  refine (h.insert hsplit.symm hnot).congr (fun _ _ _ => rfl) (fun _ _ _ => rfl)
    (fun u => ?_) (fun _ => rfl) fun q' => ?_
  · by_cases hu : u = t <;> simp [DelayHeap.placed, hu]
  · by_cases hq : q' = q
    · subst hq
      simp
    · simp [hq]

end DelayFamily

/-- **`insert` keeps the order of release**: the task goes behind every deadline that is not
later. -/
theorem DelayOk.insert (h : DelayOk s d arrivals) (ht : s.refuses t = false) {fuel : ℕ}
    (hf : (d q).length < fuel) (due : Word) :
    ∃ s', s.insert fuel q t due = some (true, s') ∧ s'.deadline t = due ∧
      (∀ u, u ≠ t → s'.deadline u = s.deadline u) ∧
      DelayOk s' (update d q (((d q).takeWhile fun u => s.deadline u ≤ due) ++
        t :: (d q).dropWhile fun u => s.deadline u ≤ due)) (t :: arrivals) := by
  refine ⟨_, h.family.insert_eq ht hf, if_pos rfl, fun u hu => if_neg hu, ?_⟩
  have hnot : ¬ (s.tasks t).queued = true := fun hq => by simp [DelayHeap.refuses, hq] at ht
  have hmem := h.family.not_mem hnot
  have hlow : ∀ u ∈ (d q).takeWhile fun u => decide (s.deadline u ≤ due), s.deadline u ≤ due :=
    fun u hu => by simpa using List.mem_takeWhile_imp hu
  have hhigh := fun u (hu : u ∈ (d q).dropWhile fun u => decide (s.deadline u ≤ due)) =>
    DelayHeap.lt_of_mem_dropWhile ((h.sorted q).imp DelayHeap.Before.le) hu
  have hsplit : ((d q).takeWhile fun u => decide (s.deadline u ≤ due)) ++
      (d q).dropWhile (fun u => decide (s.deadline u ≤ due)) = d q :=
    List.takeWhile_append_dropWhile
  generalize (d q).takeWhile _ = l1 at *
  generalize (d q).dropWhile _ = l2 at *
  have hdt : (s.placed q t due l1 l2).deadline t = due := if_pos rfl
  have hdo : ∀ q' {a}, a ∈ d q' → a ≠ t ∧ (s.placed q t due l1 l2).deadline a = s.deadline a := by
    intro q' a ha
    have hat : a ≠ t := fun heq => hmem q' (heq ▸ ha)
    exact ⟨hat, if_neg hat⟩
  refine ⟨h.family.placed hnot hsplit due, pairwise_insert h.sorted hsplit
    (fun q' a ha b hb hab => ?_) (fun a ha => ?_) fun b hb => ?_⟩
  · obtain ⟨hat, hda⟩ := hdo q' ha
    obtain ⟨hbt, hdb⟩ := hdo q' hb
    rw [DelayHeap.Before, hda, hdb, List.idxOf_cons_ne _ hat.symm, List.idxOf_cons_ne _ hbt.symm]
    exact hab.imp_right fun hab => ⟨hab.1, Nat.succ_lt_succ hab.2⟩
  · obtain ⟨hat, hda⟩ := hdo q (hsplit ▸ List.mem_append_left _ ha)
    rw [DelayHeap.Before, hda, hdt, List.idxOf_cons_self, List.idxOf_cons_ne _ hat.symm]
    by_cases heq : s.deadline a = due
    · exact .inr ⟨heq, Nat.succ_pos _⟩
    · have hle := hlow a ha
      exact .inl (by bv_omega)
  · rw [DelayHeap.Before, hdt, (hdo q (hsplit ▸ List.mem_append_right _ hb)).2]
    exact .inl (hhigh b hb)

/-! ### Expiry -/

/-- The heap once the head `t` of the queue `q` is unlinked, and `rest` is left. -/
def DelayHeap.expired (s : DelayHeap ι τ) (q : ι) (t : τ) (rest : List τ) : DelayHeap ι τ where
  tasks u := { s.tasks u with
    next := delNext s.next s.previous t u
    previous := delPrev s.next s.previous t u
    queued := if u = t then false else (s.tasks u).queued }
  head := update s.head q rest.head?

namespace DelayFamily

variable {rest : List τ}

theorem removeExpired_nil (h : DelayFamily s d) (hq : d q = []) :
    s.removeExpired q now = (none, s) := by
  have hhead := (h.holds q).head_eq
  rw [hq, List.head?_nil] at hhead
  rw [DelayHeap.removeExpired, hhead]

/-- `removeExpired` in closed form. -/
theorem removeExpired_cons (h : DelayFamily s d) (hq : d q = t :: rest) :
    s.removeExpired q now =
      if s.deadline t > now then (none, s) else (some t, s.expired q t rest) := by
  have hold := h.holds q
  rw [hq] at hold
  obtain ⟨hnext, hprev⟩ := hold.neighbours []
  have hdelete := @delete_first _ s.next _ _ _ hprev
  rw [DelayHeap.removeExpired, hold.head_eq, List.head?_cons]
  dsimp only
  split
  · rfl
  · rw [hnext]
    cases rest with
    | nil =>
      have htasks : update s.tasks t
          { s.tasks t with previous := none, next := none, queued := false } =
          (s.expired q t []).tasks := by
        funext u
        simp only [DelayHeap.expired, hdelete, hnext]
        by_cases hut : u = t
        · simp [hut]
        · simp [hut, DelayHeap.next, DelayHeap.previous]
      simp only [List.head?_nil, DelayHeap.modifyTask, htasks]
      rfl
    | cons b l =>
      have hbt : b ≠ t := fun hb => (List.nodup_cons.mp hold.nodup).1 (hb ▸ List.mem_cons_self)
      have htasks : update (update s.tasks b { s.tasks b with previous := none }) t
          { s.tasks t with previous := none, next := none, queued := false } =
          (s.expired q t (b :: l)).tasks := by
        funext u
        simp only [DelayHeap.expired, hdelete, hnext]
        by_cases hut : u = t
        · simp [hut]
        · by_cases hub : u = b
          · simp [hub, hbt, DelayHeap.next]
          · simp [hut, hub, Ne.symm hub, DelayHeap.next, DelayHeap.previous]
      simp only [List.head?_cons, DelayHeap.modifyTask, update_of_ne hbt.symm, htasks]
      rfl

theorem expired (h : DelayFamily s d) (hq : d q = t :: rest) :
    DelayFamily (s.expired q t rest) (update d q rest) := by
  refine (h.delete (show d q = [] ++ t :: rest from hq)).congr (fun _ _ _ => rfl)
    (fun _ _ _ => rfl) (fun u => ?_) (fun _ => rfl) fun q' => ?_
  · by_cases hu : u = t <;> simp [DelayHeap.expired, hu]
  · by_cases hq' : q' = q
    · subst hq'
      simp
    · simp [hq']

end DelayFamily

namespace DelayOk

variable {rest : List τ}

theorem expired (h : DelayOk s d arrivals) (hq : d q = t :: rest) :
    DelayOk (s.expired q t rest) (update d q rest) arrivals :=
  ⟨h.family.expired hq, pairwise_tail h.sorted hq⟩

/-- `removeExpired` finds nothing exactly when every deadline is still to come. -/
theorem removeExpired_eq_none_iff (h : DelayOk s d arrivals) (q : ι) (now : Word) :
    (s.removeExpired q now).1 = none ↔ ∀ t ∈ d q, now < s.deadline t := by
  cases hq : d q with
  | nil =>
    rw [h.family.removeExpired_nil hq]
    exact iff_of_true rfl fun t ht => absurd ht List.not_mem_nil
  | cons t rest =>
    rw [h.family.removeExpired_cons hq]
    by_cases hlt : s.deadline t > now
    · rw [if_pos hlt]
      refine iff_of_true rfl fun u hu => ?_
      have hle := h.head_le hq (hq ▸ hu)
      bv_omega
    · rw [if_neg hlt]
      exact iff_of_false (Option.some_ne_none t) fun hall => hlt (hall t List.mem_cons_self)

/-- **Calls until none is left** take exactly the tasks that are due, in their order. -/
theorem drain (h : DelayOk s d arrivals) {fuel : ℕ} (hf : (d q).length < fuel) (now : Word) :
    ∃ s', s.drain fuel q now = some ((d q).filter fun t => s.deadline t ≤ now, s') ∧
      (∀ u, s'.deadline u = s.deadline u) ∧
      DelayOk s' (update d q ((d q).filter fun t => now < s.deadline t)) arrivals := by
  obtain ⟨fuel, rfl⟩ : ∃ n, fuel = n + 1 := ⟨fuel - 1, by omega⟩
  induction hl : d q generalizing s d fuel with
  | nil =>
    rw [DelayHeap.drain, h.family.removeExpired_nil hl]
    refine ⟨s, rfl, fun _ => rfl, ?_⟩
    rw [List.filter_nil, ← hl, update_eq_self]
    exact h
  | cons t rest ih =>
    rw [DelayHeap.drain, h.family.removeExpired_cons hl]
    by_cases hlt : s.deadline t > now
    · -- The head is not due, and nothing behind it is.
      have hall : ∀ u ∈ t :: rest, now < s.deadline u := by
        intro u hu
        have hle := h.head_le hl (hl ▸ hu)
        bv_omega
      have hnone : ((t :: rest).filter fun u => decide (s.deadline u ≤ now)) = [] := by
        refine List.filter_eq_nil_iff.mpr fun u hu => ?_
        have hnow := hall u hu
        simp only [decide_eq_true_eq]
        bv_omega
      have hkeep : ((t :: rest).filter fun u => decide (now < s.deadline u)) = t :: rest :=
        List.filter_eq_self.mpr fun u hu => decide_eq_true (hall u hu)
      rw [if_pos hlt, hnone, hkeep, ← hl, update_eq_self]
      exact ⟨s, rfl, fun _ => rfl, h⟩
    · have hle : s.deadline t ≤ now := by bv_omega
      have hok := h.expired hl
      have hrest : update d q rest q = rest := update_self ..
      obtain ⟨n, rfl⟩ : ∃ n, fuel = n + 1 := by
        rw [hl, List.length_cons] at hf
        exact ⟨fuel - 1, by omega⟩
      obtain ⟨s', hs', hdeadline, hok'⟩ := ih hok n (by
        rw [hrest]
        rw [hl, List.length_cons] at hf
        omega) hrest
      have hsame : ∀ u, (s.expired q t rest).deadline u = s.deadline u := fun _ => rfl
      simp only [hsame] at hs' hdeadline hok'
      rw [update_idem] at hok'
      have htaken : ((t :: rest).filter fun u => decide (s.deadline u ≤ now)) =
          t :: rest.filter fun u => decide (s.deadline u ≤ now) :=
        List.filter_cons_of_pos (by simpa using hle)
      have hleft : ((t :: rest).filter fun u => decide (now < s.deadline u)) =
          rest.filter fun u => decide (now < s.deadline u) :=
        List.filter_cons_of_neg (by simpa using hle)
      rw [if_neg hlt]
      dsimp only
      rw [hs', Option.map_some, htaken, hleft]
      exact ⟨s', rfl, hdeadline, hok'⟩

end DelayOk

/-! ### Sequences of calls -/

/-- Any sequence of calls on queues that start empty, with the accepted insertions, the latest
first.  Between two calls a task may change in all but the node of a queued one. -/
inductive DelayRun : List τ → DelayHeap ι τ → Prop
  | start {s : DelayHeap ι τ} : (∀ q, s.head q = none) → (∀ t, (s.tasks t).queued = false) →
      DelayRun [] s
  | insert {arrivals : List τ} {s s' : DelayHeap ι τ} {fuel : ℕ} {q : ι} {t : τ} {due : Word}
      {accepted : Bool} : DelayRun arrivals s →
      s.insert fuel q t due = some (accepted, s') →
      DelayRun (if accepted then t :: arrivals else arrivals) s'
  | removeExpired {arrivals : List τ} {s : DelayHeap ι τ} (q : ι) (now : Word) :
      DelayRun arrivals s → DelayRun arrivals (s.removeExpired q now).2
  | change {arrivals : List τ} {s : DelayHeap ι τ} {t : τ} {task : DelayTask τ} :
      DelayRun arrivals s → task.queued = (s.tasks t).queued →
      (task.queued = true → task = { s.tasks t with
        runQueued := task.runQueued, state := task.state }) →
      DelayRun arrivals (s.modifyTask t fun _ => task)

/-- **The queues stay sorted**, over any sequence of calls. -/
theorem DelayRun.ok (h : DelayRun arrivals s) : ∃ d, DelayOk s d arrivals := by
  induction h with
  | @start s hhead hqueued =>
    refine ⟨fun _ => [], ⟨fun q => ⟨trivial, hhead q, rfl, List.nodup_nil⟩, fun t => ?_,
      fun hmem => absurd hmem List.not_mem_nil⟩, fun _ => .nil⟩
    rw [hqueued t]
    exact iff_of_false Bool.false_ne_true fun hmem => List.not_mem_nil hmem.choose_spec
  | @insert arrivals s s' fuel q t due accepted _ hins ih =>
    obtain ⟨d, hok⟩ := ih
    cases ht : s.refuses t with
    | true =>
      rw [DelayHeap.insert_refused ht] at hins
      cases hins
      exact ⟨d, hok⟩
    | false =>
      have hlong : (d q).length < fuel + ((d q).length + 1) := by omega
      obtain ⟨s1, hs1, -, -, hok'⟩ := hok.insert ht hlong due
      rw [DelayHeap.insert_mono hins (Nat.le_add_right ..)] at hs1
      cases hs1
      exact ⟨_, hok'⟩
  | @removeExpired arrivals s q now _ ih =>
    obtain ⟨d, hok⟩ := ih
    cases hq : d q with
    | nil =>
      rw [hok.family.removeExpired_nil hq]
      exact ⟨d, hok⟩
    | cons t rest =>
      rw [hok.family.removeExpired_cons hq]
      split
      · exact ⟨d, hok⟩
      · exact ⟨_, hok.expired hq⟩
  | @change arrivals s t task _ hmark hnode ih =>
    obtain ⟨d, hok⟩ := ih
    have hself : (s.modifyTask t fun _ => task).tasks t = task := update_self ..
    refine ⟨d, hok.change (t := t) (fun u hu => update_of_ne hu ..) ?_ ?_ rfl⟩
    · rw [hself]
      exact hmark
    · intro hq
      rw [DelayHeap.next, DelayHeap.previous, DelayHeap.deadline, hself, hnode (hmark.trans hq)]
      exact ⟨rfl, rfl, rfl⟩

end Calls

/-- **A delay queue is a stable sorted list.**  Over any sequence of calls with any deadlines and
clock values: the lists, what `insert` refuses, what `remove_expired` takes, and how long
`ticks_until_next` waits. -/
theorem delay_queue_stable (ι τ : Type) [DecidableEq ι] [DecidableEq τ] (arrivals : List τ)
    (s : DelayHeap ι τ) (hrun : DelayRun arrivals s) :
    ∃ d : ι → List τ, DelayOk s d arrivals ∧
      (∀ t, (s.tasks t).queued = true ↔ ∃! q, t ∈ d q) ∧
      (∀ q, (d q).Nodup ∧ ∀ n, (d q).length ≤ n → LinkedList.walk s.next n (s.head q) = d q) ∧
      (∀ q, ∀ a ∈ d q, ∀ b ∈ d q, s.next a = some b ↔ s.previous b = some a) ∧
      (∀ q t due fuel, s.refuses t = true → s.insert fuel q t due = some (false, s)) ∧
      (∀ q t due fuel, s.refuses t = false → (d q).length < fuel →
        ∃ s', s.insert fuel q t due = some (true, s') ∧ s'.deadline t = due ∧
          (∀ u, u ≠ t → s'.deadline u = s.deadline u) ∧
          DelayOk s' (update d q (((d q).takeWhile fun u => s.deadline u ≤ due) ++
            t :: (d q).dropWhile fun u => s.deadline u ≤ due)) (t :: arrivals)) ∧
      (∀ q now, (s.removeExpired q now).1 = none ↔ ∀ t ∈ d q, now < s.deadline t) ∧
      (∀ q now fuel, (d q).length < fuel →
        ∃ s', s.drain fuel q now = some ((d q).filter fun t => s.deadline t ≤ now, s') ∧
          (∀ u, s'.deadline u = s.deadline u) ∧
          DelayOk s' (update d q ((d q).filter fun t => now < s.deadline t)) arrivals) ∧
      ∀ q now maximum, 1 ≤ maximum → 1 ≤ s.ticksUntilNext q now maximum ∧
        s.ticksUntilNext q now maximum ≤ maximum ∧ ∀ t ∈ d q, now < s.deadline t →
          s.ticksUntilNext q now maximum ≤ s.deadline t - now := by
  obtain ⟨d, hok⟩ := hrun.ok
  refine ⟨d, hok, hok.queued_iff, fun q => ⟨(hok.family.holds q).nodup, fun n => hok.walk_eq q⟩,
    fun q a ha b hb => (hok.family.holds q).next_eq_iff ha hb,
    fun q t due fuel => DelayHeap.insert_refused, fun q t due fuel ht hf => hok.insert ht hf due,
    hok.removeExpired_eq_none_iff, fun q now fuel hf => hok.drain hf now,
    fun q now maximum hmax => hok.ticksUntilNext hmax q⟩

/-- One empty queue and two tasks. -/
def sampleDelays : DelayHeap Unit Bool where
  tasks _ := {}
  head _ := none

/-- The queue after both tasks went to sleep until the same time. -/
def sampleSleepers : DelayHeap Unit Bool :=
  let first := (sampleDelays.insert 1 () true 5).getD (false, sampleDelays)
  ((first.2.insert 2 () false 5).getD first).2

/-- Two tasks with the same deadline are released in the order in which they came. -/
theorem delay_queue_stable_sample :
    DelayRun [false, true] sampleSleepers ∧
    ∃ d, DelayOk sampleSleepers d [false, true] ∧ d () = [true, false] := by
  have hstart : DelayRun [] sampleDelays := .start (fun _ => rfl) fun _ => rfl
  have hfirst := hstart.insert (rfl : sampleDelays.insert 1 () true 5 = some (true, _))
  have hrun := hfirst.insert (rfl : DelayHeap.insert 2 _ () false 5 = some (true, _))
  obtain ⟨d, hok, -, hwalk, -⟩ := delay_queue_stable Unit Bool _ _ hrun
  have hlist := (hwalk ()).2 2 ((hwalk ()).1.length_le_card)
  exact ⟨hrun, d, hok, hlist.symm⟩

end Jixia
