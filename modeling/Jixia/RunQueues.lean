/-
Run queues over any set of tasks.

`RunQueue` is an intrusive list: the links live in the tasks, and several queues share one
set of tasks.  Here the two operations are stated for arbitrary tasks `τ` and queues `ι`,
statement by statement as in `scheduler.cpp`; the queues of the executive are an instance
(`Kernel.runQueueInsert_heap`, `Kernel.runQueueRemove_heap`).

* `QueueLists` — the queues are disjoint lists;
* `QueueLists.insert_eq`, `QueueLists.remove_cons` — the two operations in closed form;
* `QueueOk`, `QueueOk.insert`, `QueueOk.remove` — one call on lists of ready tasks;
* `QueueRun.fifo` — any sequence of calls: what was inserted into a queue is what was removed
  from it, in the same order, followed by what is in it.
-/
import Jixia.Kernel
import Jixia.LinkedList

namespace Jixia

open LinkedList Function

/-! ### The operations -/

/-- The fields of a task that a run queue uses. -/
structure QueueTask (τ : Type) where
  previous : Option τ := none
  next : Option τ := none
  queued : Bool := false
  delayQueued : Bool := false
  messageQueued : Bool := false
  state : TaskState := .zero

/-- Tasks, and the queues that share them. -/
structure QueueHeap (ι τ : Type) where
  tasks : τ → QueueTask τ
  head : ι → Option τ
  tail : ι → Option τ
  size : ι → ℕ

namespace QueueHeap

variable {ι τ : Type} [DecidableEq τ]

def modifyTask (s : QueueHeap ι τ) (t : τ) (f : QueueTask τ → QueueTask τ) : QueueHeap ι τ :=
  { s with tasks := update s.tasks t (f (s.tasks t)) }

@[simp] theorem modifyTask_tasks (s : QueueHeap ι τ) (t : τ) (f : QueueTask τ → QueueTask τ) :
    (s.modifyTask t f).tasks = update s.tasks t (f (s.tasks t)) := rfl

variable [DecidableEq ι]

/-- The task may not enter a run queue. -/
def refuses (s : QueueHeap ι τ) (t : τ) : Bool :=
  (s.tasks t).queued || (s.tasks t).delayQueued || (s.tasks t).messageQueued ||
    (s.tasks t).state == .ended

/-- `RunQueue::insert`. -/
def insert (s : QueueHeap ι τ) (q : ι) (t : τ) : Bool × QueueHeap ι τ :=
  if s.refuses t then (false, s)
  else
    let tail := s.tail q
    let s := s.modifyTask t fun task => { task with previous := tail, next := none }
    let s := match tail with
      | some last => s.modifyTask last fun task => { task with next := some t }
      | none => { s with head := update s.head q (some t) }
    let s := { s with tail := update s.tail q (some t) }
    let s := s.modifyTask t fun task => { task with state := .ready, queued := true }
    (true, { s with size := update s.size q (s.size q + 1) })

/-- `RunQueue::remove`; a task that is not ready parks the hart. -/
def remove (s : QueueHeap ι τ) (q : ι) : EStateM.Result Halt (QueueHeap ι τ) (Option τ) :=
  match s.head q with
  | none => .ok none s
  | some selected =>
    let first := (s.tasks selected).next
    let s := { s with head := update s.head q first }
    let s := match first with
      | some first => s.modifyTask first fun task => { task with previous := none }
      | none => { s with tail := update s.tail q none }
    let s := s.modifyTask selected fun task =>
      { task with previous := none, next := none, queued := false }
    let s := { s with size := update s.size q (s.size q - 1) }
    let task := s.tasks selected
    if task.state != .ready || task.delayQueued || task.messageQueued then
      .error (.park .runQueueRemove) s
    else .ok (some selected) s

end QueueHeap

/-! ### One call -/

section Calls

variable {ι τ : Type} {s s' : QueueHeap ι τ} {r : ι → List τ} {q : ι} {t : τ}

def QueueHeap.next (s : QueueHeap ι τ) (t : τ) : Option τ := (s.tasks t).next

def QueueHeap.previous (s : QueueHeap ι τ) (t : τ) : Option τ := (s.tasks t).previous

/-- Every queue is the list `r q`, and the size is its length. -/
structure QueueLists (s : QueueHeap ι τ) (r : ι → List τ) : Prop where
  family : Family s.next s.previous (fun t => (s.tasks t).queued = true) s.head s.tail r
  size : ∀ q, s.size q = (r q).length

/-- The queues are lists of ready tasks that wait nowhere else. -/
structure QueueOk (s : QueueHeap ι τ) (r : ι → List τ) : Prop extends QueueLists s r where
  ready : ∀ q, ∀ t ∈ r q, (s.tasks t).state = .ready ∧ (s.tasks t).delayQueued = false ∧
    (s.tasks t).messageQueued = false

theorem QueueOk.queued_iff (h : QueueOk s r) (t : τ) :
    (s.tasks t).queued = true ↔ ∃! q, t ∈ r q := by
  rw [h.family.queued_iff]
  constructor
  · rintro ⟨q, hq⟩
    exact ⟨q, hq, fun q' hq' => h.family.disjoint hq' hq⟩
  · rintro ⟨q, hq, -⟩
    exact ⟨q, hq⟩

/-- A task in no queue may change in all but its links. -/
theorem QueueOk.change (h : QueueOk s r) (ht : (s.tasks t).queued = false)
    (htasks : ∀ u, u ≠ t → s'.tasks u = s.tasks u) (hq : (s'.tasks t).queued = false)
    (hhead : s'.head = s.head) (htail : s'.tail = s.tail) (hsize : s'.size = s.size) :
    QueueOk s' r := by
  have hnot : ∀ q, ∀ u ∈ r q, s'.tasks u = s.tasks u := by
    intro q u hu
    refine htasks u fun hut => ?_
    have hmark := (h.family.queued_iff t).mpr ⟨q, hut ▸ hu⟩
    cases ht.symm.trans hmark
  refine ⟨⟨h.family.congr (fun q u hu => ?_) (fun q u hu => ?_) (fun u => ?_) (fun q => ?_)
    fun q => ?_, fun q => ?_⟩, fun q u hu => ?_⟩
  · rw [QueueHeap.next, hnot q u hu, QueueHeap.next]
  · rw [QueueHeap.previous, hnot q u hu, QueueHeap.previous]
  · by_cases hut : u = t
    · rw [hut, hq, ht]
    · rw [htasks u hut]
  · rw [hhead]
  · rw [htail]
  · rw [hsize, h.size]
  · rw [hnot q u hu]
    exact h.ready q u hu

variable [DecidableEq ι] [DecidableEq τ]

theorem QueueHeap.insert_refused (h : s.refuses t = true) : s.insert q t = (false, s) :=
  if_pos h

/-- The heap once `t` is put behind the list `l` of the queue `q`. -/
def QueueHeap.linked (s : QueueHeap ι τ) (q : ι) (t : τ) (l : List τ) : QueueHeap ι τ where
  tasks u := { s.tasks u with
    next := insNext s.next l.getLast? none t u
    previous := insPrev s.previous l.getLast? none t u
    queued := if u = t then true else (s.tasks u).queued
    state := if u = t then .ready else (s.tasks u).state }
  head := update s.head q (l ++ [t]).head?
  tail := update s.tail q (some t)
  size := update s.size q (l.length + 1)

/-- `insert` in closed form. -/
theorem QueueLists.insert_eq (h : QueueLists s r) (ht : s.refuses t = false) :
    s.insert q t = (true, s.linked q t (r q)) := by
  have hold := h.family.holds q
  have hnot : ¬ (s.tasks t).queued = true := fun hq => by simp [QueueHeap.refuses, hq] at ht
  rw [QueueHeap.insert, ht, if_neg Bool.false_ne_true, QueueHeap.linked, hold.tail_eq]
  cases hlast : (r q).getLast? with
  | none =>
    have hnil : r q = [] := List.getLast?_eq_none_iff.mp hlast
    refine Prod.ext rfl ?_
    simp only [QueueHeap.modifyTask, h.size, hnil]
    congr 1
    funext u
    by_cases hu : u = t
    · subst hu
      simp [insNext, insPrev]
    · simp [insNext, insPrev, hu, QueueHeap.next, QueueHeap.previous]
  | some last =>
    have hne : last ≠ t := fun heq =>
      h.family.not_mem hnot q (heq ▸ List.mem_of_getLast? hlast)
    have hhead : s.head q = (r q ++ [t]).head? := by
      rw [hold.head_eq]
      cases hl : r q with
      | nil => rw [hl] at hlast; cases hlast
      | cons c l => rfl
    refine Prod.ext rfl ?_
    simp only [QueueHeap.modifyTask, h.size, ← hhead, update_eq_self]
    congr 1
    funext u
    by_cases hu : u = t
    · subst hu
      simp [insNext, insPrev, hne.symm]
    · by_cases hul : u = last
      · subst hul
        simp [insNext, insPrev, hu, QueueHeap.previous]
      · simp [insNext, insPrev, hu, hul, Ne.symm hul, QueueHeap.next, QueueHeap.previous]

/-- The queues once `t` is linked in. -/
theorem QueueLists.linked (h : QueueLists s r) (ht : (s.tasks t).queued = false) :
    QueueLists (s.linked q t (r q)) (update r q (r q ++ [t])) where
  family := by
    have hnot : ¬ (s.tasks t).queued = true := by simp [ht]
    refine (h.family.insert (List.append_nil (r q)).symm hnot).congr (fun _ _ _ => rfl)
      (fun _ _ _ => rfl) (fun u => ?_) (fun _ => rfl) fun q' => ?_
    · by_cases hu : u = t <;> simp [QueueHeap.linked, hu]
    · by_cases hq : q' = q <;> simp [QueueHeap.linked, hq]
  size q' := by
    by_cases hq : q' = q
    · subst hq
      simp [QueueHeap.linked]
    · simp [QueueHeap.linked, hq, h.size]

/-- The heap once the first task is unlinked. -/
def QueueHeap.unlinked (s : QueueHeap ι τ) (q : ι) (t : τ) (rest : List τ) : QueueHeap ι τ where
  tasks u := { s.tasks u with
    next := delNext s.next s.previous t u
    previous := delPrev s.next s.previous t u
    queued := if u = t then false else (s.tasks u).queued }
  head := update s.head q rest.head?
  tail := update s.tail q rest.getLast?
  size := update s.size q rest.length

theorem QueueLists.remove_nil (h : QueueLists s r) (hq : r q = []) : s.remove q = .ok none s := by
  have hhead := (h.family.holds q).head_eq
  rw [hq, List.head?_nil] at hhead
  rw [QueueHeap.remove, hhead]

/-- `remove` in closed form: it takes the head, which has to be ready. -/
theorem QueueLists.remove_cons (h : QueueLists s r) {rest : List τ} (hq : r q = t :: rest) :
    s.remove q =
      if (s.tasks t).state != .ready || (s.tasks t).delayQueued || (s.tasks t).messageQueued then
        .error (.park .runQueueRemove) (s.unlinked q t rest)
      else .ok (some t) (s.unlinked q t rest) := by
  have hold := h.family.holds q
  rw [hq] at hold
  obtain ⟨hnext, hprev⟩ := hold.neighbours []
  have hcount : s.size q - 1 = rest.length := by
    rw [h.size, hq, List.length_cons, Nat.add_sub_cancel]
  have hdelete := @delete_first _ s.next _ _ _ hprev
  rw [QueueHeap.remove, hold.head_eq, List.head?_cons]
  simp only [show (s.tasks t).next = rest.head? from hnext]
  cases rest with
  | nil =>
    have htasks : update s.tasks t
        { s.tasks t with previous := none, next := none, queued := false } =
        (s.unlinked q t []).tasks := by
      funext u
      simp only [QueueHeap.unlinked, hdelete, hnext]
      by_cases hut : u = t
      · simp [hut]
      · simp [hut, QueueHeap.next, QueueHeap.previous]
    simp only [List.head?_nil, QueueHeap.modifyTask, htasks, hcount]
    simp [QueueHeap.unlinked]
  | cons b l =>
    have hbt : b ≠ t := fun hb => (List.nodup_cons.mp hold.nodup).1 (hb ▸ List.mem_cons_self)
    have htasks : update (update s.tasks b { s.tasks b with previous := none }) t
        { s.tasks t with previous := none, next := none, queued := false } =
        (s.unlinked q t (b :: l)).tasks := by
      funext u
      simp only [QueueHeap.unlinked, hdelete, hnext]
      by_cases hut : u = t
      · simp [hut]
      · by_cases hub : u = b
        · simp [hub, hbt, QueueHeap.next]
        · simp [hut, hub, Ne.symm hub, QueueHeap.next, QueueHeap.previous]
    have htail : s.tail q = (b :: l).getLast? := hold.tail_eq
    simp only [List.head?_cons, QueueHeap.modifyTask, update_of_ne hbt.symm, htasks, hcount]
    simp [QueueHeap.unlinked, ← htail]

theorem QueueLists.unlinked (h : QueueLists s r) {rest : List τ} (hq : r q = t :: rest) :
    QueueLists (s.unlinked q t rest) (update r q rest) where
  family := by
    refine (h.family.delete (show r q = [] ++ t :: rest from hq)).congr (fun _ _ _ => rfl)
      (fun _ _ _ => rfl) (fun u => ?_) (fun _ => rfl) fun _ => rfl
    by_cases hut : u = t <;> simp [QueueHeap.unlinked, hut]
  size q' := by
    by_cases hq' : q' = q
    · subst hq'
      simp [QueueHeap.unlinked]
    · simp [QueueHeap.unlinked, hq', h.size]

/-- **`insert` appends** a task that may enter. -/
theorem QueueOk.insert (h : QueueOk s r) (ht : s.refuses t = false) :
    (s.insert q t).1 = true ∧
      QueueOk (s.insert q t).2 (update r q (r q ++ [t])) := by
  have hmarks := ht
  simp only [QueueHeap.refuses, Bool.or_eq_false_iff] at hmarks
  rw [h.insert_eq ht]
  refine ⟨rfl, h.linked hmarks.1.1.1, fun q' u hu => ?_⟩
  by_cases hut : u = t
  · subst hut
    exact ⟨if_pos rfl, hmarks.1.1.2, hmarks.1.2⟩
  · have hold : u ∈ r q' := by
      by_cases hq' : q' = q
      · subst hq'
        rw [update_self, List.mem_append, List.mem_singleton] at hu
        exact hu.resolve_right hut
      · rwa [update_of_ne hq'] at hu
    obtain ⟨hready, hdelay, hmessage⟩ := h.ready q' u hold
    exact ⟨(if_neg hut).trans hready, hdelay, hmessage⟩

/-- **`remove` takes the first task**, and never parks. -/
theorem QueueOk.remove (h : QueueOk s r) (q : ι) : ∃ s', s.remove q = .ok (r q).head? s' ∧
    QueueOk s' (update r q (r q).tail) ∧ (r q = [] → s' = s) := by
  cases hq : r q with
  | nil =>
    refine ⟨s, h.remove_nil hq, ?_, fun _ => rfl⟩
    rw [List.tail_nil, ← hq, update_eq_self]
    exact h
  | cons t rest =>
    obtain ⟨hready, hdelay, hmessage⟩ := h.ready q t (hq ▸ List.mem_cons_self)
    refine ⟨s.unlinked q t rest, ?_, ⟨h.unlinked hq, fun q' u hu => ?_⟩, fun hnil => by cases hnil⟩
    · rw [h.remove_cons hq, if_neg (by simp [hready, hdelay, hmessage])]
      rfl
    · refine h.ready q' u ?_
      by_cases hq' : q' = q
      · subst hq'
        rw [List.tail_cons, update_self] at hu
        rw [hq]
        exact List.mem_cons_of_mem _ hu
      · rwa [update_of_ne hq'] at hu

end Calls

/-! ### Sequences of calls -/

/-- A call on a run queue, with its result. -/
inductive QueueEvent (ι τ : Type)
  | inserted (q : ι) (t : τ) (accepted : Bool)
  | removed (q : ι) (selected : Option τ)

section Sequences

variable {ι τ : Type} [DecidableEq ι] {es : List (QueueEvent ι τ)} {q q' : ι} {t : τ}

/-- The task that entered the queue `q` in a call. -/
def QueueEvent.entry (q : ι) : QueueEvent ι τ → Option τ
  | .inserted q' t accepted => if q' = q ∧ accepted = true then some t else none
  | .removed _ _ => none

/-- The task that left the queue `q` in a call. -/
def QueueEvent.exit (q : ι) : QueueEvent ι τ → Option τ
  | .inserted _ _ _ => none
  | .removed q' selected => if q' = q then selected else none

/-- The tasks that entered a queue, the first one first. -/
def entries (es : List (QueueEvent ι τ)) (q : ι) : List τ := es.filterMap (QueueEvent.entry q)

/-- The tasks that left a queue, the first one first. -/
def exits (es : List (QueueEvent ι τ)) (q : ι) : List τ := es.filterMap (QueueEvent.exit q)

/-- What was in the queues at first and what entered them since is what left them, followed by
what is in them. -/
def InOrder (first : ι → List τ) (es : List (QueueEvent ι τ)) (r : ι → List τ) : Prop :=
  ∀ q, first q ++ entries es q = exits es q ++ r q

namespace InOrder

variable {first r : ι → List τ}

theorem nil (first : ι → List τ) : InOrder first [] first := fun q => List.append_nil (first q)

/-- A call that lets `added` in and takes `taken` out. -/
theorem call (h : InOrder first es r) {e : QueueEvent ι τ} (added taken : List τ)
    (hin : [e].filterMap (QueueEvent.entry q) = added)
    (hout : [e].filterMap (QueueEvent.exit q) = taken) {rest : List τ}
    (hlist : r q ++ added = taken ++ rest) :
    first q ++ entries (es ++ [e]) q = exits (es ++ [e]) q ++ rest := by
  rw [entries, exits, List.filterMap_append, List.filterMap_append, hin, hout, List.append_assoc,
    ← hlist, ← List.append_assoc, ← List.append_assoc]
  exact congrArg (· ++ added) (h q)

theorem accepted (h : InOrder first es r) (q : ι) (t : τ) :
    InOrder first (es ++ [.inserted q t true]) (update r q (r q ++ [t])) := by
  intro q'
  by_cases hq : q' = q
  · subst hq
    refine h.call [t] [] (by simp [QueueEvent.entry]) rfl ?_
    rw [update_self, List.nil_append]
  · refine h.call [] [] (by simp [QueueEvent.entry, Ne.symm hq]) rfl ?_
    rw [update_of_ne hq, List.append_nil, List.nil_append]

theorem refused (h : InOrder first es r) (q : ι) (t : τ) :
    InOrder first (es ++ [.inserted q t false]) r := by
  intro q'
  refine h.call [] [] (by simp [QueueEvent.entry]) rfl ?_
  rw [List.append_nil, List.nil_append]

theorem removed (h : InOrder first es r) (q : ι) :
    InOrder first (es ++ [.removed q (r q).head?]) (update r q (r q).tail) := by
  intro q'
  by_cases hq : q' = q
  · subst hq
    refine h.call [] ((r q').head?.toList) rfl ?_ ?_
    · cases r q' with
      | nil => simp [QueueEvent.exit]
      | cons t rest => simp [QueueEvent.exit]
    · rw [update_self, List.append_nil]
      cases r q' with
      | nil => rfl
      | cons t rest => rfl
  · refine h.call [] [] rfl (by simp [QueueEvent.exit, Ne.symm hq]) ?_
    rw [update_of_ne hq, List.append_nil, List.nil_append]

end InOrder

variable [DecidableEq τ]

/-- Any sequence of calls on queues that start empty.  Between two calls a task that is in no
queue may be dispatched, blocked, put to sleep, woken, ended or replaced by another one. -/
inductive QueueRun : List (QueueEvent ι τ) → QueueHeap ι τ → Prop
  | start {s : QueueHeap ι τ} : (∀ q, s.head q = none) → (∀ q, s.tail q = none) →
      (∀ q, s.size q = 0) → (∀ t, (s.tasks t).queued = false) → QueueRun [] s
  | insert {es : List (QueueEvent ι τ)} {s : QueueHeap ι τ} (q : ι) (t : τ) : QueueRun es s →
      QueueRun (es ++ [.inserted q t (s.insert q t).1]) (s.insert q t).2
  | remove {es : List (QueueEvent ι τ)} {s s' : QueueHeap ι τ} {q : ι} {selected : Option τ} :
      QueueRun es s → s.remove q = .ok selected s' → QueueRun (es ++ [.removed q selected]) s'
  | change {es : List (QueueEvent ι τ)} {s : QueueHeap ι τ} {t : τ} {task : QueueTask τ} :
      QueueRun es s → (s.tasks t).queued = false → task.queued = false →
      QueueRun es (s.modifyTask t fun _ => task)

/-- **The queues are first in, first out**, over any sequence of calls. -/
theorem QueueRun.fifo {s : QueueHeap ι τ} (h : QueueRun es s) :
    ∃ r, QueueOk s r ∧ InOrder (fun _ => []) es r := by
  induction h with
  | @start s hhead htail hsize hqueued =>
    refine ⟨fun _ => [], ⟨⟨⟨fun q => ⟨trivial, hhead q, htail q, List.nodup_nil⟩, fun t => ?_,
      fun hmem => absurd hmem List.not_mem_nil⟩, hsize⟩,
      fun _ _ hmem => absurd hmem List.not_mem_nil⟩, .nil _⟩
    rw [hqueued t]
    exact iff_of_false Bool.false_ne_true fun hmem => List.not_mem_nil hmem.choose_spec
  | @insert es s q t _ ih =>
    obtain ⟨r, hok, horder⟩ := ih
    cases ht : s.refuses t with
    | true =>
      rw [QueueHeap.insert_refused ht]
      exact ⟨r, hok, horder.refused q t⟩
    | false =>
      obtain ⟨htrue, hok'⟩ := hok.insert (q := q) ht
      rw [htrue]
      exact ⟨_, hok', horder.accepted q t⟩
  | @remove es s s' q selected _ hremove ih =>
    obtain ⟨r, hok, horder⟩ := ih
    obtain ⟨s1, hs1, hok', -⟩ := hok.remove q
    rw [hs1] at hremove
    cases hremove
    exact ⟨_, hok', horder.removed q⟩
  | @change es s t task _ hqueued htask ih =>
    obtain ⟨r, hok, horder⟩ := ih
    refine ⟨r, hok.change hqueued (fun u hu => ?_) ?_ rfl rfl rfl, horder⟩
    · rw [QueueHeap.modifyTask_tasks, update_of_ne hu]
    · rw [QueueHeap.modifyTask_tasks, update_self]
      exact htask

end Sequences

end Jixia
