/-
The run queues and the delay queues of the executive.

Both kinds of queue thread their links through the task records.  What they see of the kernel
is a heap (`queueHeap`, `delayHeap`), and what they do to it is put back (`withQueueHeap`,
`withDelayHeap`), so every lock section of the two queues is the operation on the heap:

* `runQueueInsert_heap`, `runQueueRemove_heap` — the sections of the run queues;
* `delayQueueInsert_heap`, `delayQueueRemoveExpired_heap`, `delayQueueTicksUntilNext_heap` —
  those of the delay queues;
* `RunLists`, `DelayLists` — the lists the queues stand for, with the sections in closed form.
-/
import Jixia.DelayQueues
import Jixia.Queues
import Jixia.RunQueues

namespace Jixia

open LinkedList Function Kernel

/-- A change of one task record, seen through a part of the records. -/
theorem Kernel.modifyTask_put {β : Type} {get : Task → β} {put : Task → β → Task}
    (hput : ∀ task, put task (get task) = task) {f : Task → Task} {g : β → β}
    (hf : ∀ task, f task = put task (g (get task))) (k : Kernel) (t : TaskRef) :
    (k.modifyTask t f).tasks = fun u => put (k.tasks u)
      (update (fun u => get (k.tasks u)) t (g (get (k.tasks t))) u) := by
  funext u
  rw [modifyTask_tasks]
  by_cases hu : u = t
  · subst hu
    rw [update_self, update_self, hf]
  · rw [update_of_ne hu, update_of_ne hu, hput]

/-! ### Run queues -/

/-- What the run queues see of a task. -/
def Task.queueTask (task : Task) : QueueTask TaskRef where
  previous := task.previous
  next := task.next
  queued := task.queued
  delayQueued := task.delay.queued
  messageQueued := task.messageWait.queued
  state := task.state

/-- The task with what the run queues make of it. -/
def Task.withQueueTask (task : Task) (node : QueueTask TaskRef) : Task :=
  { task with
    previous := node.previous, next := node.next, queued := node.queued, state := node.state
    delay.queued := node.delayQueued, messageWait.queued := node.messageQueued }

namespace Kernel

variable {k : Kernel} {q : RunQueueRef} {t : TaskRef}

/-- The run queues of the executive. -/
def queueHeap (k : Kernel) : QueueHeap RunQueueRef TaskRef where
  tasks t := (k.tasks t).queueTask
  head q := (k.runQueues q).head
  tail q := (k.runQueues q).tail
  size q := (k.runQueues q).size

/-- The kernel with other run queues. -/
def withQueueHeap (k : Kernel) (s : QueueHeap RunQueueRef TaskRef) : Kernel :=
  { k with
    tasks := fun t => (k.tasks t).withQueueTask (s.tasks t)
    runQueues := fun q => ⟨s.head q, s.tail q, s.size q⟩ }

variable (k : Kernel) (s : QueueHeap RunQueueRef TaskRef) (q : RunQueueRef) (t : TaskRef)

theorem withQueueHeap_modifyTask {f : Task → Task} {g : QueueTask TaskRef → QueueTask TaskRef}
    (hf : ∀ task, f task = task.withQueueTask (g task.queueTask)) :
    (k.withQueueHeap s).modifyTask t f = k.withQueueHeap (s.modifyTask t g) := by
  have htasks := modifyTask_put (fun _ => rfl) hf (k.withQueueHeap s) t
  rw [modifyTask, ← modifyTask_tasks, htasks]
  rfl

theorem withQueueHeap_modifyRunQueue (f : RunQueue → RunQueue) :
    (k.withQueueHeap s).modifyRunQueue q f = k.withQueueHeap { s with
      head := update s.head q (f ⟨s.head q, s.tail q, s.size q⟩).head
      tail := update s.tail q (f ⟨s.head q, s.tail q, s.size q⟩).tail
      size := update s.size q (f ⟨s.head q, s.tail q, s.size q⟩).size } := by
  rw [modifyRunQueue, withQueueHeap, withQueueHeap]
  congr 1
  funext q'
  by_cases hq : q' = q
  · subst hq
    simp
  · simp [hq]

/-- **`runQueueInsert` is `RunQueue::insert`** on the queues of the executive. -/
theorem runQueueInsert_heap : k.runQueueInsert q t =
    ((k.queueHeap.insert q t).1, k.withQueueHeap (k.queueHeap.insert q t).2) := by
  have hlink : ∀ tail, k.modifyTask t (fun task => { task with previous := tail, next := none }) =
      k.withQueueHeap (k.queueHeap.modifyTask t fun task =>
        { task with previous := tail, next := none }) :=
    fun tail => withQueueHeap_modifyTask k k.queueHeap t fun _ => rfl
  have hnext := fun s u => withQueueHeap_modifyTask k s u
    (f := fun task => { task with next := some t })
    (g := fun task => { task with next := some t }) fun _ => rfl
  have hready := fun s => withQueueHeap_modifyTask k s t
    (f := fun task => { task with state := .ready, queued := true })
    (g := fun task => { task with state := .ready, queued := true }) fun _ => rfl
  have hrefuses : ((k.tasks t).queued || (k.tasks t).delay.queued ||
      (k.tasks t).messageWait.queued || (k.tasks t).state == .ended) = k.queueHeap.refuses t := rfl
  have htail : (k.runQueues q).tail = k.queueHeap.tail q := rfl
  rw [QueueHeap.insert, runQueueInsert, hrefuses, htail]
  dsimp only
  split
  · rfl
  · cases k.queueHeap.tail q with
    | none => simp [hlink, hready, withQueueHeap_modifyRunQueue, QueueHeap.modifyTask]
    | some last => simp [hlink, hnext, hready, withQueueHeap_modifyRunQueue, QueueHeap.modifyTask]

/-- What the end of an operation makes of the kernel. -/
def putOutcome {σ β : Type} (put : σ → Kernel) : EStateM.Result Halt σ β → Outcome β
  | .ok b s => .ok b (put s)
  | .error e s => .error e (put s)

/-- **`runQueueRemove` is `RunQueue::remove`** on the queues of the executive. -/
theorem runQueueRemove_heap :
    k.runQueueRemove q = putOutcome k.withQueueHeap (k.queueHeap.remove q) := by
  have hhead : (k.runQueues q).head = k.queueHeap.head q := rfl
  rw [QueueHeap.remove, runQueueRemove, hhead]
  cases k.queueHeap.head q with
  | none => rfl
  | some t =>
    have hqueue : ∀ f, k.modifyRunQueue q f = (k.withQueueHeap k.queueHeap).modifyRunQueue q f :=
      fun _ => rfl
    have hfirst := fun s u => withQueueHeap_modifyTask k s u
      (f := fun task => { task with previous := none })
      (g := fun task => { task with previous := none }) fun _ => rfl
    have hunlink := fun s => withQueueHeap_modifyTask k s t
      (f := fun task => { task with previous := none, next := none, queued := false })
      (g := fun task => { task with previous := none, next := none, queued := false }) fun _ => rfl
    have hcheck : ∀ s : QueueHeap RunQueueRef TaskRef,
        putOutcome k.withQueueHeap (if (s.tasks t).state != .ready || (s.tasks t).delayQueued ||
            (s.tasks t).messageQueued then .error (.park .runQueueRemove) s else .ok (some t) s) =
        if ((k.withQueueHeap s).tasks t).state != .ready ||
            ((k.withQueueHeap s).tasks t).delay.queued ||
            ((k.withQueueHeap s).tasks t).messageWait.queued then
          .error (.park .runQueueRemove) (k.withQueueHeap s)
        else .ok (some t) (k.withQueueHeap s) := fun s => by
      rw [apply_ite (putOutcome k.withQueueHeap)]
      rfl
    have hnext : (k.tasks t).next = (k.queueHeap.tasks t).next := rfl
    dsimp -proj only
    rw [hcheck, hnext]
    cases (k.queueHeap.tasks t).next with
    | none => simp [hqueue, hunlink, withQueueHeap_modifyRunQueue]
    | some first => simp [hqueue, hfirst, hunlink, withQueueHeap_modifyRunQueue]

def runNext (k : Kernel) (t : TaskRef) : Option TaskRef := (k.tasks t).next

def runPrev (k : Kernel) (t : TaskRef) : Option TaskRef := (k.tasks t).previous

/-- The tasks of a run queue, found by following the links. -/
def runList (k : Kernel) (q : RunQueueRef) : List TaskRef :=
  LinkedList.walk k.runNext kMaxTasks (k.runQueues q).head

/-- The kernel after `t` was put behind the list `l` of the queue `q`. -/
def enqueued (l : List TaskRef) : Kernel := k.withQueueHeap (k.queueHeap.linked q t l)

/-- The kernel after `t` was taken off the queue `q`, which then is `rest`. -/
def dequeued (rest : List TaskRef) : Kernel := k.withQueueHeap (k.queueHeap.unlinked q t rest)

end Kernel

/-- Every run queue is the list `r q`. -/
structure RunLists (k : Kernel) (r : RunQueueRef → List TaskRef) : Prop where
  family : Family k.runNext k.runPrev (fun t => (k.tasks t).queued = true)
    (fun q => (k.runQueues q).head) (fun q => (k.runQueues q).tail) r
  size : ∀ q, (k.runQueues q).size = (r q).length

namespace RunLists

variable {k k' : Kernel} {r : RunQueueRef → List TaskRef} {q : RunQueueRef} {t : TaskRef}
  {rest : List TaskRef}

theorem lists (h : RunLists k r) : QueueLists k.queueHeap r := ⟨h.family, h.size⟩

theorem runList_eq (h : RunLists k r) (q : RunQueueRef) : k.runList q = r q :=
  (h.family.holds q).walk_eq (h.family.holds q).nodup.length_le_card

theorem queued (h : RunLists k r) (t : TaskRef) : (k.tasks t).queued = true ↔ ∃ q, t ∈ r q :=
  h.family.queued_iff t

/-- Only the queues and the links matter. -/
theorem congr (h : RunLists k r) (hq : k'.runQueues = k.runQueues)
    (ht : ∀ t, (k'.tasks t).next = (k.tasks t).next ∧
      (k'.tasks t).previous = (k.tasks t).previous ∧ (k'.tasks t).queued = (k.tasks t).queued) :
    RunLists k' r where
  family := h.family.congr (fun _ t _ => (ht t).1) (fun _ t _ => (ht t).2.1)
    (fun t => Bool.eq_iff_iff.mp (ht t).2.2) (fun q => by rw [hq]) fun q => by rw [hq]
  size q := by rw [hq, h.size q]

/-- `RunQueue::insert` appends a task that is in no queue and has not ended. -/
theorem runQueueInsert_eq (h : RunLists k r)
    (ht : ((k.tasks t).queued || (k.tasks t).delay.queued || (k.tasks t).messageWait.queued ||
      (k.tasks t).state == .ended) = false) :
    k.runQueueInsert q t = (true, k.enqueued q t (r q)) := by
  rw [runQueueInsert_heap, h.lists.insert_eq ht]
  rfl

/-- `RunQueue::insert` refuses any other task. -/
theorem runQueueInsert_refused
    (ht : ((k.tasks t).queued || (k.tasks t).delay.queued || (k.tasks t).messageWait.queued ||
      (k.tasks t).state == .ended) = true) : k.runQueueInsert q t = (false, k) := by
  rw [Kernel.runQueueInsert]
  exact if_pos ht

theorem enqueued (h : RunLists k r) (ht : (k.tasks t).queued = false) :
    RunLists (k.enqueued q t (r q)) (update r q (r q ++ [t])) :=
  ⟨(h.lists.linked ht).family, (h.lists.linked ht).size⟩

theorem runQueueRemove_nil (h : RunLists k r) (hq : r q = []) :
    k.runQueueRemove q = .ok none k := by
  rw [runQueueRemove_heap, h.lists.remove_nil hq]
  rfl

/-- `RunQueue::remove` takes the head, which has to be ready. -/
theorem runQueueRemove_cons (h : RunLists k r) (hq : r q = t :: rest) :
    k.runQueueRemove q =
      if (k.tasks t).state != .ready || (k.tasks t).delay.queued ||
          (k.tasks t).messageWait.queued then
        .error (.park .runQueueRemove) (k.dequeued q t rest)
      else .ok (some t) (k.dequeued q t rest) := by
  rw [runQueueRemove_heap, h.lists.remove_cons hq,
    apply_ite (putOutcome k.withQueueHeap)]
  rfl

theorem dequeued (h : RunLists k r) (hq : r q = t :: rest) :
    RunLists (k.dequeued q t rest) (update r q rest) :=
  ⟨(h.lists.unlinked hq).family, (h.lists.unlinked hq).size⟩

end RunLists

/-! ### Delay queues -/

/-- What the delay queues see of a task. -/
def Task.delayTask (task : Task) : DelayTask TaskRef where
  previous := task.delay.previous
  next := task.delay.next
  deadline := task.delay.deadline
  queued := task.delay.queued
  runQueued := task.queued
  state := task.state

/-- The task with what the delay queues make of it. -/
def Task.withDelayTask (task : Task) (node : DelayTask TaskRef) : Task :=
  { task with
    delay := { previous := node.previous, next := node.next, deadline := node.deadline,
               queued := node.queued }
    queued := node.runQueued, state := node.state }

namespace Kernel

/-- The delay queues of the executive. -/
def delayHeap (k : Kernel) : DelayHeap HartIndex TaskRef where
  tasks t := (k.tasks t).delayTask
  head := k.delayQueues

/-- The kernel with other delay queues. -/
def withDelayHeap (k : Kernel) (s : DelayHeap HartIndex TaskRef) : Kernel :=
  { k with tasks := fun t => (k.tasks t).withDelayTask (s.tasks t), delayQueues := s.head }

variable (k : Kernel) (s : DelayHeap HartIndex TaskRef) (q : HartIndex) (t : TaskRef)
  (now due : Word)

theorem withDelayHeap_modifyTask {f : Task → Task} {g : DelayTask TaskRef → DelayTask TaskRef}
    (hf : ∀ task, f task = task.withDelayTask (g task.delayTask)) :
    (k.withDelayHeap s).modifyTask t f = k.withDelayHeap (s.modifyTask t g) := by
  have htasks := modifyTask_put (fun _ => rfl) hf (k.withDelayHeap s) t
  rw [modifyTask, ← modifyTask_tasks, htasks]
  rfl

theorem withDelayHeap_setDelayHead (head : Option TaskRef) :
    (k.withDelayHeap s).setDelayHead q head =
      k.withDelayHeap { s with head := update s.head q head } := rfl

theorem delaySeek_heap (fuel : ℕ) (previous cursor : Option TaskRef) :
    k.delaySeek due fuel previous cursor =
      k.delayHeap.seek due fuel previous cursor := by
  induction fuel generalizing previous cursor with
  | zero => rfl
  | succ n ih =>
    cases cursor with
    | none => rfl
    | some u =>
      rw [delaySeek, DelayHeap.seek, ih]
      rfl

/-- **`delayQueueInsert` is `DelayQueue::insert`** on the queues of the executive. -/
theorem delayQueueInsert_heap : k.delayQueueInsert q t due =
    (k.delayHeap.insert (kMaxTasks + 1) q t due).elim (.error .unbounded k)
      fun result => .ok result.1 (k.withDelayHeap result.2) := by
  have hrefuses : ((k.tasks t).delay.queued || (k.tasks t).queued || (k.tasks t).state == .ended) =
      k.delayHeap.refuses t := rfl
  have hhead : k.delayQueues q = k.delayHeap.head q := rfl
  have hnode : ∀ previous next, k.modifyTask t (fun task => { task with delay :=
      { previous := previous, next := next, deadline := due, queued := true } }) =
      k.withDelayHeap (k.delayHeap.modifyTask t fun task => { task with
        previous := previous, next := next, deadline := due, queued := true }) :=
    fun previous next => withDelayHeap_modifyTask k k.delayHeap t fun _ => rfl
  have hnext := fun s u => withDelayHeap_modifyTask k s u
    (f := fun task => { task with delay.next := some t })
    (g := fun task => { task with next := some t }) fun _ => rfl
  have hprev := fun s u => withDelayHeap_modifyTask k s u
    (f := fun task => { task with delay.previous := some t })
    (g := fun task => { task with previous := some t }) fun _ => rfl
  rw [DelayHeap.insert, delayQueueInsert, hrefuses, hhead, delaySeek_heap]
  dsimp only
  split
  · rfl
  · cases k.delayHeap.seek due (kMaxTasks + 1) none (k.delayHeap.head q) with
    | none => rfl
    | some place =>
      obtain ⟨_ | before, _ | after⟩ := place <;>
        simp [hnode, hnext, hprev, withDelayHeap_setDelayHead]

/-- **`delayQueueRemoveExpired` is `DelayQueue::remove_expired`** on the queues of the
executive. -/
theorem delayQueueRemoveExpired_heap : k.delayQueueRemoveExpired q now =
    ((k.delayHeap.removeExpired q now).1,
      k.withDelayHeap (k.delayHeap.removeExpired q now).2) := by
  have hhead : k.delayQueues q = k.delayHeap.head q := rfl
  rw [DelayHeap.removeExpired, delayQueueRemoveExpired, hhead]
  cases k.delayHeap.head q with
  | none => rfl
  | some t =>
    have hset : ∀ head, k.setDelayHead q head =
        k.withDelayHeap { k.delayHeap with head := update k.delayHeap.head q head } :=
      fun _ => rfl
    have hfirst := fun s u => withDelayHeap_modifyTask k s u
      (f := fun task => { task with delay.previous := none })
      (g := fun task => { task with previous := none }) fun _ => rfl
    have hunlink := fun s => withDelayHeap_modifyTask k s t
      (f := fun task => { task with
        delay := { task.delay with previous := none, next := none, queued := false } })
      (g := fun task => { task with previous := none, next := none, queued := false }) fun _ => rfl
    have hdue : (k.tasks t).delay.deadline = k.delayHeap.deadline t := rfl
    have hnext : (k.tasks t).delay.next = k.delayHeap.next t := rfl
    dsimp only
    rw [hdue, hnext]
    split
    · rfl
    · cases k.delayHeap.next t <;> simp [hset, hfirst, hunlink]

/-- **`delayQueueTicksUntilNext` is `DelayQueue::ticks_until_next`** on the queues of the
executive. -/
theorem delayQueueTicksUntilNext_heap (maximum : Word) :
    k.delayQueueTicksUntilNext q now maximum = k.delayHeap.ticksUntilNext q now maximum := by
  have hhead : k.delayQueues q = k.delayHeap.head q := rfl
  rw [delayQueueTicksUntilNext, DelayHeap.ticksUntilNext, hhead]
  cases k.delayHeap.head q <;> rfl

def delayNext (k : Kernel) (t : TaskRef) : Option TaskRef := (k.tasks t).delay.next

def delayPrev (k : Kernel) (t : TaskRef) : Option TaskRef := (k.tasks t).delay.previous

def deadline (k : Kernel) (t : TaskRef) : Word := (k.tasks t).delay.deadline

/-- The tasks that sleep in a delay queue, found by following the links. -/
def sleepers (k : Kernel) (q : HartIndex) : List TaskRef :=
  LinkedList.walk k.delayNext kMaxTasks (k.delayQueues q)

/-- The kernel after `t` was put between the segments `l1` and `l2` of the delay queue `q`. -/
def delayed (l1 l2 : List TaskRef) : Kernel :=
  k.withDelayHeap (k.delayHeap.placed q t due l1 l2)

/-- The kernel after `t` was taken off the delay queue `q`, which then is `rest`. -/
def undelayed (rest : List TaskRef) : Kernel := k.withDelayHeap (k.delayHeap.expired q t rest)

end Kernel

/-- Every delay queue is the list `d q`, sorted by deadline.  There is no tail pointer. -/
structure DelayLists (k : Kernel) (d : HartIndex → List TaskRef) : Prop where
  family : Family k.delayNext k.delayPrev (fun t => (k.tasks t).delay.queued = true)
    k.delayQueues (fun q => (d q).getLast?) d
  sorted : ∀ q, (d q).Pairwise fun a b => k.deadline a ≤ k.deadline b

namespace DelayLists

variable {k k' : Kernel} {d : HartIndex → List TaskRef} {q : HartIndex} {t : TaskRef}
  {rest : List TaskRef} {deadline now : Word}

theorem lists (h : DelayLists k d) : DelayFamily k.delayHeap d := h.family

theorem queued (h : DelayLists k d) (t : TaskRef) :
    (k.tasks t).delay.queued = true ↔ ∃ q, t ∈ d q :=
  h.family.queued_iff t

/-- Only the heads and the nodes matter. -/
theorem congr (h : DelayLists k d) (hq : k'.delayQueues = k.delayQueues)
    (ht : ∀ t, (k'.tasks t).delay = (k.tasks t).delay) : DelayLists k' d where
  family := h.family.congr (fun _ t _ => congrArg DelayNode.next (ht t))
    (fun _ t _ => congrArg DelayNode.previous (ht t))
    (fun t => Bool.eq_iff_iff.mp (congrArg DelayNode.queued (ht t))) (fun q => congrFun hq q)
    fun _ => rfl
  sorted q := by
    refine (h.sorted q).imp fun {a b} hab => ?_
    rw [deadline, deadline, ht a, ht b]
    exact hab

/-- A queue has at most as many tasks as the table. -/
theorem sleepers_eq (h : DelayLists k d) (q : HartIndex) : k.sleepers q = d q :=
  (h.family.holds q).walk_eq (h.family.holds q).nodup.length_le_card

theorem length_le (h : DelayLists k d) (q : HartIndex) : (d q).length ≤ kMaxTasks := by
  simpa using (h.family.holds q).nodup.length_le_card

/-- `DelayQueue::insert` puts a task that is in no run or delay queue behind every
deadline that is not later. -/
theorem delayQueueInsert_eq (h : DelayLists k d)
    (ht : ((k.tasks t).delay.queued || (k.tasks t).queued || (k.tasks t).state == .ended) =
      false) :
    k.delayQueueInsert q t deadline = .ok true (k.delayed q t deadline
      ((d q).takeWhile fun u => k.deadline u ≤ deadline)
      ((d q).dropWhile fun u => k.deadline u ≤ deadline)) := by
  rw [delayQueueInsert_heap, h.lists.insert_eq ht (Nat.lt_succ_of_le (h.length_le q))]
  rfl

/-- `DelayQueue::insert` refuses any other task. -/
theorem delayQueueInsert_refused
    (ht : ((k.tasks t).delay.queued || (k.tasks t).queued || (k.tasks t).state == .ended) =
      true) : k.delayQueueInsert q t deadline = .ok false k := by
  rw [delayQueueInsert]
  exact if_pos ht

/-- Every deadline behind the insertion point is later. -/
theorem lt_of_mem_dropWhile (h : DelayLists k d) {u : TaskRef}
    (hu : u ∈ (d q).dropWhile fun u => k.deadline u ≤ deadline) : deadline < k.deadline u :=
  DelayHeap.lt_of_mem_dropWhile (s := k.delayHeap) (h.sorted q) hu

theorem delayed (h : DelayLists k d) (ht : (k.tasks t).delay.queued = false) :
    DelayLists (k.delayed q t deadline ((d q).takeWhile fun u => k.deadline u ≤ deadline)
        ((d q).dropWhile fun u => k.deadline u ≤ deadline))
      (update d q (((d q).takeWhile fun u => k.deadline u ≤ deadline) ++
        t :: (d q).dropWhile fun u => k.deadline u ≤ deadline)) := by
  have hnot : ¬ (k.tasks t).delay.queued = true := by simp [ht]
  have hsplit : ((d q).takeWhile fun u => decide (k.deadline u ≤ deadline)) ++
      (d q).dropWhile (fun u => decide (k.deadline u ≤ deadline)) = d q :=
    List.takeWhile_append_dropWhile
  have hlow : ∀ u ∈ (d q).takeWhile fun u => decide (k.deadline u ≤ deadline),
      k.deadline u ≤ deadline := fun u hu => by
    simpa using List.mem_takeWhile_imp hu
  have hhigh := fun u (hu : u ∈ (d q).dropWhile fun u => decide (k.deadline u ≤ deadline)) =>
    BitVec.le_of_lt (h.lt_of_mem_dropWhile hu)
  generalize (d q).takeWhile _ = l1 at *
  generalize (d q).dropWhile _ = l2 at *
  have hdl : ∀ q' {u}, u ∈ d q' → (k.delayed q t deadline l1 l2).deadline u = k.deadline u :=
    fun q' u hu => if_neg fun hut : u = t => h.family.not_mem hnot q' (hut ▸ hu)
  have hdt : (k.delayed q t deadline l1 l2).deadline t = deadline := if_pos rfl
  refine ⟨h.lists.placed hnot hsplit deadline, pairwise_insert h.sorted hsplit
    (fun q' a ha b hb hab => ?_) (fun a ha => ?_) fun b hb => ?_⟩
  · rwa [hdl q' ha, hdl q' hb]
  · rw [hdt, hdl q (hsplit ▸ List.mem_append_left _ ha)]
    exact hlow a ha
  · rw [hdt, hdl q (hsplit ▸ List.mem_append_right _ hb)]
    exact hhigh b hb

theorem delayQueueRemoveExpired_nil (h : DelayLists k d) (hq : d q = []) :
    k.delayQueueRemoveExpired q now = (none, k) := by
  rw [delayQueueRemoveExpired_heap, h.lists.removeExpired_nil hq]
  rfl

/-- `DelayQueue::remove_expired` takes the head when it is due. -/
theorem delayQueueRemoveExpired_cons (h : DelayLists k d) (hq : d q = t :: rest) :
    k.delayQueueRemoveExpired q now =
      if k.deadline t > now then (none, k) else (some t, k.undelayed q t rest) := by
  rw [delayQueueRemoveExpired_heap, h.lists.removeExpired_cons hq]
  by_cases hlt : k.deadline t > now
  · rw [if_pos hlt, if_pos (show k.delayHeap.deadline t > now from hlt)]
    rfl
  · rw [if_neg hlt, if_neg (show ¬ k.delayHeap.deadline t > now from hlt)]
    rfl

theorem undelayed (h : DelayLists k d) (hq : d q = t :: rest) :
    DelayLists (k.undelayed q t rest) (update d q rest) :=
  ⟨h.lists.expired hq, pairwise_tail h.sorted hq⟩

end DelayLists

end Jixia
