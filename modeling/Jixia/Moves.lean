/-
Moving one task.

Each list operation of the source takes one task from one place to another.
`Moved k k' loc t` says what such an operation leaves alone; `Inv.move` is what has
to be checked of the task itself.  The rest of the module applies it to the
operations: into and out of a run queue, a delay queue and a waiting FIFO.
-/
import Jixia.Placement

namespace Jixia

open LinkedList Function Kernel

variable {legal : Prop} {k k' : Kernel} {loc : Loc} {t : TaskRef} {h : HartIndex} {p p' : Place}

/-- The task is in none of the queues. -/
def Unqueued (loc : Loc) (t : TaskRef) : Prop :=
  (∀ q, loc t ≠ some (.run q)) ∧ (∀ q, loc t ≠ some (.delay q)) ∧ ∀ e, loc t ≠ some (.wait e)

/-- Only the task `t` is moved: the other records keep everything but the links,
and those of tasks in no queue are the same. -/
structure Moved (k k' : Kernel) (loc : Loc) (t : TaskRef) : Prop where
  rest : k' = { k with
    tasks := k'.tasks, runQueues := k'.runQueues, delayQueues := k'.delayQueues
    endpoints := k'.endpoints }
  core : ∀ u, u ≠ t → (k'.tasks u).core = (k.tasks u).core
  exact : ∀ u, u ≠ t → Unqueued loc u → k'.tasks u = k.tasks u
  endpoint : ∀ e, (k'.endpoints e).active = (k.endpoints e).active ∧
    (k'.endpoints e).generation = (k.endpoints e).generation
  self : (k'.tasks t).tracker = (k.tasks t).tracker ∧ (k'.tasks t).tid = (k.tasks t).tid ∧
    (k'.tasks t).idle = (k.tasks t).idle

/-- A place in which the tracker of a task does not wait. -/
def Place.isPlain : Place → Bool
  | .reaped _ | .join => false
  | _ => true

theorem live_update (hold : loc t = some p) (hp : p.isPlain = true) (hp' : p'.isPlain = true)
    (u : TaskRef) : Live (update loc t (some p')) u ↔ Live loc u := by
  have hnot : ∀ x : Place, x.isPlain = true → ∀ j, x ≠ .reaped j := by
    rintro x hx j rfl
    cases hx
  by_cases hu : u = t
  · subst hu
    rw [Live, update_self]
    exact iff_of_true ⟨p', rfl, hnot p' hp'⟩ ⟨p, hold, hnot p hp⟩
  · rw [Live, update_of_ne hu, Live]

theorem join_update (hold : loc t = some p) (hp : p.isPlain = true) (hp' : p'.isPlain = true)
    (u : TaskRef) : update loc t (some p') u = some .join ↔ loc u = some .join := by
  have hnot : ∀ x : Place, x.isPlain = true → x ≠ .join := by
    rintro x hx rfl
    cases hx
  by_cases hu : u = t
  · subst hu
    rw [update_self, hold]
    simp [hnot p hp, hnot p' hp']
  · rw [update_of_ne hu]

/-- **Moving one task** keeps the invariant. -/
theorem Inv.move (hi : Inv legal k loc) (hm : Moved k k' loc t) (hold : loc t = some p)
    (hplain : p.isPlain = true) (hplain' : p'.isPlain = true)
    (hqueues : QueuesOk k' (update loc t (some p')))
    (hplaced : Placed k' (k'.tasks t) p') (hidle : (k.tasks t).idle = false)
    (hactive : ∀ e, p' = .wait e → (k.endpoints e).active = true) :
    Inv legal k' (update loc t (some p')) := by
  have hharts : k'.harts = k.harts := by rw [hm.rest]
  have hne : ∀ u, u ≠ t → update loc t (some p') u = loc u :=
    fun u hu => update_of_ne hu ..
  refine ⟨fun u => ?_, fun u hu => ?_, hqueues, fun hl u e hu => ?_, fun u q hu => ?_, fun j => ?_,
    fun u hu => ?_, ?_, fun hlegal => ?_⟩
  · rw [show k'.taskSlotsUsed = k.taskSlotsUsed by rw [hm.rest], hi.used]
    by_cases hut : u = t
    · rw [hut, update_self, hold]
      simp
    · rw [hne u hut]
  · have hut : u ≠ t := by
      rintro rfl
      rw [update_self] at hu
      cases hu
    rw [hne u hut] at hu
    rw [hm.exact u hut (by simp [Unqueued, hu]), hi.zero u hu]
  · rw [(hm.endpoint e).1]
    by_cases hut : u = t
    · rw [hut, update_self] at hu
      exact hactive e (Option.some.inj hu)
    · rw [hne u hut] at hu
      exact hi.quiet (by rwa [hm.rest] at hl) u e hu
  · by_cases hut : u = t
    · subst hut
      rw [update_self] at hu
      cases hu
      exact hplaced
    · rw [hne u hut] at hu
      refine (hi.placed u q hu).congr (fun j => ?_) (fun e _ => hm.endpoint e) (hm.core u hut)
      rw [hharts]
      exact ⟨rfl, rfl, rfl, rfl⟩
  · refine (hi.hart j).congr ?_ fun i hji => ?_
    · rw [hharts]
      exact ⟨rfl, rfl, rfl, rfl⟩
    · obtain ⟨-, -, hii, -⟩ := (hi.hart j).idle i hji
      have hit : i ≠ t := by
        rintro rfl
        rw [hidle] at hii
        cases hii
      have hcore := hm.core i hit
      refine ⟨hne i hit, ?_, .inl ?_⟩
      · exact show (k'.tasks i).core.idle = (k.tasks i).core.idle by rw [hcore]
      · exact show (k'.tasks i).core.state = (k.tasks i).core.state by rw [hcore]
  · rw [hharts]
    by_cases hut : u = t
    · rw [hut, hm.self.2.2, hidle] at hu
      cases hu
    · refine hi.idleOf u ?_
      rw [← hu]
      exact show (k.tasks u).core.idle = (k'.tasks u).core.idle by rw [hm.core u hut]
  · refine hi.tracker.congr (by rw [hm.rest]) (by rw [hm.rest]) (by rw [hm.rest])
      (fun u _ => ?_) (live_update hold hplain hplain') (join_update hold hplain hplain')
    by_cases hut : u = t
    · rw [hut]
      exact ⟨hm.self.1, hm.self.2.1⟩
    · have hcore := hm.core u hut
      constructor
      · exact show (k'.tasks u).core.tracker = (k.tasks u).core.tracker by rw [hcore]
      · exact show (k'.tasks u).core.tid = (k.tasks u).core.tid by rw [hcore]
  · have := hi.noCrash hlegal
    rw [hm.rest]
    exact this

/-! ### Who is in which list -/

section Membership

variable {ι : Type} [DecidableEq ι] {l : ι → List TaskRef} {place : ι → Place} {i : ι}
  {new : List TaskRef}

/-- A task comes into the list `i`. -/
theorem mem_update_insert (hinj : ∀ {i j}, place i = place j → i = j)
    (hmem : ∀ i u, u ∈ l i ↔ loc u = some (place i)) (hold : ∀ i, loc t ≠ some (place i))
    (hnew : ∀ u, u ∈ new ↔ u = t ∨ u ∈ l i) (j : ι) (u : TaskRef) :
    u ∈ update l i new j ↔
      update loc t (some (place i)) u = some (place j) := by
  by_cases hj : j = i
  · subst hj
    rw [update_self, hnew, hmem]
    by_cases hu : u = t
    · simp [hu]
    · rw [update_of_ne hu]
      simp [hu]
  · rw [update_of_ne hj, hmem]
    by_cases hu : u = t
    · subst hu
      rw [update_self]
      refine iff_of_false (hold j) fun h => hj (hinj (Option.some.inj h)).symm
    · rw [update_of_ne hu]

/-- The head of the list `i` goes to a place of another kind. -/
theorem mem_update_delete (hinj : ∀ {i j}, place i = place j → i = j)
    (hmem : ∀ i u, u ∈ l i ↔ loc u = some (place i)) (hl : l i = t :: new) (hnd : (l i).Nodup)
    (hother : ∀ i, p' ≠ place i) (j : ι) (u : TaskRef) :
    u ∈ update l i new j ↔ update loc t (some p') u = some (place j) := by
  rw [hl] at hnd
  by_cases hu : u = t
  · subst hu
    have hold : loc u = some (place i) := (hmem i u).mp (hl ▸ List.mem_cons_self)
    rw [update_self]
    refine iff_of_false (fun h => ?_) fun h => hother j (Option.some.inj h)
    by_cases hj : j = i
    · subst hj
      rw [update_self] at h
      exact (List.nodup_cons.mp hnd).1 h
    · rw [update_of_ne hj, hmem, hold] at h
      exact hj (hinj (Option.some.inj h)).symm
  · rw [update_of_ne hu, ← hmem]
    by_cases hj : j = i
    · subst hj
      rw [update_self, hl, List.mem_cons, or_iff_right hu]
    · rw [update_of_ne hj]

omit [DecidableEq ι] in
/-- A task moves between places of other kinds. -/
theorem mem_update_other (hmem : ∀ i u, u ∈ l i ↔ loc u = some (place i))
    (hold : ∀ i, loc t ≠ some (place i)) (hother : ∀ i, p' ≠ place i) (j : ι) (u : TaskRef) :
    u ∈ l j ↔ update loc t (some p') u = some (place j) := by
  by_cases hu : u = t
  · subst hu
    rw [update_self, hmem]
    exact iff_of_false (hold j) fun h => hother j (Option.some.inj h)
  · rw [update_of_ne hu, hmem]

omit [DecidableEq ι] in
/-- A task at a place of another kind is not marked. -/
theorem mark_eq_false {mark : Bool} (hmark : mark = true ↔ ∃ i, t ∈ l i)
    (hmem : ∀ i u, u ∈ l i ↔ loc u = some (place i)) (hold : ∀ i, loc t ≠ some (place i)) :
    mark = false := by
  rw [← Bool.not_eq_true, hmark]
  rintro ⟨i, hi⟩
  exact hold i ((hmem i t).mp hi)

end Membership

/-! ### Run queues -/

section RunQueues

variable {q : RunQueueRef} {r : RunQueueRef → List TaskRef} {rest : List TaskRef}

theorem enqueued_self (k : Kernel) (q : RunQueueRef) (t : TaskRef) (l : List TaskRef) :
    ((k.enqueued q t l).tasks t).core = { (k.tasks t).core with state := .ready } := by
  simp [enqueued, withQueueHeap, Task.withQueueTask, QueueHeap.linked, Task.core,
    queueHeap, Task.queueTask]

theorem Moved.enqueued (hmem : ∀ q t, t ∈ r q ↔ loc t = some (.run q)) :
    Moved k (k.enqueued q t (r q)) loc t where
  rest := rfl
  core u hu := by
    simp [Kernel.enqueued, withQueueHeap, Task.withQueueTask, QueueHeap.linked, Task.core,
      queueHeap, Task.queueTask, hu]
  exact u hu hout := by
    have hul : u ∉ r q ++ [] := by
      rw [List.append_nil, hmem]
      exact hout.1 q
    obtain ⟨hn, hp⟩ := insert_outside k.queueHeap.next k.queueHeap.previous (r q) [] hu hul
    rw [List.head?_nil] at hn hp
    have hnode : (k.queueHeap.linked q t (r q)).tasks u = k.queueHeap.tasks u := by
      simp only [QueueHeap.linked, hn, hp, if_neg hu]
      rfl
    exact congrArg (k.tasks u).withQueueTask hnode
  endpoint e := ⟨rfl, rfl⟩
  self := ⟨rfl, rfl, rfl⟩

/-- Into a run queue. -/
theorem QueuesOk.enqueued (hq : QueuesOk k loc) (hr : RunLists k r)
    (hmem : ∀ q t, t ∈ r q ↔ loc t = some (.run q)) (ht : loc t = some (.own h)) :
    QueuesOk (k.enqueued q t (r q)) (update loc t (some (.run q))) := by
  obtain ⟨-, ⟨d, hd, hdm⟩, ⟨w, hw, hwm⟩⟩ := hq
  have hfree := mark_eq_false (hr.queued t) hmem (by simp [ht])
  refine ⟨⟨_, hr.enqueued hfree, ?_⟩, ⟨d, hd.congr rfl fun _ => rfl, ?_⟩,
    ⟨w, hw.same ⟨rfl, rfl, fun _ => rfl⟩, ?_⟩⟩
  · refine mem_update_insert (fun hij => Place.run.inj hij) hmem (by simp [ht]) fun u => ?_
    rw [List.mem_append, List.mem_singleton, or_comm]
  · exact mem_update_other hdm (by simp [ht]) fun _ => Place.noConfusion
  · exact mem_update_other hwm (by simp [ht]) fun _ => Place.noConfusion

theorem Moved.dequeued (hr : RunLists k r) (hmem : ∀ q t, t ∈ r q ↔ loc t = some (.run q))
    (hq : r q = t :: rest) : Moved k (k.dequeued q t rest) loc t where
  rest := rfl
  core u _ := rfl
  exact u hu hout := by
    have hold := hr.lists.family.holds q
    rw [hq] at hold
    have hul : u ∉ [] ++ t :: rest := by
      rw [List.nil_append, ← hq, hmem]
      exact hout.1 q
    obtain ⟨hn, hp⟩ := hold.delete_outside [] hul
    have hnode : (k.queueHeap.unlinked q t rest).tasks u = k.queueHeap.tasks u := by
      simp only [QueueHeap.unlinked, hn, hp, if_neg hu]
      rfl
    exact congrArg (k.tasks u).withQueueTask hnode
  endpoint e := ⟨rfl, rfl⟩
  self := ⟨rfl, rfl, rfl⟩

/-- Out of a run queue. -/
theorem QueuesOk.dequeued (hq : QueuesOk k loc) (hr : RunLists k r)
    (hmem : ∀ q t, t ∈ r q ↔ loc t = some (.run q)) (hl : r q = t :: rest) :
    QueuesOk (k.dequeued q t rest) (update loc t (some (.own h))) := by
  obtain ⟨-, ⟨d, hd, hdm⟩, ⟨w, hw, hwm⟩⟩ := hq
  have ht : loc t = some (.run q) := by
    rw [← hmem, hl]
    exact List.mem_cons_self
  refine ⟨⟨_, hr.dequeued hl, ?_⟩, ⟨d, hd.congr rfl fun u => rfl, ?_⟩,
    ⟨w, hw.same ⟨rfl, rfl, fun u => rfl⟩, ?_⟩⟩
  · exact mem_update_delete (fun hij => Place.run.inj hij) hmem hl (hr.family.holds q).nodup
      fun _ => Place.noConfusion
  · exact mem_update_other hdm (by simp [ht]) fun _ => Place.noConfusion
  · exact mem_update_other hwm (by simp [ht]) fun _ => Place.noConfusion

end RunQueues

/-! ### Delay queues -/

section DelayQueues

variable {q : HartIndex} {d : HartIndex → List TaskRef} {rest : List TaskRef} {deadline : Word}

theorem delayed_core (k : Kernel) (q : HartIndex) (t : TaskRef) (deadline : Word)
    (l1 l2 : List TaskRef) (u : TaskRef) :
    ((k.delayed q t deadline l1 l2).tasks u).core = (k.tasks u).core := rfl

theorem Moved.delayed {l1 l2 : List TaskRef} (hl : d q = l1 ++ l2)
    (hmem : ∀ q t, t ∈ d q ↔ loc t = some (.delay q)) :
    Moved k (k.delayed q t deadline l1 l2) loc t where
  rest := rfl
  core u _ := delayed_core ..
  exact u hu hout := by
    have hul : u ∉ l1 ++ l2 := by
      rw [← hl, hmem]
      exact hout.2.1 q
    obtain ⟨hn, hp⟩ := insert_outside k.delayHeap.next k.delayHeap.previous l1 l2 hu hul
    have hnode : (k.delayHeap.placed q t deadline l1 l2).tasks u = k.delayHeap.tasks u := by
      simp only [DelayHeap.placed, hn, hp, if_neg hu]
      rfl
    exact congrArg (k.tasks u).withDelayTask hnode
  endpoint e := ⟨rfl, rfl⟩
  self := ⟨rfl, rfl, rfl⟩

/-- Into a delay queue. -/
theorem QueuesOk.delayed (hq : QueuesOk k loc) (hd : DelayLists k d)
    (hmem : ∀ q t, t ∈ d q ↔ loc t = some (.delay q)) (ht : loc t = some (.own h)) :
    QueuesOk (k.delayed q t deadline ((d q).takeWhile fun u => k.deadline u ≤ deadline)
        ((d q).dropWhile fun u => k.deadline u ≤ deadline))
      (update loc t (some (.delay q))) := by
  obtain ⟨⟨r, hr, hrm⟩, -, ⟨w, hw, hwm⟩⟩ := hq
  have hfree := mark_eq_false (hd.queued t) hmem (by simp [ht])
  refine ⟨⟨r, hr.congr rfl fun u => ⟨rfl, rfl, rfl⟩, ?_⟩, ⟨_, hd.delayed hfree, ?_⟩,
    ⟨w, hw.same ⟨rfl, rfl, fun u => rfl⟩, ?_⟩⟩
  · exact mem_update_other hrm (by simp [ht]) fun _ => Place.noConfusion
  · refine mem_update_insert (fun hij => Place.delay.inj hij) hmem (by simp [ht]) fun u => ?_
    have hsplit : u ∈ d q ↔ u ∈ (d q).takeWhile (fun u => decide (k.deadline u ≤ deadline)) ∨
        u ∈ (d q).dropWhile fun u => decide (k.deadline u ≤ deadline) := by
      rw [← List.mem_append, List.takeWhile_append_dropWhile]
    rw [List.mem_append, List.mem_cons, hsplit]
    tauto
  · exact mem_update_other hwm (by simp [ht]) fun _ => Place.noConfusion

theorem Moved.undelayed (hd : DelayLists k d)
    (hmem : ∀ q t, t ∈ d q ↔ loc t = some (.delay q)) (hq : d q = t :: rest) :
    Moved k (k.undelayed q t rest) loc t where
  rest := rfl
  core u _ := rfl
  exact u hu hout := by
    have hold := hd.lists.holds q
    rw [hq] at hold
    have hul : u ∉ [] ++ t :: rest := by
      rw [List.nil_append, ← hq, hmem]
      exact hout.2.1 q
    obtain ⟨hn, hp⟩ := hold.delete_outside [] hul
    have hnode : (k.delayHeap.expired q t rest).tasks u = k.delayHeap.tasks u := by
      simp only [DelayHeap.expired, hn, hp, if_neg hu]
      rfl
    exact congrArg (k.tasks u).withDelayTask hnode
  endpoint e := ⟨rfl, rfl⟩
  self := ⟨rfl, rfl, rfl⟩

/-- Out of a delay queue. -/
theorem QueuesOk.undelayed (hq : QueuesOk k loc) (hd : DelayLists k d)
    (hmem : ∀ q t, t ∈ d q ↔ loc t = some (.delay q)) (hl : d q = t :: rest) :
    QueuesOk (k.undelayed q t rest) (update loc t (some (.own h))) := by
  obtain ⟨⟨r, hr, hrm⟩, -, ⟨w, hw, hwm⟩⟩ := hq
  have ht : loc t = some (.delay q) := by
    rw [← hmem, hl]
    exact List.mem_cons_self
  refine ⟨⟨r, hr.congr rfl fun u => ⟨rfl, rfl, rfl⟩, ?_⟩, ⟨_, hd.undelayed hl, ?_⟩,
    ⟨w, hw.same ⟨rfl, rfl, fun u => rfl⟩, ?_⟩⟩
  · exact mem_update_other hrm (by simp [ht]) fun _ => Place.noConfusion
  · exact mem_update_delete (fun hij => Place.delay.inj hij) hmem hl (hd.family.holds q).nodup
      fun _ => Place.noConfusion
  · exact mem_update_other hwm (by simp [ht]) fun _ => Place.noConfusion

end DelayQueues

/-! ### Waiting FIFOs -/

section WaitingFifos

open WaitLists

variable {e : EndpointRef} {w : EndpointRef → List TaskRef} {rest : List TaskRef}

theorem Moved.popped (hw : WaitLists k w) (hmem : ∀ e t, t ∈ w e ↔ loc t = some (.wait e))
    (hl : w e = t :: rest) : Moved k (popped k e t rest) loc t where
  rest := rfl
  core u _ := rfl
  exact u hu hout := by
    have hold := hw.holds e
    rw [hl] at hold
    have hul : u ∉ [] ++ t :: rest := by
      rw [List.nil_append, ← hl, hmem]
      exact hout.2.2 e
    obtain ⟨hn, hp⟩ := hold.delete_outside [] hul
    simp [WaitLists.popped, withWaitNodes, popNode, hu, hn, hp, waitNext,
      waitPrev]
  endpoint e' := by
    by_cases he : e' = e
    · subst he
      simp [WaitLists.popped, withWaitNodes]
    · simp [WaitLists.popped, withWaitNodes, he]
  self := ⟨rfl, rfl, rfl⟩

/-- Writing the moved task as well. -/
theorem Moved.modifyTask (hm : Moved k k' loc t) {f : Task → Task}
    (hf : ∀ task, (f task).tracker = task.tracker ∧ (f task).tid = task.tid ∧
      (f task).idle = task.idle) : Moved k (k'.modifyTask t f) loc t where
  rest := by rw [hm.rest]; rfl
  core u hu := by simpa [hu] using hm.core u hu
  exact u hu hout := by simpa [hu] using hm.exact u hu hout
  endpoint := hm.endpoint
  self := by
    rw [modifyTask_tasks, update_self, (hf _).1, (hf _).2.1, (hf _).2.2]
    exact hm.self

theorem QueuesOk.modifyTask (hq : QueuesOk k loc) {f : Task → Task}
    (hf : ∀ task, SameLinks task (f task)) : QueuesOk (k.modifyTask t f) loc := by
  refine hq.congr (fun u => ?_) rfl rfl rfl rfl
  by_cases hu : u = t
  · rw [hu, modifyTask_tasks, update_self]
    exact hf _
  · rw [modifyTask_tasks, update_of_ne hu]
    exact ⟨rfl, rfl, rfl, rfl, rfl⟩

/-- Out of a waiting FIFO. -/
theorem QueuesOk.popped (hq : QueuesOk k loc) (hw : IpcInv k w fun _ => True)
    (hmem : ∀ e t, t ∈ w e ↔ loc t = some (.wait e)) (hl : w e = t :: rest) :
    QueuesOk (popped k e t rest) (update loc t (some (.own h))) := by
  obtain ⟨⟨r, hr, hrm⟩, ⟨d, hd, hdm⟩, -⟩ := hq
  have ht : loc t = some (.wait e) := by
    rw [← hmem, hl]
    exact List.mem_cons_self
  refine ⟨⟨r, hr.congr rfl fun u => ⟨rfl, rfl, rfl⟩, ?_⟩, ⟨d, hd.congr rfl fun u => rfl, ?_⟩,
    ⟨_, hw.popped hl, ?_⟩⟩
  · exact mem_update_other hrm (by simp [ht]) fun _ => Place.noConfusion
  · exact mem_update_other hdm (by simp [ht]) fun _ => Place.noConfusion
  · exact mem_update_delete (fun hij => Place.wait.inj hij) hmem hl (hw.lists.holds e).nodup
      fun _ => Place.noConfusion

theorem Moved.pushed (hmem : ∀ e t, t ∈ w e ↔ loc t = some (.wait e)) :
    Moved k (pushed k e t (w e)) loc t where
  rest := rfl
  core u _ := rfl
  exact u hu hout := by
    have hul : u ∉ w e ++ [] := by
      rw [List.append_nil, hmem]
      exact hout.2.2 e
    obtain ⟨hn, hp⟩ := insert_outside k.waitNext k.waitPrev (w e) [] hu hul
    rw [List.head?_nil] at hn hp
    simp [WaitLists.pushed, withWaitNodes, pushNode, hu, hn, hp, waitNext,
      waitPrev]
  endpoint e' := by
    by_cases he : e' = e
    · subst he
      simp [WaitLists.pushed, withWaitNodes]
    · simp [WaitLists.pushed, withWaitNodes, he]
  self := ⟨rfl, rfl, rfl⟩

/-- Into a waiting FIFO. -/
theorem QueuesOk.pushed (hq : QueuesOk k loc) (hw : IpcInv k w fun _ => True)
    (hmem : ∀ e t, t ∈ w e ↔ loc t = some (.wait e)) (ht : loc t = some (.own h))
    (hactive : (k.endpoints e).active = true) (hcount : (k.endpoints e).count = 0) :
    QueuesOk (pushed k e t (w e)) (update loc t (some (.wait e))) := by
  obtain ⟨⟨r, hr, hrm⟩, ⟨d, hd, hdm⟩, -⟩ := hq
  have hfree := mark_eq_false (hw.lists.queued t) hmem (by simp [ht])
  refine ⟨⟨r, hr.congr rfl fun u => ⟨rfl, rfl, rfl⟩, ?_⟩, ⟨d, hd.congr rfl fun u => rfl, ?_⟩,
    ⟨_, hw.pushed hfree hactive hcount, ?_⟩⟩
  · exact mem_update_other hrm (by simp [ht]) fun _ => Place.noConfusion
  · exact mem_update_other hdm (by simp [ht]) fun _ => Place.noConfusion
  · refine mem_update_insert (fun hij => Place.wait.inj hij) hmem (by simp [ht]) fun u => ?_
    rw [List.mem_append, List.mem_singleton, or_comm]

end WaitingFifos

end Jixia
