/-
Runs of the task manager.

`create_task`, `end_task`, `wait_task` and `detach_task` each run under the lock of the
manager.  A run of the manager is a sequence of such sections after `initialize`, with
anything between them that leaves the records of the manager alone: dispatches, traps,
messages.  Only clean ends are considered; a crash can park the hart.

* `ManagerStep`, `ManagerRun` — one section, and the runs with their events;
* `ManagerInv` — the tracker table is well formed, free slots are zeroed and every task
  has the stack of its slot or none;
* `ManagerStep.inv`, `ManagerRun.inv` — every section keeps it, so it holds in every
  reachable state.
-/
import Jixia.BootFrame
import Jixia.BootInvariant
import Jixia.TaskSections

namespace Jixia

open Function Kernel

variable {k k' : Kernel} {t u : TaskRef} {r c : TrackerRef}

/-! ### The records of the manager -/

/-- The task exists and is blocked in a join. -/
def Kernel.Joining (k : Kernel) (t : TaskRef) : Prop :=
  k.taskSlotsUsed t = true ∧
    ∃ r, (k.tasks t).tracker = some r ∧ (k.trackers r).wait.active = true

/-- The members of a task record that only the manager writes. -/
def Task.identity (task : Task) : TaskId × Option TrackerRef × Bool × Word × Word :=
  (task.tid, task.tracker, task.detached, task.stackBottom, task.stackTop)

/-- What other code leaves of the manager. -/
structure SameManager (k k' : Kernel) : Prop where
  boot : k'.bootSide = k.bootSide
  trackers : k'.trackers = k.trackers
  trackerSlots : k'.trackerSlotsUsed = k.trackerSlotsUsed
  taskSlots : k'.taskSlotsUsed = k.taskSlotsUsed
  rootTasks : k'.rootTasks = k.rootTasks
  nextTid : k'.nextTid = k.nextTid
  task : ∀ t, (k'.tasks t).identity = (k.tasks t).identity
  free : ∀ t, k.taskSlotsUsed t = false → k'.tasks t = k.tasks t

/-- A task has the stack of its slot, or none. -/
def Kernel.OwnStack (k : Kernel) (t : TaskRef) : Prop :=
  ((k.tasks t).stackBottom = 0 ∧ (k.tasks t).stackTop = 0) ∨
    ((k.tasks t).stackBottom = k.platform.taskStacks t ∧
      (k.tasks t).stackTop = k.platform.taskStacks t + kTaskStackSize)

/-- What holds between two sections of the manager. -/
structure ManagerInv (k : Kernel) : Prop where
  table : TrackerInv k (fun _ => False) (fun t => k.taskSlotsUsed t = true) k.Joining
  zero : ∀ t, k.taskSlotsUsed t = false → k.tasks t = {}
  noCrash : NoCrash k
  initialized : k.taskManagerInitialized = true
  mapped : StacksMapped k
  stack : ∀ t, k.taskSlotsUsed t = true → k.OwnStack t

/-! ### Sections and runs -/

/-- What a section of the manager did. -/
inductive ManagerEvent
  /-- A task was created, with its id, or refused. -/
  | create (tid : Option TaskId)
  /-- A task ended; `waiter` is the parent whose join it ended. -/
  | finish (t : TaskRef) (tid : TaskId) (detached : Bool) (waiter : Option TaskRef)
  /-- A task waited; `child` is the key of the child that was found. -/
  | wait (t : TaskRef) (tid : Word) (result : WaitResult) (child : Option TaskId)
  | detach (t : TaskRef)
  | other

/-- The key of the child that `wait_task` finds. -/
def Kernel.awaited (k : Kernel) (t : TaskRef) (tid : Word) : Option TaskId :=
  (k.tasks t).tracker.bind fun r =>
    (k.findChildLocked r tid).value.join.map fun c => (k.trackers c).key

/-- One section of the manager, or other code.  A section is entered for the current
task of a hart, which exists and is not blocked. -/
inductive ManagerStep (k : Kernel) : ManagerEvent → Kernel → Prop
  | create {h : HartIndex} {entry argument : Word} {space : AddressSpace} {owner : HartIndex}
      {kernelParent idle withStack : Bool} {child : Option TaskRef} {k' : Kernel} :
      (kernelParent = false → ∀ t, (k.harts h).currentTask = some t →
        k.taskSlotsUsed t = true) →
      k.createTaskLocked h entry argument space owner kernelParent idle withStack =
        .ok child k' →
      ManagerStep k (.create (child.map fun t => (k'.tasks t).tid)) k'
  -- The woken parent is put on a run queue before the slot is released.
  | finish {t : TaskRef} {value : Word} {waiter : Option TaskRef} {k1 k2 k' : Kernel} :
      k.taskSlotsUsed t = true → ¬ k.Joining t →
      k.endTaskLocked t value .exitedClean = .ok waiter k1 → SameManager k1 k2 →
      k2.releaseTaskLocked t = .ok () k' →
      ManagerStep k (.finish t (k.tasks t).tid (k.tasks t).detached waiter) k'
  | wait {t : TaskRef} {tid : Word} {result : WaitResult} {k' : Kernel} :
      k.taskSlotsUsed t = true → ¬ k.Joining t → k.waitTaskLocked t tid = .ok result k' →
      ManagerStep k (.wait t tid result (k.awaited t tid)) k'
  | detach {t : TaskRef} : k.taskSlotsUsed t = true →
      ManagerStep k (.detach t) (k.detachTaskLocked t).2
  | other {k' : Kernel} : SameManager k k' → ManagerStep k .other k'

/-- The runs of the manager: `initialize`, and then one section after the other. -/
inductive ManagerRun : List ManagerEvent → Kernel → Prop
  | start {k0 k : Kernel} : k0.taskManagerInitialized = false →
      k0.initializeTaskManager = (true, k) → ManagerRun [] k
  | step {events : List ManagerEvent} {event : ManagerEvent} {k k' : Kernel} :
      ManagerRun events k → ManagerStep k event k' → ManagerRun (events ++ [event]) k'

/-! ### What the invariant rests on -/

/-- In a well-formed table the joined tasks are those whose tracker waits. -/
theorem TrackerInv.joined_iff {X : TrackerRef → Prop} {joined : TaskRef → Prop}
    (h : TrackerInv k X (fun t => k.taskSlotsUsed t = true) joined) (t : TaskRef) :
    joined t ↔ k.Joining t := by
  constructor
  · intro hj
    obtain ⟨hl, hact⟩ := h.joins hj
    obtain ⟨r, hr, _⟩ := h.ofTask hl
    exact ⟨hl, r, hr, hact r hr⟩
  · rintro ⟨hl, r, hr, hact⟩
    obtain ⟨hused, htask, _⟩ := h.tracked hl hr
    obtain ⟨t', ht', hj⟩ := h.waiting hused hact
    rw [htask] at ht'
    cases ht'
    exact hj

/-- The table part of the invariant, for whatever stands for the tasks of the manager. -/
theorem TrackerInv.manager {live joined : TaskRef → Prop}
    (h : TrackerInv k (fun _ => False) live joined)
    (hlive : ∀ t, k.taskSlotsUsed t = true ↔ live t) :
    TrackerInv k (fun _ => False) (fun t => k.taskSlotsUsed t = true) k.Joining := by
  have h' : TrackerInv k (fun _ => False) (fun t => k.taskSlotsUsed t = true) joined :=
    h.congr rfl rfl rfl (fun _ _ => ⟨rfl, rfl⟩) hlive fun _ => Iff.rfl
  exact h'.congr rfl rfl rfl (fun _ _ => ⟨rfl, rfl⟩) (fun _ => Iff.rfl)
    fun t => (h'.joined_iff t).symm

theorem Kernel.OwnStack.congr (h : k.OwnStack t) (hb : k'.bootSide = k.bootSide)
    (hid : (k'.tasks t).identity = (k.tasks t).identity) : k'.OwnStack t := by
  simp only [bootSide, Task.identity, Prod.mk.injEq] at hb hid
  rw [Kernel.OwnStack, hb.1, hid.2.2.2.1, hid.2.2.2.2]
  exact h

namespace SameManager

theorem refl (k : Kernel) : SameManager k k :=
  ⟨rfl, rfl, rfl, rfl, rfl, rfl, fun _ => rfl, fun _ _ => rfl⟩

theorem link (h : SameManager k k') (t : TaskRef) :
    (k'.tasks t).tracker = (k.tasks t).tracker ∧ (k'.tasks t).tid = (k.tasks t).tid := by
  have hid := h.task t
  simp only [Task.identity, Prod.mk.injEq] at hid
  exact ⟨hid.2.1, hid.1⟩

theorem trackerInv (h : SameManager k k') {X : TrackerRef → Prop} {live joined : TaskRef → Prop}
    (hinv : TrackerInv k X live joined) : TrackerInv k' X live joined :=
  hinv.congr h.trackers h.trackerSlots h.rootTasks (fun t _ => h.link t) (fun _ => Iff.rfl)
    fun _ => Iff.rfl

end SameManager

/-- Other code keeps the invariant. -/
theorem ManagerInv.sameManager (h : ManagerInv k) (hs : SameManager k k') : ManagerInv k' where
  table := (hs.trackerInv h.table).manager fun t => by rw [hs.taskSlots]
  zero t ht := by
    rw [hs.taskSlots] at ht
    rw [hs.free t ht]
    exact h.zero t ht
  noCrash c hc := by
    rw [hs.trackerSlots] at hc
    rw [hs.trackers]
    exact h.noCrash c hc
  initialized := (congrArg (·.2.2.2) hs.boot).trans h.initialized
  mapped := h.mapped.congr hs.boot
  stack t ht := by
    rw [hs.taskSlots] at ht
    exact (h.stack t ht).congr hs.boot (hs.task t)

/-! ### initialize -/

theorem mapBootTaskStack_true {base size : Word} (h : k.mapBootTaskStack base size = (true, k')) :
    k.vmmInitialized = true ∧ base % 4096 = 0 ∧ base ∈ k'.mappedStackBases ∧
      ∃ bases, k' = { k with mappedStackBases := k.mappedStackBases ++ bases } := by
  rw [mapBootTaskStack] at h
  split at h
  · cases h
  rename_i hcheck
  simp only [Bool.or_eq_true, Bool.not_eq_true', not_or, Bool.not_eq_false, bne_iff_ne,
    ne_eq, not_not] at hcheck
  obtain ⟨⟨⟨hvmm, -⟩, halign⟩, -⟩ := hcheck
  split at h
  · rename_i hmem
    cases h
    exact ⟨hvmm, halign, List.contains_iff_mem.mp hmem, [], by rw [List.append_nil]⟩
  · split at h
    · cases h
    · split at h
      · cases h
      · cases h
        exact ⟨hvmm, halign, List.mem_append_right _ List.mem_cons_self, _, rfl⟩

/-- The mapping loop, when it succeeds, has mapped every stack of the list. -/
theorem mapTaskStacks_true {l : List TaskRef} (h : mapTaskStacks l k = (true, k')) :
    (∃ bases, k' = { k with mappedStackBases := k.mappedStackBases ++ bases }) ∧
      ∀ t ∈ l, k.vmmInitialized = true ∧ k.platform.taskStacks t % 4096 = 0 ∧
        k.platform.taskStacks t ∈ k'.mappedStackBases := by
  induction l generalizing k with
  | nil =>
    cases h
    exact ⟨⟨[], by rw [List.append_nil]⟩, fun t ht => absurd ht List.not_mem_nil⟩
  | cons t rest ih =>
    rw [mapTaskStacks] at h
    split at h
    · cases h
    · rename_i k1 hmap
      obtain ⟨hvmm, halign, hmem, bases, rfl⟩ := mapBootTaskStack_true hmap
      obtain ⟨⟨bases', rfl⟩, hrest⟩ := ih h
      refine ⟨⟨bases ++ bases', by simp only [List.append_assoc]⟩, fun u hu => ?_⟩
      rcases List.mem_cons.mp hu with rfl | hu
      · exact ⟨hvmm, halign, List.mem_append_left _ hmem⟩
      · exact hrest u hu

/-- An empty table is well formed. -/
theorem trackerInv_of_empty (htr : k.trackers = fun _ => {})
    (hu : k.trackerSlotsUsed = fun _ => false) (hroot : k.rootTasks = none) :
    TrackerInv k (fun _ => False) (fun _ => False) fun _ => False := by
  have hz : Zeroed { platform := k.platform } :=
    ⟨fun _ => rfl, fun _ => rfl, fun _ => rfl, fun _ => rfl, rfl, fun _ => rfl, fun _ => rfl,
      rfl, rfl, fun _ => rfl, fun _ => ⟨rfl, rfl, rfl⟩⟩
  refine hz.trackerInv.congr htr hu hroot (fun t ht => ?_) (fun t => ?_) fun _ => Iff.rfl
  · obtain ⟨p, hp, -⟩ := ht
    cases hp
  · refine ⟨False.elim, fun ht => ?_⟩
    obtain ⟨p, hp, -⟩ := ht
    cases hp

theorem initializeTaskManager_inv (hinit : k.taskManagerInitialized = false)
    (h : k.initializeTaskManager = (true, k')) : ManagerInv k' := by
  rw [initializeTaskManager, if_neg (by simp [hinit])] at h
  simp only at h
  split at h
  · cases h
  rename_i k1 hmap
  obtain ⟨⟨bases, rfl⟩, hall⟩ := mapTaskStacks_true hmap
  cases h
  have hstack := fun t => hall t (List.mem_finRange t)
  refine ⟨(trackerInv_of_empty rfl rfl rfl).manager fun t => ?_, fun _ _ => rfl, fun c hc => ?_,
    rfl, ⟨(hstack 0).1, fun t => (hstack t).2.1, fun t => (hstack t).2.2⟩, fun t ht => ?_⟩
  · exact iff_of_false Bool.false_ne_true id
  · cases hc
  · cases ht

/-! ### The sections -/

theorem SameOutside.boot (h : SameOutside k k') : k'.bootSide = k.bootSide := by
  rw [h]
  rfl

theorem SameOutside.taskSlots (h : SameOutside k k') : k'.taskSlotsUsed = k.taskSlotsUsed := by
  rw [h]

theorem SameOutside.nextTid (h : SameOutside k k') : k'.nextTid = k.nextTid := by
  rw [h]

/-- Rebuild the invariant after a section that keeps the tasks that stay. -/
theorem ManagerInv.rebuild (h : ManagerInv k) (joined : TaskRef → Prop)
    (htable : TrackerInv k' (fun _ => False) (fun t => k'.taskSlotsUsed t = true) joined)
    (hcrash : NoCrash k') (hboot : k'.bootSide = k.bootSide)
    (hkept : ∀ t, k'.taskSlotsUsed t = true → k.taskSlotsUsed t = true ∧
      (k'.tasks t).identity = (k.tasks t).identity)
    (hfree : ∀ t, k'.taskSlotsUsed t = false → k'.tasks t = {}) : ManagerInv k' where
  table := htable.manager fun _ => Iff.rfl
  zero := hfree
  noCrash := hcrash
  initialized := (congrArg (·.2.2.2) hboot).trans h.initialized
  mapped := h.mapped.congr hboot
  stack t ht := (h.stack t (hkept t ht).1).congr hboot (hkept t ht).2

theorem releaseTaskLocked_ok (h : k.releaseTaskLocked t = .ok () k') : k' = k.freed t := by
  rw [releaseTaskLocked] at h
  split at h
  · cases h
  · split at h
    · cases h
    · cases h
      rfl

/-- The section of `wait_task` leaves the identity of the tasks and the free slots. -/
theorem WaitCase.task {tid : Word} {result : WaitResult} (hc : WaitCase k t r tid result k')
    (u : TaskRef) : (k'.tasks u).identity = (k.tasks u).identity ∧
      (u ≠ t → k'.tasks u = k.tasks u) := by
  obtain ⟨hother, hself⟩ := hc.tasks
  by_cases hu : u = t
  · rw [hu]
    refine ⟨?_, fun hne => absurd rfl hne⟩
    cases result with
    | noChild => exact congrArg _ hself
    | completed =>
      obtain ⟨value, hvalue⟩ := hself
      rw [hvalue]
      rfl
    | blocked =>
      rw [show k'.tasks t = _ from hself]
      rfl
  · exact ⟨congrArg _ (hother u hu), fun _ => hother u hu⟩

/-- So does the section of `end_task`. -/
theorem EndCase.task {value : Word} {status : ExitStatus} {waiter : Option TaskRef}
    (hc : EndCase k t r value status (.ok waiter k')) (u : TaskRef) :
    (k'.tasks u).identity = (k.tasks u).identity ∧
      (waiter ≠ some u → k'.tasks u = k.tasks u) := by
  have htasks := hc.tasks
  cases waiter with
  | none => exact ⟨by rw [htasks], fun _ => by rw [htasks]⟩
  | some w =>
    simp only at htasks
    rw [htasks, setReg, modifyTask_tasks]
    by_cases hu : u = w
    · rw [hu, update_self]
      exact ⟨rfl, fun hne => absurd rfl hne⟩
    · rw [update_of_ne hu]
      exact ⟨rfl, fun _ => rfl⟩

/-- A woken parent exists. -/
theorem EndCase.waiter_used {live joined : TaskRef → Prop}
    (h : TrackerInv k (fun _ => False) live joined) (hl : live t)
    (hr : (k.tasks t).tracker = some r) {value : Word} {status : ExitStatus} {w : TaskRef}
    (hc : EndCase k t r value status (.ok (some w) k')) : live w := by
  obtain ⟨rank, kids, hf⟩ := h.forest
  obtain ⟨hused, _⟩ := h.tracked hl hr
  cases hc with
  | woken _ hp _ _ hw _ => exact (h.ofTracker (hf.parent_used hused id hp) hw).1

/-- The section of `create_task`, as its callers see it: it returns, and takes one of
the two branches. -/
theorem ManagerInv.create (h : ManagerInv k) {hart : HartIndex} {kernelParent : Bool}
    (hcur : kernelParent = false → ∀ t, (k.harts hart).currentTask = some t →
      k.taskSlotsUsed t = true)
    (entry argument : Word) (space : AddressSpace) (owner : HartIndex) (idle withStack : Bool) :
    ∃ child k', k.createTaskLocked hart entry argument space owner kernelParent idle withStack =
      .ok child k' ∧ CreateCase k hart entry argument space owner idle withStack
        (k.creator hart kernelParent) child k' ∧ k'.bootSide = k.bootSide := by
  obtain ⟨child, k', hrun, hcase⟩ := createTaskLocked_cases h.table h.zero (fun _ ht => ht) hcur
    entry argument space owner idle withStack
  have hkeeps := createTaskLocked_keepsBoot (h := hart) entry argument space owner kernelParent
    idle withStack h.mapped
  rw [hrun] at hkeeps
  exact ⟨child, k', hrun, hcase, congrArg Prod.fst hkeeps⟩

theorem newTask_ownStack (h : HartIndex) (t : TaskRef) (r : TrackerRef) (entry argument : Word)
    (space : AddressSpace) (owner : HartIndex) (idle withStack : Bool)
    (hb : k'.bootSide = k.bootSide)
    (ht : k'.tasks t = newTask k h t r entry argument space owner idle withStack) :
    k'.OwnStack t := by
  simp only [bootSide, Prod.mk.injEq] at hb
  rw [Kernel.OwnStack, ht, hb.1]
  cases withStack with
  | true => exact .inr ⟨rfl, rfl⟩
  | false => exact .inl ⟨rfl, rfl⟩

theorem CreateCase.managerInv (h : ManagerInv k) {hart : HartIndex} {kernelParent : Bool}
    (hcur : kernelParent = false → ∀ t, (k.harts hart).currentTask = some t →
      k.taskSlotsUsed t = true)
    {entry argument : Word} {space : AddressSpace} {owner : HartIndex} {idle withStack : Bool}
    {child : Option TaskRef} (hc : CreateCase k hart entry argument space owner idle withStack
      (k.creator hart kernelParent) child k') (hboot : k'.bootSide = k.bootSide) :
    ManagerInv k' := by
  have htable := hc.inv h.table (fun _ ht => ht) hcur
  have hcrash := hc.noCrash h.noCrash
  cases hc with
  | refused => exact h
  | @created t r bases htu hru =>
    set k1 := k.born t r (newTask k hart t r entry argument space owner idle withStack)
      (newTracker k t entry) bases
    have hused : ∀ u, u ≠ t →
        (k1.adopted r (k.creator hart kernelParent)).taskSlotsUsed u = k.taskSlotsUsed u :=
      fun u hu => update_of_ne hu ..
    have hnew : (k1.adopted r (k.creator hart kernelParent)).taskSlotsUsed t = true :=
      update_self ..
    have hold : ∀ u, u ≠ t →
        (k1.adopted r (k.creator hart kernelParent)).tasks u = k.tasks u :=
      fun u hu => update_of_ne hu ..
    refine ⟨htable.manager fun u => ?_, fun u hu => ?_, hcrash,
      (congrArg (·.2.2.2) hboot).trans h.initialized, h.mapped.congr hboot, fun u hu => ?_⟩
    · by_cases hut : u = t
      · rw [hut]
        exact iff_of_true hnew (.inr rfl)
      · rw [hused u hut, Option.some.injEq]
        exact (or_iff_left (Ne.symm hut)).symm
    · have hut : u ≠ t := by
        rintro rfl
        rw [hnew] at hu
        cases hu
      rw [hused u hut] at hu
      rw [hold u hut]
      exact h.zero u hu
    · by_cases hut : u = t
      · rw [hut]
        exact newTask_ownStack hart t r entry argument space owner idle withStack hboot
          (update_self ..)
      · rw [hused u hut] at hu
        exact (h.stack u hu).congr hboot (congrArg _ (hold u hut))

theorem WaitCase.managerInv (h : ManagerInv k) (ht : k.taskSlotsUsed t = true)
    (hr : (k.tasks t).tracker = some r) {tid : Word} {result : WaitResult}
    (hc : WaitCase k t r tid result k') : ManagerInv k' := by
  have hslots := hc.sameOutside.taskSlots
  refine h.rebuild (nowJoined k.Joining t result) ?_ (hc.noCrash h.noCrash) hc.sameOutside.boot
    (fun u hu => ?_) fun u hu => ?_
  · rw [hslots]
    exact hc.inv h.table ht hr
  · rw [hslots] at hu
    exact ⟨hu, (hc.task u).1⟩
  · rw [hslots] at hu
    have hut : u ≠ t := by
      rintro rfl
      rw [ht] at hu
      cases hu
    rw [(hc.task u).2 hut]
    exact h.zero u hu

/-- The end of a task: its exit is recorded, the slot is released. -/
theorem EndCase.managerInv (h : ManagerInv k) (ht : k.taskSlotsUsed t = true)
    (hj : ¬ k.Joining t) (hr : (k.tasks t).tracker = some r) {value : Word}
    {waiter : Option TaskRef} {k1 k2 : Kernel}
    (hc : EndCase k t r value .exitedClean (.ok waiter k1)) (hs : SameManager k1 k2)
    (hrel : k2.releaseTaskLocked t = .ok () k') : ManagerInv k' := by
  rw [releaseTaskLocked_ok hrel]
  have hslots : k2.taskSlotsUsed = k.taskSlotsUsed := hs.taskSlots.trans hc.sameOutside.taskSlots
  have hused : ∀ u, (k2.freed t).taskSlotsUsed u = true ↔ k.taskSlotsUsed u = true ∧ u ≠ t := by
    intro u
    rw [freed_taskSlotsUsed, hslots]
    by_cases hut : u = t
    · simp [hut]
    · simp [hut]
  have hold : ∀ u, u ≠ t → (k2.freed t).tasks u = k2.tasks u :=
    fun u hu => update_of_ne hu ..
  obtain ⟨waiter', k1', hout, hcrash⟩ := hc.clean h.noCrash
  cases hout
  have htable := hs.trackerInv (hc.inv h.table ht hj hr)
  refine h.rebuild (stillJoined k.Joining waiter) ?_ (fun c hcu => ?_) ?_
    (fun u hu => ?_) fun u hu => ?_
  · refine htable.congr rfl rfl rfl (fun u hu => ?_) hused fun _ => Iff.rfl
    rw [hold u hu.2]
    exact ⟨rfl, rfl⟩
  · rw [show (k2.freed t).trackerSlotsUsed = k2.trackerSlotsUsed from rfl, hs.trackerSlots] at hcu
    rw [show (k2.freed t).trackers = k2.trackers from rfl, hs.trackers]
    exact hcrash c hcu
  · exact hs.boot.trans hc.sameOutside.boot
  · obtain ⟨hu, hut⟩ := (hused u).mp hu
    rw [hold u hut]
    exact ⟨hu, (hs.task u).trans (hc.task u).1⟩
  · by_cases hut : u = t
    · rw [hut]
      exact update_self ..
    · have hfree : k.taskSlotsUsed u = false := by
        rw [Bool.eq_false_iff]
        intro hku
        rw [(hused u).mpr ⟨hku, hut⟩] at hu
        cases hu
      have hne : waiter ≠ some u := by
        rintro rfl
        rw [hc.waiter_used h.table ht hr] at hfree
        cases hfree
      rw [hold u hut, hs.free u (by rw [hc.sameOutside.taskSlots, hfree]), (hc.task u).2 hne]
      exact h.zero u hfree

/-- The section of `detach_task` marks the task. -/
theorem detachTaskLocked_cases (k : Kernel) (t : TaskRef) : (k.detachTaskLocked t).2 = k ∨
    (k.detachTaskLocked t).2 = k.modifyTask t fun task => { task with detached := true } := by
  rw [detachTaskLocked]
  split
  · exact .inl rfl
  · exact .inr rfl

theorem ManagerInv.detach (h : ManagerInv k) (ht : k.taskSlotsUsed t = true) :
    ManagerInv (k.detachTaskLocked t).2 := by
  rcases detachTaskLocked_cases k t with heq | heq
  · rw [heq]
    exact h
  rw [heq]
  set k' := k.modifyTask t fun task => { task with detached := true }
  have hold : ∀ u, u ≠ t → k'.tasks u = k.tasks u := fun u hu => update_of_ne hu ..
  have hself : k'.tasks t = { k.tasks t with detached := true } := update_self ..
  have htable : TrackerInv k' (fun _ => False) (fun t => k'.taskSlotsUsed t = true) k.Joining := by
    refine h.table.congr rfl rfl rfl (fun u _ => ?_) (fun _ => Iff.rfl) fun _ => Iff.rfl
    by_cases hut : u = t
    · rw [hut, hself]
      exact ⟨rfl, rfl⟩
    · rw [hold u hut]
      exact ⟨rfl, rfl⟩
  refine ⟨htable.manager fun _ => Iff.rfl, fun u hu => ?_, h.noCrash, h.initialized,
    h.mapped.congr rfl, fun u hu => ?_⟩
  · have hut : u ≠ t := fun hut => Bool.noConfusion (hu.symm.trans (hut ▸ ht))
    rw [hold u hut]
    exact h.zero u hu
  · by_cases hut : u = t
    · rw [Kernel.OwnStack, hut, hself]
      exact h.stack t ht
    · rw [Kernel.OwnStack, hold u hut]
      exact h.stack u hu

/-! ### Every run keeps the invariant -/

/-- The section of `end_task` of a task that exists and is not blocked. -/
theorem ManagerInv.endCase (h : ManagerInv k) (ht : k.taskSlotsUsed t = true)
    (hj : ¬ k.Joining t) (value : Word) : ∃ r, (k.tasks t).tracker = some r ∧
      EndCase k t r value .exitedClean (k.endTaskLocked t value .exitedClean) := by
  obtain ⟨r, hr, -⟩ := h.table.ofTask ht
  exact ⟨r, hr, endTaskLocked_cases h.table ht hj hr value .exitedClean⟩

/-- The section of `wait_task`. -/
theorem ManagerInv.waitCase (h : ManagerInv k) (ht : k.taskSlotsUsed t = true) {tid : Word}
    {result : WaitResult} (hrun : k.waitTaskLocked t tid = .ok result k') :
    ∃ r, (k.tasks t).tracker = some r ∧ WaitCase k t r tid result k' := by
  obtain ⟨r, hr, -⟩ := h.table.ofTask ht
  obtain ⟨result', k1, hrun', hcase⟩ := waitTaskLocked_cases h.table hr tid
  rw [hrun] at hrun'
  cases hrun'
  exact ⟨r, hr, hcase⟩

/-- **One step**: every section of the manager keeps the invariant. -/
theorem ManagerStep.inv {event : ManagerEvent} (h : ManagerInv k)
    (hs : ManagerStep k event k') : ManagerInv k' := by
  cases hs with
  | @create hart entry argument space owner kernelParent idle withStack child _ hcur hrun =>
    obtain ⟨child', k1, hrun', hcase, hboot⟩ := h.create hcur entry argument space owner idle
      withStack
    rw [hrun] at hrun'
    cases hrun'
    exact hcase.managerInv h hcur hboot
  | finish ht hj hend hs hrel =>
    obtain ⟨r, hr, hcase⟩ := h.endCase ht hj _
    rw [hend] at hcase
    exact hcase.managerInv h ht hj hr hs hrel
  | wait ht _ hrun =>
    obtain ⟨r, hr, hcase⟩ := h.waitCase ht hrun
    exact hcase.managerInv h ht hr
  | detach ht => exact h.detach ht
  | other hs => exact h.sameManager hs

/-- **Every run**: the invariant holds in every reachable state of the manager. -/
theorem ManagerRun.inv {events : List ManagerEvent} (h : ManagerRun events k) : ManagerInv k := by
  induction h with
  | start hinit hrun => exact initializeTaskManager_inv hinit hrun
  | step _ hs ih => exact hs.inv ih

end Jixia
