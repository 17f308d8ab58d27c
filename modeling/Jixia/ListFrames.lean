/-
The actions that leave the lists alone.

`Steady k k'` says that an action leaves the run queues, the endpoints and the ids of the
tasks in their lists alone; every action does so, except for the sections that change a list
(`isListed`), the birth and the end of a task.

* `exec_steady` — the actions that leave the lists alone;
* `create_frame`, `release_frame` — a task is born and freed outside of all lists.
-/
import Jixia.SchedulingFrame
import Jixia.TaskSpecs

namespace Jixia

open Function Kernel

variable {legal : Prop} {h : HartIndex} {k k' : Kernel} {loc : Loc} {t : TaskRef} {β : Type}

/-! ### Steady actions -/

/-- The links of a task record and its id are the same; those of the delay queue may differ. -/
structure SameNodes (task task' : Task) : Prop where
  messageWait : task'.messageWait = task.messageWait
  queued : task'.queued = task.queued
  previous : task'.previous = task.previous
  next : task'.next = task.next
  tid : task'.tid = task.tid

theorem SameNodes.refl (task : Task) : SameNodes task task := ⟨rfl, rfl, rfl, rfl, rfl⟩

/-- Run queues, endpoints, slots and ids are the same. -/
structure Steady (k k' : Kernel) : Prop where
  runQueues : k'.runQueues = k.runQueues
  endpoints : k'.endpoints = k.endpoints
  slotAllocated : k'.slotAllocated = k.slotAllocated
  used : k'.taskSlotsUsed = k.taskSlotsUsed
  nextTid : k'.nextTid = k.nextTid
  task : ∀ t, SameNodes (k.tasks t) (k'.tasks t)

namespace Steady

theorem refl (k : Kernel) : Steady k k := ⟨rfl, rfl, rfl, rfl, rfl, fun _ => .refl _⟩

theorem of_tasks (hout : SameOutside k k') (htask : ∀ t, SameNodes (k.tasks t) (k'.tasks t)) :
    Steady k k' := by
  refine ⟨?_, ?_, ?_, ?_, ?_, htask⟩ <;> rw [hout]

theorem modifyTask (t : TaskRef) {f : Task → Task} (hf : ∀ task, SameNodes task (f task)) :
    Steady k (k.modifyTask t f) := by
  refine ⟨rfl, rfl, rfl, rfl, rfl, fun u => ?_⟩
  by_cases hu : u = t
  · subst hu
    rw [modifyTask_tasks, update_self]
    exact hf _
  · rw [modifyTask_tasks, update_of_ne hu]
    exact .refl _

theorem modifyHart (h : HartIndex) (f : HartLocal → HartLocal) : Steady k (k.modifyHart h f) :=
  ⟨rfl, rfl, rfl, rfl, rfl, fun _ => .refl _⟩

theorem setLock (l : Lock) (holder : Option HartIndex) : Steady k (k.setLock l holder) :=
  ⟨rfl, rfl, rfl, rfl, rfl, fun _ => .refl _⟩

end Steady

/-- The sections that change a run queue or an endpoint. -/
def isListed : {β : Type} → Action β → Bool
  | _, .runQueueInsert _ _ | _, .runQueueRemove _ | _, .createEndpointLocked _ _
  | _, .destroyEndpointLocked _ _ | _, .destroyPop _ | _, .sendLocked _ _ _
  | _, .tryRecvLocked _ | _, .recvLocked _ _ => true
  | _, _ => false

/-- The actions that leave the lists and the task slots alone. -/
def isSteady : {β : Type} → Action β → Bool
  | _, .createTaskLocked _ _ _ _ _ _ _ | _, .releaseTaskLocked _ => false
  | _, a => !isListed a

theorem delayQueueInsert_steady (hi : Inv legal k loc) {q : HartIndex} {deadline : Word} {b : Bool}
    (hx : k.delayQueueInsert q t deadline = .ok b k') : Steady k k' := by
  obtain ⟨d, hd, -⟩ := hi.queues.delay
  by_cases ht : ((k.tasks t).delay.queued || (k.tasks t).queued ||
      (k.tasks t).state == .ended) = true
  · rw [DelayLists.delayQueueInsert_refused ht] at hx
    cases hx
    exact .refl k
  · rw [hd.delayQueueInsert_eq (Bool.eq_false_iff.mpr ht)] at hx
    cases hx
    exact ⟨rfl, rfl, rfl, rfl, rfl, fun _ => ⟨rfl, rfl, rfl, rfl, rfl⟩⟩

theorem delayQueueRemoveExpired_steady (hi : Inv legal k loc) (q : HartIndex) (now : Word) :
    Steady k (k.delayQueueRemoveExpired q now).2 := by
  obtain ⟨d, hd, -⟩ := hi.queues.delay
  cases hq : d q with
  | nil =>
    rw [hd.delayQueueRemoveExpired_nil hq]
    exact .refl k
  | cons t rest =>
    rw [hd.delayQueueRemoveExpired_cons hq]
    split
    · exact .refl k
    · exact ⟨rfl, rfl, rfl, rfl, rfl, fun _ => ⟨rfl, rfl, rfl, rfl, rfl⟩⟩

theorem endTaskLocked_steady (hi : Inv legal k loc) (hown : loc t = some (.own h))
    {returnValue : Word} {status : ExitStatus} {waiter : Option TaskRef}
    (hx : k.endTaskLocked t returnValue status = .ok waiter k') : Steady k k' := by
  have hlive := Inv.live_of_own hown
  have hjoin : ¬ loc t = some .join := by
    rw [hown]
    exact fun hj => Place.noConfusion (Option.some.inj hj)
  obtain ⟨r, hr, -⟩ := hi.tracker.ofTask hlive
  have hcase := endTaskLocked_cases hi.tracker hlive hjoin hr returnValue status
  rw [hx] at hcase
  refine .of_tasks hcase.sameOutside fun u => ?_
  rw [hcase.tasks]
  cases waiter with
  | none => exact .refl _
  | some w =>
    have hreg : Steady k (k.setReg w 10 (k.tasks t).tid) :=
      .modifyTask w fun _ => ⟨rfl, rfl, rfl, rfl, rfl⟩
    exact hreg.task u

theorem waitTaskLocked_steady (hi : Inv legal k loc) (hown : loc t = some (.own h)) {tid : Word}
    {result : WaitResult} (hx : k.waitTaskLocked t tid = .ok result k') : Steady k k' := by
  obtain ⟨r, hr, -⟩ := hi.tracker.ofTask (Inv.live_of_own hown)
  obtain ⟨result', k1, hx', hcase⟩ := waitTaskLocked_cases hi.tracker hr tid
  rw [hx] at hx'
  cases hx'
  refine .of_tasks hcase.sameOutside fun u => ?_
  obtain ⟨hother, hself⟩ := hcase.tasks
  by_cases hu : u = t
  · rw [hu]
    cases result with
    | noChild =>
      rw [show k'.tasks t = k.tasks t from hself]
      exact .refl _
    | completed =>
      obtain ⟨value, hself⟩ := hself
      rw [hself]
      exact ⟨rfl, rfl, rfl, rfl, rfl⟩
    | blocked =>
      rw [show k'.tasks t = _ from hself]
      exact ⟨rfl, rfl, rfl, rfl, rfl⟩
  · rw [hother u hu]
    exact .refl _

/-- **The actions that leave the lists alone.** -/
theorem exec_steady {a : Action β} {b : β} (ha : isSteady a = true) (hi : Inv legal k loc)
    (hpre : Pre h a k loc) (hx : exec h a k = .ok b k') : Steady k k' := by
  cases a <;> cases ha
  all_goals simp only [exec, Outcome.total] at hx
  case acquire l =>
    rw [acquire] at hx
    split at hx <;> cases hx
    exact .setLock ..
  case scheduler u | yieldScheduler u _ =>
    rcases schedulerOf_cases k u with heq | heq <;> cases heq.symm.trans hx
    exact .refl k
  case saveCurrentContext =>
    rw [saveCurrentContext] at hx
    split at hx <;> cases hx
    exact .modifyTask _ fun _ => ⟨rfl, rfl, rfl, rfl, rfl⟩
  case restoreCurrentContext =>
    rw [restoreCurrentContext] at hx
    split at hx <;> cases hx
    exact .modifyHart ..
  case setCurrentTask u =>
    rw [setCurrentTask] at hx
    simp only at hx
    split at hx <;> cases hx
    have htask : Steady k
        (k.modifyTask u fun task => { task with cpu := some h, state := .running }) :=
      .modifyTask u fun _ => ⟨rfl, rfl, rfl, rfl, rfl⟩
    exact ⟨htask.runQueues, htask.endpoints, htask.slotAllocated, htask.used, htask.nextTid,
      htask.task⟩
  case delayQueueInsert => exact delayQueueInsert_steady hi hx
  case endTaskLocked => exact endTaskLocked_steady hi hpre hx
  case waitTaskLocked => exact waitTaskLocked_steady hi hpre hx
  all_goals cases hx
  case release l => exact .setLock ..
  case delayQueueRemoveExpired q now => exact delayQueueRemoveExpired_steady hi q now
  case detachTaskLocked u =>
    rw [detachTaskLocked]
    split
    · exact .refl k
    · have hdetach : Steady k (k.modifyTask u fun task => { task with detached := true }) :=
        .modifyTask u fun _ => ⟨rfl, rfl, rfl, rfl, rfl⟩
      exact hdetach
  all_goals first
    | exact .refl k
    | exact .modifyHart ..
    | exact .modifyTask _ fun _ => ⟨rfl, rfl, rfl, rfl, rfl⟩

/-! ### Birth and end of a task -/

theorem linkTrackerLocked_outside (k : Kernel) (r : TrackerRef) (p : Option TrackerRef) :
    ∃ trackers roots, k.linkTrackerLocked r p =
      { k with trackers := trackers, rootTasks := roots } := by
  rw [linkTrackerLocked]
  split
  · cases p with
    | none => exact ⟨_, _, rfl⟩
    | some q => exact ⟨_, _, rfl⟩
  · cases p with
    | none => exact ⟨_, _, rfl⟩
    | some q => exact ⟨_, _, rfl⟩

/-- Where a tracker is linked makes no difference outside of the tracker table. -/
theorem linkTrackerLocked_parent (k : Kernel) (r : TrackerRef) (p p' : Option TrackerRef) :
    ∃ trackers roots, k.linkTrackerLocked r p =
      { k.linkTrackerLocked r p' with trackers := trackers, rootTasks := roots } := by
  obtain ⟨trackers, roots, h⟩ := linkTrackerLocked_outside k r p
  obtain ⟨trackers', roots', h'⟩ := linkTrackerLocked_outside k r p'
  exact ⟨trackers, roots, by rw [h, h']⟩

/-- The parent of a new task makes no difference outside of the tracker table. -/
theorem createTaskLocked_root {k k' : Kernel} {h owner : HartIndex} {entry argument : Word}
    {space : AddressSpace} {kernelParent idle withStack : Bool} {child : Option TaskRef}
    (hx : k.createTaskLocked h entry argument space owner kernelParent idle withStack =
      .ok child k') :
    ∃ k1 trackers roots, k.createTaskLocked h entry argument space owner true idle withStack =
      .ok child k1 ∧ k' = { k1 with trackers := trackers, rootTasks := roots } := by
  rw [createTaskLocked] at hx ⊢
  split
  · rw [if_pos ‹_›] at hx
    cases hx
    exact ⟨_, _, _, rfl, rfl⟩
  · rw [if_neg ‹_›] at hx
    cases hA : k.allocateTaskLocked with
    | mk task k1 =>
      cases hB : k1.allocateTrackerLocked with
      | mk tracker k2 =>
        simp only [hA, hB] at hx ⊢
        cases task with
        | none => cases tracker <;> exact ⟨_, _, _, hx, rfl⟩
        | some t =>
          cases tracker with
          | none => exact ⟨_, _, _, hx, rfl⟩
          | some r =>
            -- The stack is mapped, or none is wanted.
            obtain ⟨mapped, k3, hmap⟩ : ∃ mapped k3, (if withStack = true then
                k2.mapBootTaskStack (if withStack = true then k2.platform.taskStacks t else 0)
                  kTaskStackSize else (true, k2)) = (mapped, k3) := ⟨_, _, rfl⟩
            simp only [hmap] at hx ⊢
            cases mapped with
            | false => exact ⟨_, _, _, hx, rfl⟩
            | true =>
              simp only [Bool.not_true, if_neg Bool.false_ne_true] at hx ⊢
              cases hx
              obtain ⟨trackers, roots, hl⟩ := linkTrackerLocked_parent _ r _ none
              exact ⟨_, trackers, roots, rfl, hl⟩

/-- Everything is steady but for one slot, which is in no list. -/
structure SlotFrame (k k' : Kernel) (t : TaskRef) : Prop where
  runQueues : k'.runQueues = k.runQueues
  endpoints : k'.endpoints = k.endpoints
  slotAllocated : k'.slotAllocated = k.slotAllocated
  used : ∀ u, u ≠ t → k'.taskSlotsUsed u = k.taskSlotsUsed u
  task : ∀ u, u ≠ t → k'.tasks u = k.tasks u
  before : Unlinked (k.tasks t)
  after : Unlinked (k'.tasks t)

theorem create_frame (hi : Inv legal k loc) {owner : HartIndex} {entry argument : Word}
    {space : AddressSpace} {kernelParent idle withStack : Bool} {b : Option (TaskRef × TaskId)}
    (hx : withTid (k.createTaskLocked h entry argument space owner kernelParent idle
      withStack) = .ok b k') :
    (b = none ∧ k'.tasks = k.tasks ∧ Steady k k') ∨ ∃ t, b = some (t, k.nextTid) ∧
      SlotFrame k k' t ∧ k.taskSlotsUsed t = false ∧ (k'.tasks t).tid = k.nextTid ∧
      k'.nextTid = k.nextTid + 1 := by
  rw [withTid] at hx
  cases hc : k.createTaskLocked h entry argument space owner kernelParent idle withStack with
  | error e k1 =>
    rw [hc] at hx
    cases hx
  | ok child k1 =>
    rw [hc] at hx
    cases hx
    obtain ⟨k2, trackers, roots, hroot, rfl⟩ := createTaskLocked_root hc
    obtain ⟨child', k3, hx', hcase⟩ := createTaskLocked_cases (h := h)
      hi.tracker (fun t ht => hi.zero t (hi.free ht)) (fun t hl => hi.used_of_live hl)
      (fun hk : true = false => Bool.noConfusion hk) entry argument space owner idle withStack
    rw [hroot] at hx'
    cases hx'
    cases hcase with
    | refused => exact .inl ⟨rfl, rfl, rfl, rfl, rfl, rfl, rfl, fun _ => .refl _⟩
    | @created t r bases hfree hr =>
      have hzero := hi.zero t (hi.free hfree)
      have hself : ((k.born t r (newTask k h t r entry argument space owner idle withStack)
          (newTracker k t entry) bases).adopted r (k.creator h true)).tasks t =
          newTask k h t r entry argument space owner idle withStack := update_self ..
      have htid : (newTask k h t r entry argument space owner idle withStack).tid = k.nextTid := rfl
      refine .inr ⟨t, ?_, ⟨rfl, rfl, rfl, fun u hu => update_of_ne hu ..,
        fun u hu => update_of_ne hu .., ?_, ?_⟩, hfree, by rw [hself, htid], rfl⟩
      · rw [Option.map_some, hself, htid]
      · rw [hzero]
        exact ⟨rfl, rfl, rfl⟩
      · rw [hself]
        exact ⟨rfl, rfl, rfl⟩

theorem release_frame (hi : Inv legal k loc) (ht : loc t = some (.reaped h))
    (hx : k.releaseTaskLocked t = .ok () k') :
    SlotFrame k k' t ∧ k'.taskSlotsUsed t = false ∧ k'.nextTid = k.nextTid := by
  obtain ⟨hq, hd, hw⟩ := hi.unqueued (t := t) (by simp [ht]) (by simp [ht]) (by simp [ht])
  rw [releaseTaskLocked_eq hq hd hw] at hx
  cases hx
  have hself : (k.freed t).tasks t = {} := update_self ..
  refine ⟨⟨rfl, rfl, rfl, fun u hu => update_of_ne hu ..,
    fun u hu => update_of_ne hu .., ⟨hq, hd, hw⟩, ?_⟩, update_self .., rfl⟩
  rw [hself]
  exact ⟨rfl, rfl, rfl⟩

/-! ### Lists -/

/-- The lists behind the run queues and the endpoints are the same. -/
structure ListFrame (k k' : Kernel) : Prop where
  runQueues : k'.runQueues = k.runQueues
  endpoints : k'.endpoints = k.endpoints
  slotAllocated : k'.slotAllocated = k.slotAllocated
  task : ∀ t, SameNodes (k.tasks t) (k'.tasks t) ∨
    Unlinked (k.tasks t) ∧ Unlinked (k'.tasks t)

theorem Steady.listFrame (hs : Steady k k') : ListFrame k k' :=
  ⟨hs.runQueues, hs.endpoints, hs.slotAllocated, fun t => .inl (hs.task t)⟩

theorem SlotFrame.listFrame (hs : SlotFrame k k' t) : ListFrame k k' := by
  refine ⟨hs.runQueues, hs.endpoints, hs.slotAllocated, fun u => ?_⟩
  by_cases hu : u = t
  · rw [hu]
    exact .inr ⟨hs.before, hs.after⟩
  · rw [hs.task u hu]
    exact .inl (.refl _)

namespace ListFrame

/-- A task in a run queue keeps its links and its id. -/
theorem of_queued (hf : ListFrame k k') (hq : (k.tasks t).queued = true) :
    SameNodes (k.tasks t) (k'.tasks t) := by
  rcases hf.task t with hsame | ⟨⟨hun, -⟩, -⟩
  · exact hsame
  · rw [hun] at hq
    cases hq

theorem runLists (hf : ListFrame k k') {r : RunQueueRef → List TaskRef} (hr : RunLists k r) :
    RunLists k' r where
  family := by
    have hmem : ∀ q t, t ∈ r q → SameNodes (k.tasks t) (k'.tasks t) := fun q t ht =>
      hf.of_queued ((hr.queued t).mpr ⟨q, ht⟩)
    refine hr.family.congr (fun q t ht => (hmem q t ht).next) (fun q t ht => (hmem q t ht).previous)
      (fun t => ?_) (fun q => by rw [hf.runQueues]) fun q => by rw [hf.runQueues]
    rcases hf.task t with hsame | ⟨hun, hun'⟩
    · rw [hsame.queued]
    · rw [hun.1, hun'.1]
  size q := by rw [hf.runQueues, hr.size q]

end ListFrame

/-- **All other actions leave the lists alone.** -/
theorem exec_listFrame {a : Action β} {b : β} (ha : isListed a = false) (hi : Inv legal k loc)
    (hpre : Pre h a k loc) (hx : exec h a k = .ok b k') : ListFrame k k' := by
  by_cases hs : isSteady a = true
  · exact (exec_steady hs hi hpre hx).listFrame
  · cases a <;> first | exact absurd rfl hs | skip
    case createTaskLocked =>
      rcases create_frame hi hx with ⟨-, -, hs⟩ | ⟨t, -, hs, -⟩
      · exact hs.listFrame
      · exact hs.listFrame
    case releaseTaskLocked u =>
      exact (release_frame hi hpre hx).1.listFrame
    all_goals cases ha

end Jixia
