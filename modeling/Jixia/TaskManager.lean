/-
The task manager's tables.

Slots, trackers and their sibling lists, as `task_manager.cpp` keeps them under
its lock.  `removeTrackerLocked` is the recursive removal with Hostboot's orphan
policy; it carries a bound on the number of loop rounds and calls, and running
past the bound is an outcome of its own.
-/
import Jixia.Kernel

namespace Jixia

open Function

/-! ### Contexts -/

def kMstatusMppMask : Word := 3 <<< 11
def kMstatusMpie : Word := 1 <<< 7
def kMstatusMprv : Word := 1 <<< 17
def kSatpModeSv39 : Word := 8 <<< 60
def kTaskStackSize : Word := 4096

/-- `sv39::satp_value`. -/
def satpValue (space : AddressSpace) : Word :=
  if space.valid then kSatpModeSv39 ||| (space.rootPhysicalAddress >>> 12) else 0

/-- `initialize_user`: the context a new task starts from. -/
def initializeUser (mstatus entry argument stackTop returnStub satp : Word) : TaskContext :=
  { x := update (update (update (fun _ => 0) 1 returnStub) 2 stackTop)
      10 argument
    mstatus := (mstatus &&& ~~~(kMstatusMppMask ||| kMstatusMprv)) ||| kMstatusMpie
    mepc := entry
    satp := satp }

/-- `save_from_trap`, with the `satp` of the hart. -/
def saveFromTrap (frame : TrapFrame) (satp : Word) : TaskContext :=
  { x := update frame.x 0 0, mstatus := frame.mstatus, mepc := frame.mepc, satp := satp }

/-- `restore_to_trap`: the cause register of the frame is left alone. -/
def restoreToTrap (context : TaskContext) (frame : TrapFrame) : TrapFrame :=
  { frame with x := update context.x 0 0, mstatus := context.mstatus,
               mepc := context.mepc }

/-- How `wait_task` ends. -/
inductive WaitResult
  | noChild | completed | blocked
  deriving DecidableEq

namespace Kernel

/-! ### The virtual memory manager -/

/-- `VmmManager::is_boot_user_entry`. -/
def isBootUserEntry (k : Kernel) (address : Word) : Bool :=
  k.vmmInitialized && k.platform.userTextStart ≤ address && address < k.platform.userTextEnd

/-- `VmmManager::map_boot_task_stack`: known bases are accepted as they are. -/
def mapBootTaskStack (k : Kernel) (physicalBase size : Word) : Bool × Kernel :=
  if !k.vmmInitialized || size == 0 || physicalBase % 4096 != 0 || size % 4096 != 0 then
    (false, k)
  else if k.mappedStackBases.contains physicalBase then (true, k)
  else if kMaxStackMappings ≤ k.mappedStackBases.length then (false, k)
  else if !k.platform.mapRange4k physicalBase then (false, k)
  else (true, { k with mappedStackBases := k.mappedStackBases ++ [physicalBase] })

/-! ### Slots -/

/-- `allocate_task_locked`: the lowest free slot, zeroed. -/
def allocateTaskLocked (k : Kernel) : Option TaskRef × Kernel :=
  match (List.finRange kMaxTasks).find? fun t => !k.taskSlotsUsed t with
  | none => (none, k)
  | some t =>
    (some t, { k.modifyTask t fun _ => {} with
      taskSlotsUsed := update k.taskSlotsUsed t true })

/-- `allocate_tracker_locked`: the lowest free tracker, zeroed. -/
def allocateTrackerLocked (k : Kernel) : Option TrackerRef × Kernel :=
  match (List.finRange kMaxTasks).find? fun r => !k.trackerSlotsUsed r with
  | none => (none, k)
  | some r =>
    (some r, { k.modifyTracker r fun _ => {} with
      trackerSlotsUsed := update k.trackerSlotsUsed r true })

/-- `release_task_locked`: a task that is still in some queue is never freed. -/
def releaseTaskLocked (k : Kernel) (t : TaskRef) : Outcome Unit :=
  if kMaxTasks ≤ t.val then .error (.park .releaseTaskIndex) k
  else if (k.tasks t).queued || (k.tasks t).delay.queued || (k.tasks t).messageWait.queued then
    .error (.park .releaseTaskQueued) k
  else
    .ok () { k.modifyTask t fun _ => {} with
      taskSlotsUsed := update k.taskSlotsUsed t false }

/-- `release_tracker_locked`. -/
def releaseTrackerLocked (k : Kernel) (r : TrackerRef) : Outcome Unit :=
  if kMaxTasks ≤ r.val then .error (.park .releaseTrackerIndex) k
  else
    .ok () { k.modifyTracker r fun _ => {} with
      trackerSlotsUsed := update k.trackerSlotsUsed r false }

/-! ### Sibling lists -/

/-- The head pointer of the list a tracker with this parent belongs to. -/
def siblingHead (k : Kernel) : Option TrackerRef → Option TrackerRef
  | none => k.rootTasks
  | some p => (k.trackers p).firstChild

def setSiblingHead (k : Kernel) (parent head : Option TrackerRef) : Kernel :=
  match parent with
  | none => { k with rootTasks := head }
  | some p => k.modifyTracker p fun tracker => { tracker with firstChild := head }

/-- `link_tracker_locked`: push the tracker on the front of the list. -/
def linkTrackerLocked (k : Kernel) (r : TrackerRef) (parent : Option TrackerRef) : Kernel :=
  let k := k.modifyTracker r fun tracker =>
    { tracker with parent := parent, previousSibling := none }
  let head := k.siblingHead parent
  let k := k.modifyTracker r fun tracker => { tracker with nextSibling := head }
  let k := match head with
    | some first => k.modifyTracker first fun tracker => { tracker with previousSibling := some r }
    | none => k
  k.setSiblingHead parent (some r)

/-- `unlink_tracker_locked`. -/
def unlinkTrackerLocked (k : Kernel) (r : TrackerRef) : Kernel :=
  let tracker := k.trackers r
  let k := match tracker.previousSibling with
    | some before =>
      k.modifyTracker before fun other => { other with nextSibling := tracker.nextSibling }
    | none => k.setSiblingHead tracker.parent tracker.nextSibling
  let k := match tracker.nextSibling with
    | some after =>
      k.modifyTracker after fun other => { other with previousSibling := tracker.previousSibling }
    | none => k
  k.modifyTracker r fun tracker => { tracker with previousSibling := none, nextSibling := none }

mutual

/-- `remove_tracker_locked`: unlink the tracker, hand its children to its parent,
free it.  A completed child that becomes kernel-parented is removed in turn; if
it crashed, the hart parks. -/
def removeTrackerLocked (k : Kernel) : ℕ → TrackerRef → Outcome Unit
  | 0, _ => .error .unbounded k
  | fuel + 1, r =>
    let newParent := (k.trackers r).parent
    (reparentChildren (k.unlinkTrackerLocked r) fuel r newParent).andThen fun _ k =>
      k.releaseTrackerLocked r

/-- The loop of `remove_tracker_locked`. -/
def reparentChildren (k : Kernel) : ℕ → TrackerRef → Option TrackerRef → Outcome Unit
  | 0, _, _ => .error .unbounded k
  | fuel + 1, r, newParent =>
    match (k.trackers r).firstChild with
    | none => .ok () k
    | some child =>
      let k := (k.unlinkTrackerLocked child).linkTrackerLocked child newParent
      if newParent.isNone && (k.trackers child).task.isNone then
        if (k.trackers child).status == .crashed then
          .error (.park .removeTrackerCrashed) k
        else
          (removeTrackerLocked k fuel child).andThen fun _ k => k.reparentChildren fuel r newParent
      else
        k.reparentChildren fuel r newParent

end

/-- Enough rounds for a table of `kMaxTasks` trackers: at every level of the
recursion at most `kMaxTasks` children are handed over. -/
def removalFuel : ℕ := (kMaxTasks + 2) * kMaxTasks

/-- The loops of `find_child_locked`: the first sibling that satisfies `p`. -/
def findSibling (k : Kernel) (p : TaskTracker → Bool) :
    ℕ → Option TrackerRef → Option (Option TrackerRef)
  | 0, _ => none
  | _ + 1, none => some none
  | fuel + 1, some child =>
    if p (k.trackers child) then some (some child)
    else findSibling k p fuel (k.trackers child).nextSibling

/-- `find_child_locked`: the child with the given key, or for a negative id any
completed child, or else the first child. -/
def findChildLocked (k : Kernel) (parent : TrackerRef) (tid : Word) : Outcome (Option TrackerRef) :=
  let first := (k.trackers parent).firstChild
  if 0 ≤ tid.toInt then
    match k.findSibling (fun child => child.key == tid) (kMaxTasks + 1) first with
    | none => .error .unbounded k
    | some child => .ok child k
  else
    match k.findSibling (fun child => child.task.isNone) (kMaxTasks + 1) first with
    | none => .error .unbounded k
    | some (some child) => .ok (some child) k
    | some none => .ok first k

/-! ### The sections of the interface -/

/-- `create_task_locked` on the hart `h`: take a slot and a tracker, fill them
in, and link the tracker under the current task's one or under the root. -/
def createTaskLocked (k : Kernel) (h : HartIndex) (entry argument : Word) (space : AddressSpace)
    (owner : HartIndex) (kernelParent idle withStack : Bool) : Outcome (Option TaskRef) :=
  if !k.taskManagerInitialized || !space.valid || !k.isBootUserEntry entry then .ok none k
  else
    let (task, k) := k.allocateTaskLocked
    let (tracker, k) := k.allocateTrackerLocked
    match task, tracker with
    | none, none => .ok none k
    | some t, none => (k.releaseTaskLocked t).andThen fun _ k => .ok none k
    | none, some r => (k.releaseTrackerLocked r).andThen fun _ k => .ok none k
    | some t, some r =>
      let stackBottom := if withStack then k.platform.taskStacks t else 0
      let stackTop := if withStack then stackBottom + kTaskStackSize else 0
      let (mapped, k) :=
        if withStack then k.mapBootTaskStack stackBottom kTaskStackSize else (true, k)
      if !mapped then
        (k.releaseTrackerLocked r).andThen fun _ k =>
          (k.releaseTaskLocked t).andThen fun _ k => .ok none k
      else
        let tid := k.nextTid
        let k := { k with nextTid := tid + 1 }
        let k := k.modifyTask t fun task => { task with
          cpu := some owner, addressSpace := space, tid := tid, affinityPinned := 0,
          state := .ready, stateInfo := 0, tracker := some r, stackBottom := stackBottom,
          stackTop := stackTop, detached := false, idle := idle, queued := false,
          previous := none, next := none, messageWait := {},
          context := initializeUser (k.harts h).mstatus entry argument stackTop
            k.platform.userTaskEndStub (satpValue space) }
        let k := k.modifyTracker r fun tracker => { tracker with
          key := tid, task := some t, status := .running, returnValue := 0, wait := {},
          entryPoint := entry }
        let parentTask := if kernelParent then none else (k.harts h).currentTask
        .ok (some t) (k.linkTrackerLocked r (parentTask.bind fun p => (k.tasks p).tracker))

/-- The part of `end_task` under the manager's lock, up to the join wake: record
the exit and decide what becomes of the tracker.  The result is the waiting
parent that has to be made ready. -/
def endTaskLocked (k : Kernel) (t : TaskRef) (returnValue : Word) (status : ExitStatus) :
    Outcome (Option TaskRef) :=
  match (k.tasks t).tracker with
  | none => .error .nullPointer k
  | some r =>
    let k := k.modifyTracker r fun tracker =>
      { tracker with status := status, returnValue := returnValue, task := none }
    if (k.tasks t).detached then
      if status == .crashed then .error (.park .endTaskDetachedCrashed) k
      else (k.removeTrackerLocked removalFuel r).andThen fun _ k => .ok none k
    else
      match (k.trackers r).parent with
      | some p =>
        let wait := (k.trackers p).wait
        if wait.active && (wait.tid.toInt < 0 || wait.tid == (k.tasks t).tid) then
          match (k.trackers p).task with
          | none => .error (.park .endTaskParentGone) k
          | some waiter =>
            let k := k.modifyTracker p fun tracker =>
              { tracker with wait := { tracker.wait with active := false } }
            let k := k.setReg waiter 10 (k.tasks t).tid
            (k.removeTrackerLocked removalFuel r).andThen fun _ k =>
              match (k.trackers p).task with
              | none => .error .nullPointer k
              | some waiter => .ok (some waiter) k
        else .ok none k
      | none =>
        if status == .crashed then .error (.park .endTaskRootCrashed) k
        else (k.removeTrackerLocked removalFuel r).andThen fun _ k => .ok none k

/-- The part of `wait_task` under the manager's lock, up to the dispatch. -/
def waitTaskLocked (k : Kernel) (t : TaskRef) (tid : Word) : Outcome WaitResult :=
  match (k.tasks t).tracker with
  | none => .error .nullPointer k
  | some r =>
    (k.findChildLocked r tid).andThen fun child k =>
      match child with
      | none => .ok .noChild k
      | some c =>
        match (k.trackers c).task with
        | none =>
          let k := k.setReg t 10 (k.trackers c).key
          (k.removeTrackerLocked removalFuel c).andThen fun _ k => .ok .completed k
        | some _ =>
          let k := k.modifyTracker r fun tracker =>
            { tracker with wait := { active := true, tid := tid } }
          .ok .blocked (k.modifyTask t fun task =>
            { task with state := .blockedJoin, stateInfo := tid })

/-- The part of `detach_task` under the manager's lock. -/
def detachTaskLocked (k : Kernel) (t : TaskRef) : Bool × Kernel :=
  if (k.tasks t).state == .ended then (false, k)
  else (true, k.modifyTask t fun task => { task with detached := true })

/-! ### The current task -/

/-- `set_current_task` on the hart `h`. -/
def setCurrentTask (k : Kernel) (h : HartIndex) (t : TaskRef) : Outcome Unit :=
  let task := k.tasks t
  if task.state == .ended || task.queued || task.delay.queued || task.messageWait.queued then
    .error (.park .setCurrentTask) k
  else
    let k := k.modifyTask t fun task => { task with cpu := some h, state := .running }
    .ok () (k.modifyHart h fun hart => { hart with currentTask := some t })

/-- `save_current_context` of the trap frame of the hart. -/
def saveCurrentContext (k : Kernel) (h : HartIndex) : Outcome Unit :=
  match (k.harts h).currentTask with
  | none => .error (.park .saveCurrentContext) k
  | some t => .ok () (k.modifyTask t fun task =>
      { task with context := saveFromTrap (k.harts h).frame (k.harts h).satp })

/-- `restore_current_context`: fill the trap frame and load `satp`. -/
def restoreCurrentContext (k : Kernel) (h : HartIndex) : Outcome Unit :=
  match (k.harts h).currentTask with
  | none => .error (.park .restoreCurrentContext) k
  | some t => .ok () (k.modifyHart h fun hart => { hart with
      frame := restoreToTrap (k.tasks t).context hart.frame, satp := (k.tasks t).context.satp })

end Kernel

end Jixia
