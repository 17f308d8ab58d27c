/-
From reset to the first task.

`bootstrap` follows `Kernel::bootstrap` on the boot hart: the managers are
initialized, every present hart is bound to the scheduler and given an idle task,
the initial task is created and made current, and the boot hart enters it.  A
failing phase parks the hart.  The secondary harts start in `secondaryBootstrap`.
-/
import Jixia.TaskSyscall

namespace Jixia

namespace Kernel

/-- The boot hart. -/
abbrev bootHart : HartIndex := 0

/-- Every table zeroed, as the loader leaves it. -/
def reset (platform : Platform) : Kernel :=
  { platform := platform, harts := fun _ => { mstatus := platform.resetMstatus } }

/-- The mapping loop of `TaskManager::initialize`. -/
def mapTaskStacks : List TaskRef → Kernel → Bool × Kernel
  | [], k => (true, k)
  | t :: rest, k =>
    match k.mapBootTaskStack (k.platform.taskStacks t) kTaskStackSize with
    | (false, k) => (false, k)
    | (true, k) => mapTaskStacks rest k

/-- `TaskManager::initialize`. -/
def initializeTaskManager (k : Kernel) : Bool × Kernel :=
  if k.taskManagerInitialized then (true, k)
  else
    let k := { k with
      tasks := fun _ => {}, trackers := fun _ => {},
      taskSlotsUsed := fun _ => false, trackerSlotsUsed := fun _ => false }
    match mapTaskStacks (List.finRange kMaxTasks) k with
    | (false, k) => (false, k)
    | (true, k) =>
      (true, { k with rootTasks := none, nextTid := 1, taskManagerInitialized := true })

/-- `Scheduler::bind_hart` and `TimeManager::initialize_hart`. -/
def bindHart (k : Kernel) (h : HartIndex) : Kernel :=
  k.modifyHart h fun hart => { hart with
    scheduler := true, schedulerExtra := some (.localRunQueue h), delayList := some h,
    timesliceTicks := kTaskTimesliceTicks, schedulerPreemptionCount := 0 }

/-- One round of the loop of `CpuManager::initialize`. -/
def initializeHart (k : Kernel) (h : HartIndex) : Outcome Bool :=
  let k := k.bindHart h
  (k.createTaskLocked bootHart k.platform.userIdleTask 0 k.platform.bootAddressSpace h
    true true false).andThen fun idle k =>
      match idle with
      | none => .ok false k
      | some t => .ok true (k.modifyHart h fun hart =>
          { hart with idleTask := some t, currentTask := none })

/-- The loop of `CpuManager::initialize`. -/
def initializeHarts : List HartIndex → Kernel → Outcome Bool
  | [], k => .ok true k
  | h :: rest, k =>
    (k.initializeHart h).andThen fun done k =>
      if done then initializeHarts rest k else .ok false k

/-- `CpuManager::initialize`. -/
def initializeCpus (k : Kernel) (presentCount : ℕ) : Outcome Bool :=
  if presentCount == 0 || kMaxHarts < presentCount then .ok false k
  else initializeHarts ((List.finRange kMaxHarts).take presentCount) k

/-- `Kernel::cpu_bootstrap`. -/
def cpuBootstrap (k : Kernel) (presentCount : ℕ) : Outcome Bool :=
  let k := { k with delayQueues := fun _ => none, timeManagerInitialized := true,
                    runQueues := fun _ => {} }
  match k.initializeTaskManager with
  | (false, k) => .ok false k
  | (true, k) => k.initializeCpus presentCount

/-- `Kernel::init_task_bootstrap`. -/
def initTaskBootstrap (k : Kernel) : Outcome Bool :=
  (k.createTaskLocked bootHart k.platform.userInitTask 0 k.platform.bootAddressSpace bootHart
    true false true).andThen fun initial k =>
      match initial with
      | none => .ok false k
      | some t => (k.setCurrentTask bootHart t).andThen fun _ k => .ok true k

/-- `Kernel::bootstrap` once the memory bootstrap has succeeded. -/
def bootstrap (platform : Platform) (presentCount : ℕ) (clock : Clock) : Outcome Unit :=
  ({ reset platform with vmmInitialized := true }.cpuBootstrap presentCount).andThen
    fun done k =>
      if !done then .error (.park .bootstrap) k
      else k.initTaskBootstrap.andThen fun done k =>
        if !done then .error (.park .bootstrap) k
        else (dispatchTask bootHart clock).run (exec bootHart) k

end Kernel

end Jixia
