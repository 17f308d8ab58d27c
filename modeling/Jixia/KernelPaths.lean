/-
The kernel paths of a hart.

The functions of `scheduler.cpp`, `time_manager.cpp`, `task_manager.cpp` and
`ipc_manager.cpp` that cross several lock sections, written as programs over
`Action` in the order of the source.  `h` is the hart that runs the code.

Reading the clock is an input of a path: `Clock` holds the readings it uses.
The source's console markers and verification probes are left out.
-/
import Jixia.Actions

namespace Jixia

open Proc KProc EndpointHandle

/-- The readings of the machine timer one kernel path uses: when it releases
sleepers, when it puts a task to sleep, when it selects the idle task and when it
arms the timer. -/
structure Clock where
  release : Word
  delay : Word
  idle : Word
  arm : Word

/-! ### Scheduler -/

def runQueueInsert (q : RunQueueRef) (t : TaskRef) : KProc Bool :=
  locked (.runQueue q) (perform (.runQueueInsert q t))

def runQueueRemove (q : RunQueueRef) : KProc (Option TaskRef) :=
  locked (.runQueue q) (perform (.runQueueRemove q))

def runQueueSize (q : RunQueueRef) : KProc ℕ :=
  locked (.runQueue q) (perform (.runQueueSize q))

/-- The queue of a pinned task. -/
def pinnedInsert (task : Task) (t : TaskRef) : KProc Bool :=
  match task.cpu with
  | none => pure false
  | some cpu => do
    let hart ← perform (.loadHart cpu)
    match hart.schedulerExtra with
    | none => pure false
    | some q => runQueueInsert q t

/-- `Scheduler::add_task`. -/
def addTask (t : TaskRef) : KProc Bool := do
  let task ← perform (.loadTask t)
  if task.state == .ended || task.idle || task.cpu.isNone || task.delay.queued || task.queued ||
      task.messageWait.queued then
    pure false
  else if task.affinityPinned != 0 then
    pinnedInsert task t
  else
    runQueueInsert .globalRunQueue t

/-- Requeue the current task unless it is idle. -/
def requeue (t : TaskRef) : KProc Unit := do
  let task ← perform (.loadTask t)
  if task.idle then pure ()
  else do
    let added ← addTask t
    parkUnless added .returnRunnable

/-- `Scheduler::return_runnable`. -/
def returnRunnable (h : HartIndex) : KProc Unit := do
  let hart ← perform (.loadHart h)
  match hart.currentTask with
  | none => pure ()
  | some current => requeue current

/-- `TimeManager::idle_timeslice_ticks`. -/
def idleTimesliceTicks (hart : HartLocal) (clock : Clock) : KProc Word :=
  match hart.delayList with
  | none => pure kIdleTimesliceTicks
  | some q => locked (.delayQueue q)
      (perform (.delayQueueTicksUntilNext q clock.idle kIdleTimesliceTicks))

/-- The queue choice of `set_next_runnable`: the local queue first. -/
def removeLocal (hart : HartLocal) : KProc (Option TaskRef) :=
  match hart.schedulerExtra with
  | none => pure none
  | some q => runQueueRemove q

def removeGlobal : KProc (Option TaskRef) := do
  let size ← runQueueSize .globalRunQueue
  if size != 0 then runQueueRemove .globalRunQueue else pure none

def removeNext (hart : HartLocal) : KProc (Option TaskRef) := do
  let selected ← removeLocal hart
  match selected with
  | some t => pure (some t)
  | none => removeGlobal

/-- The idle task and its time slice when no task is ready. -/
def selectOrIdle (hart : HartLocal) (clock : Clock) : Option TaskRef → KProc (Option TaskRef)
  | some t => do
    perform (.setTimeslice kTaskTimesliceTicks)
    return some t
  | none => do
    let ticks ← idleTimesliceTicks hart clock
    perform (.setTimeslice ticks)
    return hart.idleTask

/-- `Scheduler::set_next_runnable`; the result is the selected task. -/
def setNextRunnable (h : HartIndex) (clock : Clock) : KProc (Option TaskRef) := do
  let hart ← perform (.loadHart h)
  let ready ← removeNext hart
  let selected ← selectOrIdle hart clock ready
  match selected with
  | none => do
    perform (.park .setNextRunnable)
    return none
  | some t => do
    perform (.setCurrentTask t)
    return some t

/-! ### TimeManager -/

/-- The queueing part of `delay_task`, after the checks. -/
def delayUntil (t : TaskRef) (q : HartIndex) (deadline : Word) : KProc Bool := do
  perform (.setState t .blockedSleep)
  perform (.setStateInfo t deadline)
  let queued ← locked (.delayQueue q) (perform (.delayQueueInsert q t deadline))
  if queued then pure true
  else do
    perform (.setState t .running)
    perform (.setStateInfo t 0)
    return false

/-- `TimeManager::delay_task`. -/
def delayTask (h : HartIndex) (t : TaskRef) (seconds nanoseconds : Word) (clock : Clock) :
    KProc Bool := do
  let initialized ← perform .timeManagerInitialized
  let hart ← perform (.loadHart h)
  let task ← perform (.loadTask t)
  match task.cpu with
  | none => pure false
  | some cpu =>
    if !initialized || hart.currentTask != some t then pure false
    else
      let ticks := durationToTicks seconds nanoseconds
      if ticks == 0 then pure false
      else do
        let owner ← perform (.loadHart cpu)
        match owner.delayList with
        | none => pure false
        | some q =>
          if clock.delay > BitVec.allOnes 64 - ticks then pure false
          else delayUntil t q (clock.delay + ticks)

/-- The loop of `check_release_tasks`. -/
def releaseExpired (q : HartIndex) (clock : Clock) : ℕ → KProc Unit
  | 0 => perform .diverge
  | fuel + 1 => do
    let expired ← locked (.delayQueue q) (perform (.delayQueueRemoveExpired q clock.release))
    match expired with
    | none => pure ()
    | some t => do
      perform (.setStateInfo t 0)
      let added ← addTask t
      parkUnless added .checkReleaseTasksWake
      releaseExpired q clock fuel

/-- `TimeManager::check_release_tasks`. -/
def checkReleaseTasks (h : HartIndex) (clock : Clock) : KProc Unit := do
  let hart ← perform (.loadHart h)
  match hart.delayList with
  | none => perform (.park .checkReleaseTasksQueue)
  | some q => releaseExpired q clock (kMaxTasks + 1)

/-- The slice of the idle task lasts until the next sleeper is due. -/
def idleTicks (hart : HartLocal) (clock : Clock) : KProc Word :=
  match hart.delayList with
  | some q => locked (.delayQueue q)
      (perform (.delayQueueTicksUntilNext q clock.arm kIdleTimesliceTicks))
  | none => do
    perform (.park .armNoQueue)
    return 0

/-- The slice `arm_current_timeslice` uses. -/
def currentTicks (hart : HartLocal) (clock : Clock) : KProc Word :=
  match hart.currentTask with
  | none => pure hart.timesliceTicks
  | some current => do
    let task ← perform (.loadTask current)
    if task.idle then idleTicks hart clock else pure hart.timesliceTicks

/-- The deadline of a slice, saturating at the end of time. -/
def sliceDeadline (now ticks : Word) : Word :=
  let ticks := if ticks == 0 then 1 else ticks
  if now > BitVec.allOnes 64 - ticks then BitVec.allOnes 64 else now + ticks

/-- `TimeManager::arm_current_timeslice`. -/
def armCurrentTimeslice (h : HartIndex) (clock : Clock) : KProc Unit := do
  let hart ← perform (.loadHart h)
  let ticks ← currentTicks hart clock
  perform (.setCompare (sliceDeadline clock.arm ticks))

/-! ### TaskManager -/

/-- `TaskManager::create_task`. -/
def createTask (entry argument : Word) (space : AddressSpace) (owner : HartIndex)
    (kernelParent : Bool) : KProc (Option (TaskRef × TaskId)) :=
  locked .taskManager
    (perform (.createTaskLocked entry argument space owner kernelParent false true))

/-- Make the parent of an ended task ready, if it waits. -/
def joinWake : Option TaskRef → KProc Unit
  | none => pure ()
  | some waiter => do
    perform (.scheduler waiter)
    let added ← addTask waiter
    parkUnless added .endTaskJoinWake

/-- The second half of `end_task`, under the lock. -/
def reap (t : TaskRef) (returnValue : Word) (status : ExitStatus) : KProc Unit :=
  locked .taskManager do
    let waiter ← perform (.endTaskLocked t returnValue status)
    joinWake waiter
    perform (.releaseTaskLocked t)

/-- `TaskManager::end_task`. -/
def endTask (h : HartIndex) (t : TaskRef) (returnValue : Word) (status : ExitStatus)
    (clock : Clock) : KProc Unit := do
  let hart ← perform (.loadHart h)
  let task ← perform (.loadTask t)
  if hart.currentTask == some t then do
    perform (.setState t .ended)
    perform (.scheduler t)
    let _ ← setNextRunnable h clock
    reap t returnValue status
  else do
    parkUnless (!(task.queued || task.state == .running)) .endTaskNotCurrent
    perform (.setState t .ended)
    reap t returnValue status

/-- Dispatch another task once the caller is blocked in a join. -/
def dispatchBlocked (h : HartIndex) (t : TaskRef) (clock : Clock) :
    WaitResult → KProc WaitResult
  | .blocked => do
    perform (.scheduler t)
    let _ ← setNextRunnable h clock
    return .blocked
  | result => pure result

/-- `TaskManager::wait_task`. -/
def waitTask (h : HartIndex) (t : TaskRef) (tid : Word) (clock : Clock) : KProc WaitResult := do
  let hart ← perform (.loadHart h)
  parkUnless (hart.currentTask == some t) .waitTaskNotCurrent
  locked .taskManager do
    let result ← perform (.waitTaskLocked t tid)
    dispatchBlocked h t clock result

/-- `TaskManager::detach_task`. -/
def detachTask (h : HartIndex) (t : TaskRef) : KProc Bool := do
  let hart ← perform (.loadHart h)
  parkUnless (hart.currentTask == some t) .detachTaskNotCurrent
  locked .taskManager (perform (.detachTaskLocked t))

/-! ### EndpointManager -/

/-- `EndpointManager::create_endpoint`: an error code or the new handle. -/
def createEndpoint (owner : TaskId) : KProc (ℤ ⊕ Word) :=
  locked .table do
    let free ← perform .findFreeEndpoint
    match free with
    | none => pure (.inl kErrorNoSpace)
    | some e => locked (.endpoint e) do
        let handle ← perform (.createEndpointLocked e owner)
        return .inr handle

/-- The wake loop of `destroy_endpoint`. -/
def wakeAll (e : EndpointRef) : ℕ → KProc Unit
  | 0 => perform .diverge
  | fuel + 1 => do
    let receiver ← perform (.destroyPop e)
    match receiver with
    | none => pure ()
    | some t => do
      perform (.scheduler t)
      let added ← addTask t
      parkUnless added .destroyWake
      wakeAll e fuel

/-- `EndpointManager::destroy_endpoint`. -/
def destroyEndpoint (caller : TaskId) (handle : Word) : KProc ℤ :=
  let parsed := fromRaw handle
  if parsed.wellFormed then
    locked .table (locked (.endpoint parsed.slot) do
      let step ← perform (.destroyEndpointLocked caller parsed)
      match step with
      | .done code => pure code
      | .wakeAll => do
        wakeAll parsed.slot (kMaxTasks + 1)
        return 0)
  else pure kErrorInvalidArgument

/-- `EndpointManager::send`. -/
def send (sender : TaskId) (handle : Word) (words : Fin 4 → Word) : KProc ℤ :=
  let parsed := fromRaw handle
  if parsed.wellFormed then
    locked (.endpoint parsed.slot) do
      let step ← perform (.sendLocked sender parsed words)
      match step with
      | .done code => pure code
      | .wake receiver => do
        perform (.scheduler receiver)
        let added ← addTask receiver
        parkUnless added .sendWake
        return 0
  else pure kErrorInvalidArgument

/-- `EndpointManager::try_recv`. -/
def tryRecv (handle : Word) : KProc (ℤ ⊕ Message) :=
  let parsed := fromRaw handle
  if parsed.wellFormed then
    locked (.endpoint parsed.slot) (perform (.tryRecvLocked parsed))
  else pure (.inl kErrorInvalidArgument)

/-- `EndpointManager::recv`. -/
def recv (h : HartIndex) (caller : TaskRef) (handle : Word) (clock : Clock) :
    KProc RecvStatus := do
  let task ← perform (.loadTask caller)
  parkUnless (!task.messageWait.queued) .recvQueued
  let parsed := fromRaw handle
  if parsed.wellFormed then
    locked (.endpoint parsed.slot) do
      let status ← perform (.recvLocked caller handle)
      match status with
      | .blocked => do
        perform (.scheduler caller)
        let _ ← setNextRunnable h clock
        return .blocked
      | status => pure status
  else do
    perform (.setReg caller 10 (BitVec.ofInt 64 kErrorInvalidArgument))
    return .rejected

end Jixia
