/-
Syscalls, timer interrupts and the trap dispatch.

`tryHandle` is the handler of `task_syscall.cpp`, one program per syscall number;
`handleTimerInterrupt` is the preemption path of `time_manager.cpp`; `dispatch` is
`trap.cpp` for traps out of user mode; `secondaryBootstrap` is how a secondary
hart enters its first task.  The handlers return whether the hart was given
another task, in which case its time slice is armed again.
-/
import Jixia.KernelPaths
import Mathlib.Data.Fin.VecNotation

namespace Jixia

open Proc KProc

def kErrorNoMemory : ℤ := -12
def kErrorDeadlock : ℤ := -35
def kErrorNoSyscall : ℤ := -38
def kErrorNotSupported : ℤ := -95

def errorValue (error : ℤ) : Word := BitVec.ofInt 64 error

/-- The syscall numbers of the task ABI. -/
inductive Syscall
  | yield | create | endTask | wait | detach | sleep | endpointCreate | endpointDestroy
  | send | call | recv | tryRecv | reply
  deriving DecidableEq

/-- The syscall with a given number. -/
def Syscall.ofNumber (number : Word) : Option Syscall :=
  match number.toNat with
  | 0 => some .yield
  | 1 => some .create
  | 2 => some .endTask
  | 3 => some .wait
  | 4 => some .detach
  | 5 => some .sleep
  | 6 => some .endpointCreate
  | 7 => some .endpointDestroy
  | 8 => some .send
  | 9 => some .call
  | 10 => some .recv
  | 11 => some .tryRecv
  | 12 => some .reply
  | _ => none

/-! ### The handlers -/

/-- YIELD.  The two evaluations of `caller` after `return_runnable` are labelled
with the id the caller had at the trap. -/
def yieldCall (h : HartIndex) (caller : TaskRef) (tid : TaskId) (clock : Clock) :
    KProc Bool := do
  perform (.setReg caller 10 0)
  perform (.scheduler caller)
  returnRunnable h
  perform (.yieldScheduler caller tid)
  let _ ← setNextRunnable h clock
  let _ ← perform (.yieldIdle caller tid)
  return true

/-- The end of CREATE: publish the child, then report its id. -/
def publishChild (caller child : TaskRef) (tid : TaskId) : KProc Unit := do
  perform (.scheduler caller)
  let added ← addTask child
  parkUnless added .createAddTask
  let childTid ← perform (.createdTid child tid)
  perform (.setReg caller 10 childTid)

def createCall (caller : TaskRef) : KProc Bool := do
  let task ← perform (.loadTask caller)
  let entry := task.context.x 10
  let argument := task.context.x 11
  let accepted ← perform (.isBootUserEntry entry)
  match accepted, task.cpu with
  | false, _ => do
    perform (.setReg caller 10 (errorValue kErrorNotSupported))
    return false
  | true, none => do
    -- `*caller->cpu` of a task without a hart.
    perform (.scheduler caller)
    return false
  | true, some cpu => do
    let child ← createTask entry argument task.addressSpace cpu false
    match child with
    | none => do
      perform (.setReg caller 10 (errorValue kErrorNoMemory))
      return false
    | some (child, tid) => do
      publishChild caller child tid
      return false

def endCall (h : HartIndex) (caller : TaskRef) (clock : Clock) : KProc Bool := do
  let task ← perform (.loadTask caller)
  endTask h caller (task.context.x 10) .exitedClean clock
  return true

def waitCall (h : HartIndex) (caller : TaskRef) (clock : Clock) : KProc Bool := do
  let task ← perform (.loadTask caller)
  let tid := task.context.x 10
  if task.context.x 11 != 0 || task.context.x 12 != 0 then do
    perform (.setReg caller 10 (errorValue kErrorNotSupported))
    return false
  else do
    let result ← waitTask h caller tid clock
    match result with
    | .noChild => do
      perform (.setReg caller 10 (errorValue kErrorDeadlock))
      return false
    | .completed => pure false
    | .blocked => pure true

def detachCall (h : HartIndex) (caller : TaskRef) : KProc Bool := do
  let detached ← detachTask h caller
  perform (.setReg caller 10 (if detached then 0 else 1))
  return false

def sleepCall (h : HartIndex) (caller : TaskRef) (clock : Clock) : KProc Bool := do
  let task ← perform (.loadTask caller)
  perform (.setReg caller 10 0)
  let delayed ← delayTask h caller (task.context.x 10) (task.context.x 11) clock
  if delayed then do
    perform (.scheduler caller)
    let _ ← setNextRunnable h clock
    return true
  else do
    perform (.setReg caller 10 (errorValue kErrorInvalidArgument))
    return false

def endpointCreateCall (caller : TaskRef) : KProc Bool := do
  let task ← perform (.loadTask caller)
  let result ← createEndpoint task.tid
  perform (.setReg caller 10 (result.elim errorValue id))
  return false

def endpointDestroyCall (caller : TaskRef) : KProc Bool := do
  let task ← perform (.loadTask caller)
  let result ← destroyEndpoint task.tid (task.context.x 10)
  perform (.setReg caller 10 (if result < 0 then errorValue result else 0))
  return false

/-- The payload of a message: `a1`..`a4`. -/
def payload (context : TaskContext) : Fin 4 → Word :=
  ![context.x 11, context.x 12, context.x 13, context.x 14]

def sendCall (caller : TaskRef) : KProc Bool := do
  let task ← perform (.loadTask caller)
  let result ← send task.tid (task.context.x 10) (payload task.context)
  perform (.setReg caller 10 (if result < 0 then errorValue result else 0))
  return false

def tryRecvCall (caller : TaskRef) : KProc Bool := do
  let task ← perform (.loadTask caller)
  let result ← tryRecv (task.context.x 10)
  match result with
  | .inl error => do
    perform (.setReg caller 10 (errorValue error))
    return false
  | .inr message => do
    perform (.writeRecvRegisters caller 0 message)
    return false

/-- RECV.  The endpoint layer writes the registers of a caller that goes on; a
caller that blocks is not touched again. -/
def recvCall (h : HartIndex) (caller : TaskRef) (clock : Clock) : KProc Bool := do
  let task ← perform (.loadTask caller)
  let status ← recv h caller (task.context.x 10) clock
  return status == .blocked

def reservedCall (caller : TaskRef) : KProc Bool := do
  perform (.setReg caller 10 (errorValue kErrorNoSyscall))
  return false

/-- An undefined number ends the caller as crashed. -/
def crashCall (h : HartIndex) (caller : TaskRef) (clock : Clock) : KProc Bool := do
  endTask h caller 0 .crashed clock
  return true

def syscallBody (h : HartIndex) (caller : TaskRef) (tid : TaskId) (clock : Clock) :
    Option Syscall → KProc Bool
  | some .yield => yieldCall h caller tid clock
  | some .create => createCall caller
  | some .endTask => endCall h caller clock
  | some .wait => waitCall h caller clock
  | some .detach => detachCall h caller
  | some .sleep => sleepCall h caller clock
  | some .endpointCreate => endpointCreateCall caller
  | some .endpointDestroy => endpointDestroyCall caller
  | some .send => sendCall caller
  | some .call => reservedCall caller
  | some .recv => recvCall h caller clock
  | some .tryRecv => tryRecvCall caller
  | some .reply => reservedCall caller
  | none => crashCall h caller clock

/-- `try_handle` for the current task `caller`, whose id is `tid`. -/
def tryHandle (h : HartIndex) (caller : TaskRef) (tid : TaskId) (clock : Clock) :
    KProc Unit := do
  perform .saveCurrentContext
  perform (.advanceMepc caller)
  let task ← perform (.loadTask caller)
  let rescheduled ← syscallBody h caller tid clock (Syscall.ofNumber (task.context.x 17))
  perform .restoreCurrentContext
  if rescheduled then armCurrentTimeslice h clock else pure ()

/-! ### Timer interrupts -/

/-- The entry check of `handle_timer_interrupt`. -/
def checkInterrupted (task : Task) : KProc Unit :=
  match task.cpu with
  | none => perform (.park .timerNoTask)
  | some cpu => do
    let owner ← perform (.loadHart cpu)
    parkUnless owner.scheduler .timerNoTask

/-- Count a preemption when another task was selected. -/
def notePreemption (interrupted : Task) (selected : Option TaskRef) : KProc Unit :=
  match selected with
  | none => pure ()
  | some t => do
    let task ← perform (.loadTask t)
    if !interrupted.idle && task.tid != interrupted.tid then perform .countPreemption
    else pure ()

/-- `handle_timer_interrupt`, with the disarming before it. -/
def handleTimerInterrupt (h : HartIndex) (interrupted : TaskRef) (clock : Clock) :
    KProc Unit := do
  perform (.setCompare (BitVec.allOnes 64))
  let task ← perform (.loadTask interrupted)
  checkInterrupted task
  perform .saveCurrentContext
  checkReleaseTasks h clock
  let task ← perform (.loadTask interrupted)
  returnRunnable h
  let selected ← setNextRunnable h clock
  notePreemption task selected
  perform .restoreCurrentContext
  armCurrentTimeslice h clock

/-! ### Traps -/

def mcauseInterruptMask : Word := 1 <<< 63

/-- `TrapCause::is_exception(code)`. -/
def isException (mcause : Word) (code : Word) : Bool :=
  mcause &&& mcauseInterruptMask == 0 && mcause &&& ~~~mcauseInterruptMask == code

/-- `TrapCause::is_interrupt(code)`. -/
def isInterrupt (mcause : Word) (code : Word) : Bool :=
  mcause &&& mcauseInterruptMask != 0 && mcause &&& ~~~mcauseInterruptMask == code

/-- An environment call from user mode. -/
def TrapFrame.isSyscall (frame : TrapFrame) : Bool :=
  isException frame.mcause 8 && frame.mstatus &&& kMstatusMppMask == 0

/-- A machine timer interrupt out of user mode. -/
def TrapFrame.isTimer (frame : TrapFrame) : Bool :=
  isInterrupt frame.mcause 7 && frame.mstatus &&& kMstatusMppMask == 0

/-- `trap::dispatch` for a trap out of user mode. -/
def dispatch (h : HartIndex) (current : TaskRef) (tid : TaskId) (frame : TrapFrame)
    (clock : Clock) : KProc Unit := do
  perform (.enterTrap frame)
  if frame.isSyscall then tryHandle h current tid clock
  else if frame.isTimer then handleTimerInterrupt h current clock
  else perform (.park .fatalTrap)

/-- `Kernel::dispatch_task`: enter the current task for the first time. -/
def dispatchTask (h : HartIndex) (clock : Clock) : KProc Unit := do
  perform .restoreCurrentContext
  armCurrentTimeslice h clock

/-- `Kernel::secondary_bootstrap`. -/
def secondaryBootstrap (h : HartIndex) (clock : Clock) : KProc Unit := do
  let hart ← perform (.loadHart h)
  parkUnless (hart.scheduler && hart.idleTask.isSome) .secondaryBootstrap
  let _ ← setNextRunnable h clock
  dispatchTask h clock

end Jixia
