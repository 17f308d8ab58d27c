/-
The state of the Jixia executive.

The records follow the C++ declarations field by field.  Every object of the
executive lives in a fixed table, so a pointer is a slot number: `TaskRef`,
`TrackerRef`, `EndpointRef`, `HartIndex`, and a null pointer is `none`.  A table
is a function from slots to records, and `{}` is the zeroed record of C++.

`Kernel` gathers the private members of the singletons (`TaskManager`,
`Scheduler`, `TimeManager`, `EndpointManager`, `VmmManager`), the per-hart
records and the spinlocks.  Task ids are counted without wrap-around: the
counter is 64 bits wide and only ever incremented.
-/
import Mathlib.Logic.Function.Basic
import Mathlib.Data.Fin.Basic
import Mathlib.Tactic.Common
import Mathlib.Tactic.Simps.Basic
import Mathlib.Data.Fintype.Pi

namespace Jixia

open Function

/-- `uint64_t` and `uintptr_t`. -/
abbrev Word := BitVec 64

/-- `TaskId`, a `uint64_t`. -/
abbrev TaskId := Word

abbrev kMaxTasks : ℕ := 16
abbrev kMaxHarts : ℕ := 4
abbrev kMaxEndpoints : ℕ := 16
abbrev kEndpointQueueDepth : ℕ := 16
abbrev kMaxStackMappings : ℕ := 16

-- The tables and the register file are not empty; their literals use these instances.
instance neZero_kMaxTasks : @NeZero ℕ Zero.ofOfNat0 kMaxTasks := Nat.instNeZeroSucc
instance neZero_kMaxHarts : @NeZero ℕ Zero.ofOfNat0 kMaxHarts := Nat.instNeZeroSucc
instance neZero_registers : @NeZero ℕ Zero.ofOfNat0 32 := Nat.instNeZeroSucc

abbrev TaskRef := Fin kMaxTasks
abbrev TrackerRef := Fin kMaxTasks
abbrev EndpointRef := Fin kMaxEndpoints
abbrev HartIndex := Fin kMaxHarts

/-! ### Tasks and trackers -/

/-- The states of a task; `zero` is the state byte of a zeroed slot, which is
none of the enumerators of the source. -/
inductive TaskState
  | running | ready | ended | blockedFutex | blockedMessage | blockedUserspace
  | blockedSleep | blockedJoin | zero
  deriving DecidableEq

/-- Exit states of a tracker; `exitedClean` has the value zero. -/
inductive ExitStatus
  | running | exitedClean | crashed
  deriving DecidableEq

structure TaskContext where
  x : Fin 32 → Word := fun _ => 0
  mstatus : Word := 0
  mepc : Word := 0
  satp : Word := 0

structure TrapFrame where
  x : Fin 32 → Word := fun _ => 0
  mstatus : Word := 0
  mepc : Word := 0
  mcause : Word := 0

structure AddressSpace where
  rootPhysicalAddress : Word := 0

def AddressSpace.valid (space : AddressSpace) : Bool := space.rootPhysicalAddress != 0

structure DelayNode where
  previous : Option TaskRef := none
  next : Option TaskRef := none
  deadline : Word := 0
  queued : Bool := false

structure MessageWaitNode where
  previous : Option TaskRef := none
  next : Option TaskRef := none
  queued : Bool := false

/-- The join of a task; `tid` is an `int64_t`, and a negative one asks for any child. -/
structure WaitInfo where
  active : Bool := false
  tid : Word := 0
  statusAddress : Word := 0
  returnValueAddress : Word := 0

structure TaskTracker where
  parent : Option TrackerRef := none
  firstChild : Option TrackerRef := none
  previousSibling : Option TrackerRef := none
  nextSibling : Option TrackerRef := none
  key : TaskId := 0
  task : Option TaskRef := none
  status : ExitStatus := .exitedClean
  returnValue : Word := 0
  wait : WaitInfo := {}
  entryPoint : Word := 0

structure Task where
  cpu : Option HartIndex := none
  context : TaskContext := {}
  addressSpace : AddressSpace := {}
  tid : TaskId := 0
  affinityPinned : Word := 0
  state : TaskState := .zero
  stateInfo : Word := 0
  tracker : Option TrackerRef := none
  delay : DelayNode := {}
  messageWait : MessageWaitNode := {}
  stackBottom : Word := 0
  stackTop : Word := 0
  detached : Bool := false
  idle : Bool := false
  queued : Bool := false
  previous : Option TaskRef := none
  next : Option TaskRef := none

/-! ### Queues, endpoints and harts -/

structure RunQueue where
  head : Option TaskRef := none
  tail : Option TaskRef := none
  size : ℕ := 0

/-- The run queues of the scheduler: `global_run_queue_` and
`local_run_queues_[index]`. -/
inductive RunQueueRef
  | globalRunQueue
  | localRunQueue (index : HartIndex)
  deriving DecidableEq

/-- A message is a pure value: sender identity plus four payload words. -/
structure Message where
  sender : TaskId := 0
  words : Fin 4 → Word := fun _ => 0
  deriving DecidableEq

structure Endpoint where
  active : Bool := false
  retired : Bool := false
  generation : BitVec 32 := 0
  owner : TaskId := 0
  head : ℕ := 0
  count : ℕ := 0
  waitingHead : Option TaskRef := none
  waitingTail : Option TaskRef := none
  waitingCount : ℕ := 0
  queue : Fin kEndpointQueueDepth → Message := fun _ => {}

/-- The executive's part of a hart-local record, and the machine state of the
hart it belongs to: the trap frame, `satp`, `mstatus` and the timer compare
register.  There is one scheduler, so `scheduler` only says that it is bound. -/
structure HartLocal where
  currentTask : Option TaskRef := none
  scheduler : Bool := false
  schedulerExtra : Option RunQueueRef := none
  delayList : Option HartIndex := none
  idleTask : Option TaskRef := none
  timesliceTicks : Word := 0
  schedulerPreemptionCount : Word := 0
  frame : TrapFrame := {}
  satp : Word := 0
  mstatus : Word := 0
  compare : Word := 0

/-- The spinlocks of the executive. -/
inductive Lock
  | table
  | endpoint (index : EndpointRef)
  | taskManager
  | runQueue (queue : RunQueueRef)
  | delayQueue (index : HartIndex)
  deriving DecidableEq

/-- What the linker script and the memory bootstrap fix: the user text, the
entry points, the task stacks, the root of the bootstrap address space and the
outcome of mapping a stack there. -/
structure Platform where
  userTextStart : Word
  userTextEnd : Word
  userIdleTask : Word
  userInitTask : Word
  userTaskEndStub : Word
  taskStacks : TaskRef → Word
  bootAddressSpace : AddressSpace
  mapRange4k : Word → Bool
  resetMstatus : Word

/-- A small platform on which the model can be run. -/
def Platform.sample : Platform where
  userTextStart := 0x1000
  userTextEnd := 0x2000
  userIdleTask := 0x1000
  userInitTask := 0x1100
  userTaskEndStub := 0x1200
  taskStacks t := BitVec.ofNat 64 (0x10000 + 4096 * t.val)
  bootAddressSpace := ⟨0x5000⟩
  mapRange4k _ := true
  resetMstatus := 0

/-- The whole executive. -/
structure Kernel where
  platform : Platform
  harts : HartIndex → HartLocal := fun _ => {}
  tasks : TaskRef → Task := fun _ => {}
  trackers : TrackerRef → TaskTracker := fun _ => {}
  taskSlotsUsed : TaskRef → Bool := fun _ => false
  trackerSlotsUsed : TrackerRef → Bool := fun _ => false
  rootTasks : Option TrackerRef := none
  nextTid : TaskId := 1
  runQueues : RunQueueRef → RunQueue := fun _ => {}
  delayQueues : HartIndex → Option TaskRef := fun _ => none
  slotAllocated : EndpointRef → Bool := fun _ => false
  endpoints : EndpointRef → Endpoint := fun _ => {}
  mappedStackBases : List Word := []
  locks : Lock → Option HartIndex := fun _ => none
  taskManagerInitialized : Bool := false
  timeManagerInitialized : Bool := false
  vmmInitialized : Bool := false

/-! ### How code stops -/

/-- The `hart::park` calls of the executive, by the function that makes them. -/
inductive ParkSite
  | checkEndpointInvariant | destroyWake | sendWake | recvQueued
  | runQueueRemove | returnRunnable | setNextRunnable
  | endTaskNotCurrent | endTaskDetachedCrashed | endTaskParentGone | endTaskJoinWake
  | endTaskRootCrashed | waitTaskNotCurrent | detachTaskNotCurrent
  | releaseTaskIndex | releaseTaskQueued | releaseTrackerIndex | removeTrackerCrashed
  | setCurrentTask | saveCurrentContext | restoreCurrentContext
  | checkReleaseTasksQueue | checkReleaseTasksWake | timerNoTask | armNoQueue
  | createAddTask | fatalTrap | bindHart | secondaryBootstrap | bootstrap
  deriving DecidableEq

/-- Why a hart does not get past an action: it spins on a taken lock, it parks,
it follows a null pointer, or a loop runs past the size of the tables. -/
inductive Halt
  | spin
  | park (site : ParkSite)
  | nullPointer
  | unbounded
  deriving DecidableEq

/-- The outcome of a piece of kernel code. -/
abbrev Outcome (β : Type) := EStateM.Result Halt Kernel β

/-- Continue with the result of a piece of code. -/
def Outcome.andThen {α β : Type} : Outcome α → (α → Kernel → Outcome β) → Outcome β
  | .ok a k, f => f a k
  | .error e k, _ => .error e k

@[simp] theorem Outcome.andThen_ok {α β : Type} (a : α) (k : Kernel)
    (f : α → Kernel → Outcome β) : Outcome.andThen (.ok a k) f = f a k := rfl

/-- The state a piece of code leaves, however it ends. -/
def Outcome.state {β : Type} : Outcome β → Kernel
  | .ok _ k => k
  | .error _ k => k

/-- The result of a piece of code that returns. -/
def Outcome.value {β : Type} : Outcome β → Option β
  | .ok b _ => some b
  | .error _ _ => none

theorem Outcome.eq_ok {β : Type} {r : Outcome β} {b : β} (h : r.value = some b) :
    r = .ok b r.state := by
  cases r with
  | ok b' k =>
    cases h
    rfl
  | error e k => cases h

/-- Why a piece of code stopped. -/
def Outcome.fault {β : Type} : Outcome β → Option Halt
  | .ok _ _ => none
  | .error e _ => some e

theorem Outcome.eq_error {β : Type} {r : Outcome β} {e : Halt} (h : r.fault = some e) :
    r = .error e r.state := by
  cases r with
  | ok b k => cases h
  | error e' k =>
    cases h
    rfl

/-! ### Writing one record -/

def TaskContext.setX (context : TaskContext) (i : Fin 32) (value : Word) : TaskContext :=
  { context with x := update context.x i value }

namespace Kernel

@[simps -fullyApplied]
def modifyTask (k : Kernel) (t : TaskRef) (f : Task → Task) : Kernel :=
  { k with tasks := update k.tasks t (f (k.tasks t)) }

@[simps -fullyApplied]
def modifyTracker (k : Kernel) (r : TrackerRef) (f : TaskTracker → TaskTracker) : Kernel :=
  { k with trackers := update k.trackers r (f (k.trackers r)) }

@[simps -fullyApplied]
def modifyHart (k : Kernel) (h : HartIndex) (f : HartLocal → HartLocal) : Kernel :=
  { k with harts := update k.harts h (f (k.harts h)) }

@[simps -fullyApplied]
def modifyRunQueue (k : Kernel) (q : RunQueueRef) (f : RunQueue → RunQueue) : Kernel :=
  { k with runQueues := update k.runQueues q (f (k.runQueues q)) }

@[simps -fullyApplied]
def setDelayHead (k : Kernel) (h : HartIndex) (head : Option TaskRef) : Kernel :=
  { k with delayQueues := update k.delayQueues h head }

@[simps -fullyApplied]
def modifyEndpoint (k : Kernel) (e : EndpointRef) (f : Endpoint → Endpoint) : Kernel :=
  { k with endpoints := update k.endpoints e (f (k.endpoints e)) }

@[simps -fullyApplied]
def setLock (k : Kernel) (l : Lock) (holder : Option HartIndex) : Kernel :=
  { k with locks := update k.locks l holder }

/-- Write the saved register `x[i]` of a task. -/
def setReg (k : Kernel) (t : TaskRef) (i : Fin 32) (value : Word) : Kernel :=
  k.modifyTask t fun task => { task with context := task.context.setX i value }

theorem setReg_x (k : Kernel) (t : TaskRef) (i : Fin 32) (value : Word) :
    ((k.setReg t i value).tasks t).context.x i = value := by
  simp [setReg, modifyTask, TaskContext.setX]

end Kernel

end Jixia
