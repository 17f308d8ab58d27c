/-
The atomic actions of a hart.

Kernel code runs on several harts at once.  `Action` lists what one hart does in
one indivisible step: take or drop a spinlock, read or write a record that is not
protected by a lock, or execute the body of one lock section.  `exec` is the
effect of an action on the executive, `KProc` the programs built from them.

The actions `yieldScheduler`, `yieldIdle` and `createdTid` are ordinary reads.
They stand apart because they read a task record that the hart has already made
ready for others; the task id they carry is the one the record had when the hart
last owned it.
-/
import Jixia.Resumption
import Jixia.Queues
import Jixia.TaskManager
import Jixia.IpcManager

namespace Jixia

inductive Action : Type → Type
  | acquire (lock : Lock) : Action Unit
  | release (lock : Lock) : Action Unit
  | park (site : ParkSite) : Action Unit
  /-- A loop of the source goes on past the size of the tables. -/
  | diverge : Action Unit
  -- Reads outside of any lock.
  | loadTask (t : TaskRef) : Action Task
  | loadHart (h : HartIndex) : Action HartLocal
  | isBootUserEntry (entry : Word) : Action Bool
  | timeManagerInitialized : Action Bool
  /-- Follow `task->cpu->scheduler`. -/
  | scheduler (t : TaskRef) : Action Unit
  | yieldScheduler (caller : TaskRef) (tid : TaskId) : Action Unit
  | yieldIdle (caller : TaskRef) (tid : TaskId) : Action Bool
  | createdTid (child : TaskRef) (tid : TaskId) : Action TaskId
  -- Writes outside of any lock.
  | setReg (t : TaskRef) (i : Fin 32) (value : Word) : Action Unit
  | writeRecvRegisters (t : TaskRef) (a0 : ℤ) (message : Message) : Action Unit
  | advanceMepc (t : TaskRef) : Action Unit
  | setState (t : TaskRef) (state : TaskState) : Action Unit
  | setStateInfo (t : TaskRef) (info : Word) : Action Unit
  | setTimeslice (ticks : Word) : Action Unit
  | countPreemption : Action Unit
  | setCompare (deadline : Word) : Action Unit
  | enterTrap (frame : TrapFrame) : Action Unit
  | saveCurrentContext : Action Unit
  | restoreCurrentContext : Action Unit
  | setCurrentTask (t : TaskRef) : Action Unit
  -- Bodies of lock sections.
  | runQueueInsert (q : RunQueueRef) (t : TaskRef) : Action Bool
  | runQueueRemove (q : RunQueueRef) : Action (Option TaskRef)
  | runQueueSize (q : RunQueueRef) : Action ℕ
  | delayQueueInsert (q : HartIndex) (t : TaskRef) (deadline : Word) : Action Bool
  | delayQueueRemoveExpired (q : HartIndex) (now : Word) : Action (Option TaskRef)
  | delayQueueTicksUntilNext (q : HartIndex) (now maximum : Word) : Action Word
  | createTaskLocked (entry argument : Word) (space : AddressSpace) (owner : HartIndex)
      (kernelParent idle withStack : Bool) : Action (Option (TaskRef × TaskId))
  | endTaskLocked (t : TaskRef) (returnValue : Word) (status : ExitStatus) :
      Action (Option TaskRef)
  | releaseTaskLocked (t : TaskRef) : Action Unit
  | waitTaskLocked (t : TaskRef) (tid : Word) : Action WaitResult
  | detachTaskLocked (t : TaskRef) : Action Bool
  | findFreeEndpoint : Action (Option EndpointRef)
  | createEndpointLocked (e : EndpointRef) (owner : TaskId) : Action Word
  | destroyEndpointLocked (caller : TaskId) (parsed : EndpointHandle) : Action DestroyStep
  | destroyPop (e : EndpointRef) : Action (Option TaskRef)
  | sendLocked (sender : TaskId) (parsed : EndpointHandle) (words : Fin 4 → Word) :
      Action SendStep
  | tryRecvLocked (parsed : EndpointHandle) : Action (ℤ ⊕ Message)
  | recvLocked (caller : TaskRef) (handle : Word) : Action RecvStatus

namespace Kernel

/-- Follow `task->cpu->scheduler`; both pointers must be set. -/
def schedulerOf (k : Kernel) (t : TaskRef) : Outcome Unit :=
  match (k.tasks t).cpu with
  | none => .error .nullPointer k
  | some h => if (k.harts h).scheduler then .ok () k else .error .nullPointer k

theorem schedulerOf_cases (k : Kernel) (t : TaskRef) :
    k.schedulerOf t = .ok () k ∨ k.schedulerOf t = .error .nullPointer k := by
  rw [schedulerOf]
  split
  · exact .inr rfl
  · split
    · exact .inl rfl
    · exact .inr rfl

/-- Note the id a new task was given. -/
def withTid (result : Outcome (Option TaskRef)) : Outcome (Option (TaskRef × TaskId)) :=
  result.andThen fun child k => .ok (child.map fun t => (t, (k.tasks t).tid)) k

/-- Spin on a lock until it is free. -/
def acquire (k : Kernel) (h : HartIndex) (lock : Lock) : Outcome Unit :=
  match k.locks lock with
  | none => .ok () (k.setLock lock (some h))
  | some _ => .error .spin k

end Kernel

/-- A section that cannot stop the hart. -/
def Outcome.total {β : Type} (result : β × Kernel) : Outcome β := .ok result.1 result.2

/-- The effect of an action on the hart `h`. -/
def exec (h : HartIndex) : {β : Type} → Action β → Kernel → Outcome β
  | _, .acquire lock, k => k.acquire h lock
  | _, .release lock, k => .ok () (k.setLock lock none)
  | _, .park site, k => .error (.park site) k
  | _, .diverge, k => .error .unbounded k
  | _, .loadTask t, k => .ok (k.tasks t) k
  | _, .loadHart h', k => .ok (k.harts h') k
  | _, .isBootUserEntry entry, k => .ok (k.isBootUserEntry entry) k
  | _, .timeManagerInitialized, k => .ok k.timeManagerInitialized k
  | _, .scheduler t, k => k.schedulerOf t
  | _, .yieldScheduler caller _, k => k.schedulerOf caller
  | _, .yieldIdle caller _, k => .ok (k.tasks caller).idle k
  | _, .createdTid child _, k => .ok (k.tasks child).tid k
  | _, .setReg t i value, k => .ok () (k.setReg t i value)
  | _, .writeRecvRegisters t a0 message, k => .ok () (k.writeRecvRegisters t a0 message)
  | _, .advanceMepc t, k => .ok () (k.modifyTask t fun task =>
      { task with context.mepc := task.context.mepc + 4 })
  | _, .setState t state, k => .ok () (k.modifyTask t fun task => { task with state := state })
  | _, .setStateInfo t info, k =>
    .ok () (k.modifyTask t fun task => { task with stateInfo := info })
  | _, .setTimeslice ticks, k =>
    .ok () (k.modifyHart h fun hart => { hart with timesliceTicks := ticks })
  | _, .countPreemption, k => .ok () (k.modifyHart h fun hart =>
      { hart with schedulerPreemptionCount := hart.schedulerPreemptionCount + 1 })
  | _, .setCompare deadline, k =>
    .ok () (k.modifyHart h fun hart => { hart with compare := deadline })
  | _, .enterTrap frame, k => .ok () (k.modifyHart h fun hart =>
      { hart with frame := frame, mstatus := frame.mstatus })
  | _, .saveCurrentContext, k => k.saveCurrentContext h
  | _, .restoreCurrentContext, k => k.restoreCurrentContext h
  | _, .setCurrentTask t, k => k.setCurrentTask h t
  | _, .runQueueInsert q t, k => .total (k.runQueueInsert q t)
  | _, .runQueueRemove q, k => k.runQueueRemove q
  | _, .runQueueSize q, k => .ok (k.runQueues q).size k
  | _, .delayQueueInsert q t deadline, k => k.delayQueueInsert q t deadline
  | _, .delayQueueRemoveExpired q now, k => .total (k.delayQueueRemoveExpired q now)
  | _, .delayQueueTicksUntilNext q now maximum, k =>
    .ok (k.delayQueueTicksUntilNext q now maximum) k
  | _, .createTaskLocked entry argument space owner kernelParent idle withStack, k =>
    Kernel.withTid (k.createTaskLocked h entry argument space owner kernelParent idle withStack)
  | _, .endTaskLocked t returnValue status, k => k.endTaskLocked t returnValue status
  | _, .releaseTaskLocked t, k => k.releaseTaskLocked t
  | _, .waitTaskLocked t tid, k => k.waitTaskLocked t tid
  | _, .detachTaskLocked t, k => .total (k.detachTaskLocked t)
  | _, .findFreeEndpoint, k => .ok k.findFreeEndpoint k
  | _, .createEndpointLocked e owner, k => .total (k.createEndpointLocked e owner)
  | _, .destroyEndpointLocked caller parsed, k => .total (k.destroyEndpointLocked caller parsed)
  | _, .destroyPop e, k => .total (k.destroyPop e)
  | _, .sendLocked sender parsed words, k => k.sendLocked sender parsed words
  | _, .tryRecvLocked parsed, k => .total (k.tryRecvLocked parsed)
  | _, .recvLocked caller handle, k => k.recvLocked caller handle

/-- Kernel code as a program of actions. -/
abbrev KProc := Proc Action

namespace KProc

/-- Code under a spinlock: the guard is taken first and dropped at the end. -/
def locked {α : Type} (lock : Lock) (body : KProc α) : KProc α := do
  Proc.perform (.acquire lock)
  let result ← body
  Proc.perform (.release lock)
  return result

/-- `hart::park` unless the condition holds. -/
def parkUnless (condition : Bool) (site : ParkSite) : KProc Unit :=
  if condition then pure () else Proc.perform (.park site)

end KProc

end Jixia
