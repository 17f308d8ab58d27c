/-
The run queues and the delay queues.

Each function is the body of one lock section of `scheduler.cpp` or
`time_manager.cpp`, statement by statement.  Both queues are intrusive lists
through the task records.
-/
import Jixia.Kernel

namespace Jixia

namespace Kernel

/-! ### RunQueue -/

/-- `RunQueue::insert`: append the task and make it ready, unless it is already
in some queue or has ended. -/
def runQueueInsert (k : Kernel) (q : RunQueueRef) (t : TaskRef) : Bool × Kernel :=
  let task := k.tasks t
  if task.queued || task.delay.queued || task.messageWait.queued || task.state == .ended then
    (false, k)
  else
    let tail := (k.runQueues q).tail
    let k := k.modifyTask t fun task => { task with previous := tail, next := none }
    let k := match tail with
      | some last => k.modifyTask last fun task => { task with next := some t }
      | none => k.modifyRunQueue q fun queue => { queue with head := some t }
    let k := k.modifyRunQueue q fun queue => { queue with tail := some t }
    let k := k.modifyTask t fun task => { task with state := .ready, queued := true }
    (true, k.modifyRunQueue q fun queue => { queue with size := queue.size + 1 })

/-- `RunQueue::remove`: unlink the first task.  Only a ready task that waits
nowhere else may come out. -/
def runQueueRemove (k : Kernel) (q : RunQueueRef) : Outcome (Option TaskRef) :=
  match (k.runQueues q).head with
  | none => .ok none k
  | some selected =>
    let head := (k.tasks selected).next
    let k := k.modifyRunQueue q fun queue => { queue with head := head }
    let k := match head with
      | some first => k.modifyTask first fun task => { task with previous := none }
      | none => k.modifyRunQueue q fun queue => { queue with tail := none }
    let k := k.modifyTask selected fun task =>
      { task with previous := none, next := none, queued := false }
    let k := k.modifyRunQueue q fun queue => { queue with size := queue.size - 1 }
    let task := k.tasks selected
    if task.state != .ready || task.delay.queued || task.messageWait.queued then
      .error (.park .runQueueRemove) k
    else
      .ok (some selected) k

/-! ### DelayQueue -/

/-- The search loop of `DelayQueue::insert`: past every deadline that is not
later.  Returns the neighbours of the insertion point. -/
def delaySeek (k : Kernel) (deadline : Word) :
    ℕ → Option TaskRef → Option TaskRef → Option (Option TaskRef × Option TaskRef)
  | 0, _, _ => none
  | _ + 1, previous, none => some (previous, none)
  | fuel + 1, previous, some cursor =>
    if (k.tasks cursor).delay.deadline ≤ deadline then
      delaySeek k deadline fuel (some cursor) (k.tasks cursor).delay.next
    else
      some (previous, some cursor)

/-- `DelayQueue::insert`: keep the queue sorted by deadline, later arrivals
behind equal deadlines. -/
def delayQueueInsert (k : Kernel) (q : HartIndex) (t : TaskRef) (deadline : Word) :
    Outcome Bool :=
  let task := k.tasks t
  if task.delay.queued || task.queued || task.state == .ended then
    .ok false k
  else
    -- A list of table slots is never longer than the table.
    match delaySeek k deadline (kMaxTasks + 1) none (k.delayQueues q) with
    | none => .error .unbounded k
    | some (previous, cursor) =>
      let k := k.modifyTask t fun task => { task with
        delay := { previous := previous, next := cursor, deadline := deadline, queued := true } }
      let k := match previous with
        | some before =>
          k.modifyTask before fun task => { task with delay.next := some t }
        | none => k.setDelayHead q (some t)
      let k := match cursor with
        | some after => k.modifyTask after fun task => { task with delay.previous := some t }
        | none => k
      .ok true k

/-- `DelayQueue::remove_expired`: take the first task off if its deadline has
been reached. -/
def delayQueueRemoveExpired (k : Kernel) (q : HartIndex) (now : Word) :
    Option TaskRef × Kernel :=
  match k.delayQueues q with
  | none => (none, k)
  | some t =>
    if (k.tasks t).delay.deadline > now then
      (none, k)
    else
      let head := (k.tasks t).delay.next
      let k := k.setDelayHead q head
      let k := match head with
        | some first => k.modifyTask first fun task => { task with delay.previous := none }
        | none => k
      (some t, k.modifyTask t fun task => { task with
        delay := { task.delay with previous := none, next := none, queued := false } })

/-- `DelayQueue::ticks_until_next`. -/
def delayQueueTicksUntilNext (k : Kernel) (q : HartIndex) (now maximum : Word) : Word :=
  match k.delayQueues q with
  | none => maximum
  | some head =>
    let deadline := (k.tasks head).delay.deadline
    if deadline ≤ now then 1
    else
      let remaining := deadline - now
      if remaining < maximum then remaining else maximum

end Kernel

/-! ### Time -/

def kFrequencyHz : Word := 10000000
def kNanosecondsPerSecond : Word := 1000000000
def kTaskTimesliceTicks : Word := 100000
def kIdleTimesliceTicks : Word := 1000000

/-- `TimeManager::duration_to_ticks`; zero means that the duration is refused. -/
def durationToTicks (seconds nanoseconds : Word) : Word :=
  if kNanosecondsPerSecond ≤ nanoseconds then 0
  else if seconds > BitVec.allOnes 64 / kFrequencyHz then 0
  else
    let secondsTicks := seconds * kFrequencyHz
    let nanosecondsTicks :=
      (nanoseconds * kFrequencyHz + kNanosecondsPerSecond - 1) / kNanosecondsPerSecond
    if secondsTicks > BitVec.allOnes 64 - nanosecondsTicks then 0
    else
      let ticks := secondsTicks + nanosecondsTicks
      if ticks == 0 then 1 else ticks

end Jixia
