/-
The paths of the kernel, walked once.

Many facts about kernel code are kept by pure code, by single actions, by sequences and by
lock sections.  Such a fact then holds of every kernel path, and this module is the walk that
shows it: `PathRules` are the rules for the fact, `walk_…` the paths.  `CallRules` adds the
dispatch of the next task, which sets the current task and its time slice.

* `PathRules`, `CallRules` — what a fact has to be closed under;
* `walk_callPart`, `walk_interruptPart` — every syscall and a timer interrupt, up to the arming of
  the timer.

The locks are kept in the order of their ranks, so that the rule for a lock section may use it.
-/
import Jixia.TaskSyscall

namespace Jixia

open Proc KProc

/-! ### Ranks of the locks -/

/-- The place of a lock in the order. -/
def lockRank : Lock → Fin 5
  | .table => 0
  | .endpoint _ => 1
  | .taskManager => 2
  | .runQueue _ => 3
  | .delayQueue _ => 4

/-- All held locks are of a lower rank. -/
def Below (rank : Fin 5) (held : List Lock) : Prop := ∀ l ∈ held, lockRank l < rank

section Below

variable {held : List Lock}

theorem Below.mono {rank rank' : Fin 5} (hb : Below rank held) (hr : rank ≤ rank') :
    Below rank' held :=
  fun l hl => (hb l hl).trans_le hr

theorem Below.cons {rank : Fin 5} {lock : Lock} (hb : Below rank held)
    (hl : lockRank lock < rank) : Below rank (lock :: held) := by
  intro l hmem
  rcases List.mem_cons.mp hmem with rfl | hmem
  · exact hl
  · exact hb l hmem

theorem Below.table (hb : Below 0 held) : Below 1 (.table :: held) :=
  (hb.mono (by decide)).cons (by decide)

theorem Below.endpoint (hb : Below 1 held) (e : EndpointRef) : Below 3 (.endpoint e :: held) :=
  (hb.mono (by decide)).cons (show (1 : Fin 5) < 3 by decide)

theorem Below.taskManager (hb : Below 2 held) : Below 3 (.taskManager :: held) :=
  (hb.mono (by decide)).cons (by decide)

theorem below_nil {rank : Fin 5} : Below rank [] := fun _ hl => absurd hl List.not_mem_nil

end Below

/-! ### Rules -/

/-- The action neither takes or drops a lock nor selects a task nor sets the timer. -/
def Action.isPlain : {β : Type} → Action β → Bool
  | _, .acquire _ | _, .release _ | _, .setTimeslice _ | _, .setCurrentTask _ | _, .setCompare _ =>
    false
  | _, _ => true

/-- A fact about programs that hold some locks is kept by the ways to build a kernel path. -/
structure PathRules (W : ∀ {α : Type}, KProc α → List Lock → Prop) : Prop where
  ret : ∀ {α : Type} (x : α) {held : List Lock}, W (pure x) held
  seq : ∀ {α β : Type} {p : KProc α} {f : α → KProc β} {held : List Lock}, W p held →
    (∀ x, W (f x) held) → W (p >>= f) held
  act : ∀ {β : Type} {a : Action β} {held : List Lock}, a.isPlain = true → W (perform a) held
  guard : ∀ {α : Type} {lock : Lock} {body : KProc α} {held : List Lock},
    Below (lockRank lock) held → W body (lock :: held) → W (locked lock body) held

/-- The fact is also kept when the hart is given its next task. -/
structure CallRules (h : HartIndex) (W : ∀ {α : Type}, KProc α → List Lock → Prop) : Prop
    extends PathRules W where
  select : ∀ {held : List Lock} (clock : Clock), Below 3 held → W (setNextRunnable h clock) held

section Paths

variable {W : ∀ {α : Type}, KProc α → List Lock → Prop} (R : PathRules W) {α β : Type}
  {held : List Lock} {h : HartIndex} {clock : Clock}

include R

theorem PathRules.step {a : Action β} {f : β → KProc α} (ha : a.isPlain = true)
    (hf : ∀ b, W (f b) held) : W (perform a >>= f) held :=
  R.seq (R.act ha) hf

theorem walk_parkUnless (condition : Bool) (site : ParkSite) :
    W (parkUnless condition site) held := by
  rw [parkUnless]
  split
  · exact R.ret ()
  · exact R.act rfl

/-! ### Scheduler -/

theorem walk_runQueueInsert (hb : Below 3 held) (q : RunQueueRef) (t : TaskRef) :
    W (runQueueInsert q t) held :=
  R.guard hb (R.act rfl)

theorem walk_runQueueRemove (hb : Below 3 held) (q : RunQueueRef) :
    W (runQueueRemove q) held :=
  R.guard hb (R.act rfl)

theorem walk_runQueueSize (hb : Below 3 held) (q : RunQueueRef) :
    W (runQueueSize q) held :=
  R.guard hb (R.act rfl)

/-- A section of a delay queue. -/
theorem walk_delayQueue (hb : Below 4 held) (q : HartIndex) {a : Action α}
    (ha : a.isPlain = true) : W (locked (.delayQueue q) (perform a)) held :=
  R.guard hb (R.act ha)

theorem walk_addTask (hb : Below 3 held) (t : TaskRef) : W (addTask t) held := by
  refine R.step rfl fun task => ?_
  split
  · exact R.ret false
  · split
    · rw [pinnedInsert]
      split
      · exact R.ret false
      · refine R.step rfl fun hart => ?_
        split
        · exact R.ret false
        · exact walk_runQueueInsert R hb _ t
    · exact walk_runQueueInsert R hb _ t

/-- Make a task ready; a failure parks the hart. -/
theorem walk_wake (hb : Below 3 held) (t : TaskRef) (site : ParkSite) {rest : KProc α}
    (hrest : W rest held) :
    W (do
      let added ← addTask t
      parkUnless added site
      rest) held :=
  R.seq (walk_addTask R hb t) fun added => R.seq (walk_parkUnless R added site) fun _ => hrest

theorem walk_returnRunnable (hb : Below 3 held) : W (returnRunnable h) held := by
  refine R.step rfl fun hart => ?_
  split
  · exact R.ret ()
  · rename_i current _
    refine R.step rfl fun task => ?_
    split
    · exact R.ret ()
    · exact R.seq (walk_addTask R hb current) fun added => walk_parkUnless R added _

theorem walk_removeNext (hb : Below 3 held) (hart : HartLocal) :
    W (removeNext hart) held := by
  have hlocal : W (removeLocal hart) held := by
    rw [removeLocal]
    split
    · exact R.ret none
    · exact walk_runQueueRemove R hb _
  refine R.seq hlocal fun selected => ?_
  split
  · exact R.ret _
  · refine R.seq (walk_runQueueSize R hb _) fun size => ?_
    split
    · exact walk_runQueueRemove R hb _
    · exact R.ret none

/-! ### TimeManager -/

theorem walk_currentTicks (hb : Below 4 held) (hart : HartLocal) :
    W (currentTicks hart clock) held := by
  rw [currentTicks]
  split
  · exact R.ret _
  · refine R.step rfl fun task => ?_
    split
    · rw [idleTicks]
      split
      · exact walk_delayQueue R hb _ rfl
      · exact R.step rfl fun _ => R.ret _
    · exact R.ret _

theorem walk_idleTimesliceTicks (hb : Below 4 held) (hart : HartLocal) :
    W (idleTimesliceTicks hart clock) held := by
  rw [idleTimesliceTicks]
  split
  · exact R.ret _
  · exact walk_delayQueue R hb _ rfl

theorem walk_delayTask (hb : Below 4 held) (t : TaskRef) (seconds nanoseconds : Word) :
    W (delayTask h t seconds nanoseconds clock) held := by
  refine R.step rfl fun initialized => R.step rfl fun hart => R.step rfl fun task => ?_
  split
  · exact R.ret false
  split
  · exact R.ret false
  simp only
  split
  · exact R.ret false
  refine R.step rfl fun owner => ?_
  split
  · exact R.ret false
  split
  · exact R.ret false
  · refine R.step rfl fun _ => R.step rfl fun _ =>
      R.seq (walk_delayQueue R hb _ rfl) fun queued => ?_
    split
    · exact R.ret true
    · exact R.step rfl fun _ => R.step rfl fun _ => R.ret false

theorem walk_releaseExpired (hb : Below 3 held) (q : HartIndex) (fuel : ℕ) :
    W (releaseExpired q clock fuel) held := by
  induction fuel with
  | zero => exact R.act rfl
  | succ fuel ih =>
    refine R.seq (walk_delayQueue R (hb.mono (by decide)) q rfl) fun expired => ?_
    split
    · exact R.ret ()
    · exact R.step rfl fun _ => walk_wake R hb _ _ ih

theorem walk_checkReleaseTasks (hb : Below 3 held) : W (checkReleaseTasks h clock) held := by
  refine R.step rfl fun hart => ?_
  split
  · exact R.act rfl
  · exact walk_releaseExpired R hb _ _

/-! ### TaskManager -/

theorem walk_createTask (hb : Below 2 held) (entry argument : Word) (space : AddressSpace)
    (owner : HartIndex) (kernelParent : Bool) :
    W (createTask entry argument space owner kernelParent) held :=
  R.guard hb (R.act rfl)

theorem walk_reap (hb : Below 2 held) (t : TaskRef) (value : Word) (status : ExitStatus) :
    W (reap t value status) held := by
  refine R.guard hb (R.step rfl fun waiter => ?_)
  have hwake : W (joinWake waiter) (.taskManager :: held) := by
    cases waiter with
    | none => exact R.ret ()
    | some t =>
      exact R.step rfl fun _ =>
        R.seq (walk_addTask R hb.taskManager t) fun added => walk_parkUnless R added _
  exact R.seq hwake fun _ => R.act rfl

theorem walk_detachTask (hb : Below 2 held) (t : TaskRef) : W (detachTask h t) held :=
  R.step rfl fun _ => R.seq (walk_parkUnless R _ _) fun _ =>
    R.guard hb (R.act rfl)

/-! ### EndpointManager -/

theorem walk_createEndpoint (hb : Below 0 held) (owner : TaskId) :
    W (createEndpoint owner) held := by
  refine R.guard hb (R.step rfl fun free => ?_)
  split
  · exact R.ret _
  · exact R.guard hb.table (R.step rfl fun _ => R.ret _)

theorem walk_wakeAll (hb : Below 3 held) (e : EndpointRef) (fuel : ℕ) :
    W (wakeAll e fuel) held := by
  induction fuel with
  | zero => exact R.act rfl
  | succ fuel ih =>
    refine R.step rfl fun receiver => ?_
    split
    · exact R.ret ()
    · exact R.step rfl fun _ => walk_wake R hb _ _ ih

theorem walk_destroyEndpoint (hb : Below 0 held) (caller : TaskId) (handle : Word) :
    W (destroyEndpoint caller handle) held := by
  rw [destroyEndpoint]
  split
  · refine R.guard hb (R.guard hb.table (R.step rfl fun step => ?_))
    split
    · exact R.ret _
    · exact R.seq (walk_wakeAll R (hb.table.endpoint _) _ _) fun _ =>
        R.ret 0
  · exact R.ret _

theorem walk_send (hb : Below 1 held) (sender : TaskId) (handle : Word)
    (words : Fin 4 → Word) : W (send sender handle words) held := by
  rw [send]
  split
  · refine R.guard hb (R.step rfl fun step => ?_)
    split
    · exact R.ret _
    · exact R.step rfl fun _ =>
        walk_wake R (hb.endpoint _) _ _ (R.ret 0)
  · exact R.ret _

theorem walk_tryRecv (hb : Below 1 held) (handle : Word) : W (tryRecv handle) held := by
  rw [tryRecv]
  split
  · exact R.guard hb (R.act rfl)
  · exact R.ret _

end Paths

section Calls

variable {W : ∀ {α : Type}, KProc α → List Lock → Prop} {h : HartIndex} (R : CallRules h W)
  {held : List Lock} {clock : Clock}

include R

/-! ### Paths that dispatch the next task -/

theorem walk_endTask (hb : Below 2 held) (t : TaskRef) (value : Word) (status : ExitStatus) :
    W (endTask h t value status clock) held := by
  refine R.step rfl fun hart => R.step rfl fun task => ?_
  split
  · exact R.step rfl fun _ => R.step rfl fun _ =>
      R.seq (R.select clock (hb.mono (by decide))) fun _ =>
        walk_reap R.toPathRules hb t value status
  · exact R.seq (walk_parkUnless R.toPathRules _ _) fun _ => R.step rfl fun _ =>
      walk_reap R.toPathRules hb t value status

theorem walk_waitTask (hb : Below 2 held) (t : TaskRef) (tid : Word) :
    W (waitTask h t tid clock) held := by
  refine R.step rfl fun hart => R.seq (walk_parkUnless R.toPathRules _ _) fun _ =>
    R.guard hb (R.step rfl fun result => ?_)
  cases result with
  | blocked =>
    exact R.step rfl fun _ =>
      R.seq (R.select clock hb.taskManager) fun _ => R.ret _
  | noChild => exact R.ret _
  | completed => exact R.ret _

theorem walk_recv (hb : Below 1 held) (caller : TaskRef) (handle : Word) :
    W (recv h caller handle clock) held := by
  refine R.step rfl fun task => R.seq (walk_parkUnless R.toPathRules _ _) fun _ => ?_
  simp only
  split
  · refine R.guard hb (R.step rfl fun status => ?_)
    cases status with
    | blocked =>
      exact R.step rfl fun _ =>
        R.seq (R.select clock (hb.endpoint _)) fun _ => R.ret _
    | delivered => exact R.ret _
    | rejected => exact R.ret _
  · exact R.step rfl fun _ => R.ret _

variable (caller : TaskRef) (tid : TaskId)

theorem walk_createCall : W (createCall caller) [] := by
  refine R.step rfl fun task => R.step rfl fun accepted => ?_
  split
  · exact R.step rfl fun _ => R.ret _
  · exact R.step rfl fun _ => R.ret _
  · refine R.seq (walk_createTask R.toPathRules below_nil _ _ _ _ _) fun child => ?_
    split
    · exact R.step rfl fun _ => R.ret _
    · refine R.seq ?_ fun _ => R.ret _
      exact R.step rfl fun _ => walk_wake R.toPathRules below_nil _ _
        (R.step rfl fun _ => R.act rfl)

theorem walk_waitCall : W (waitCall h caller clock) [] := by
  refine R.step rfl fun task => ?_
  simp only
  split
  · exact R.step rfl fun _ => R.ret _
  · refine R.seq (walk_waitTask R below_nil caller _) fun result => ?_
    split
    · exact R.step rfl fun _ => R.ret _
    · exact R.ret _
    · exact R.ret _

theorem walk_sleepCall : W (sleepCall h caller clock) [] := by
  refine R.step rfl fun task => R.step rfl fun _ =>
    R.seq (walk_delayTask R.toPathRules below_nil caller _ _) fun delayed => ?_
  split
  · exact R.step rfl fun _ => R.seq (R.select clock below_nil) fun _ => R.ret _
  · exact R.step rfl fun _ => R.ret _

theorem walk_tryRecvCall : W (tryRecvCall caller) [] := by
  refine R.step rfl fun task => R.seq (walk_tryRecv R.toPathRules below_nil _) fun result => ?_
  split
  · exact R.step rfl fun _ => R.ret _
  · exact R.step rfl fun _ => R.ret _

theorem walk_syscallBody (number : Option Syscall) :
    W (syscallBody h caller tid clock number) [] := by
  cases number with
  | none => exact R.seq (walk_endTask R below_nil caller 0 .crashed) fun _ => R.ret _
  | some number =>
    cases number with
    | yield =>
      exact R.step rfl fun _ => R.step rfl fun _ =>
        R.seq (walk_returnRunnable R.toPathRules below_nil) fun _ => R.step rfl fun _ =>
          R.seq (R.select clock below_nil) fun _ => R.step rfl fun _ => R.ret _
    | create => exact walk_createCall R caller
    | endTask =>
      exact R.step rfl fun _ =>
        R.seq (walk_endTask R below_nil caller _ .exitedClean) fun _ => R.ret _
    | wait => exact walk_waitCall R caller
    | detach =>
      exact R.seq (walk_detachTask R.toPathRules below_nil caller) fun _ =>
        R.step rfl fun _ => R.ret _
    | sleep => exact walk_sleepCall R caller
    | endpointCreate =>
      exact R.step rfl fun _ =>
        R.seq (walk_createEndpoint R.toPathRules below_nil _) fun _ => R.step rfl fun _ => R.ret _
    | endpointDestroy =>
      exact R.step rfl fun _ =>
        R.seq (walk_destroyEndpoint R.toPathRules below_nil _ _) fun _ =>
          R.step rfl fun _ => R.ret _
    | send =>
      exact R.step rfl fun _ =>
        R.seq (walk_send R.toPathRules below_nil _ _ _) fun _ => R.step rfl fun _ => R.ret _
    | call => exact R.step rfl fun _ => R.ret _
    | recv =>
      exact R.step rfl fun _ =>
        R.seq (walk_recv R below_nil caller _) fun _ => R.ret _
    | tryRecv => exact walk_tryRecvCall R caller
    | reply => exact R.step rfl fun _ => R.ret _

omit R

/-! ### Traps up to the arming of the timer -/

/-- `try_handle` up to the arming of the timer; the result says whether it is armed. -/
def callPart (h : HartIndex) (caller : TaskRef) (tid : TaskId) (clock : Clock) : KProc Bool := do
  perform .saveCurrentContext
  perform (.advanceMepc caller)
  let task ← perform (.loadTask caller)
  let rescheduled ← syscallBody h caller tid clock (Syscall.ofNumber (task.context.x 17))
  perform .restoreCurrentContext
  return rescheduled

theorem tryHandle_eq : tryHandle h caller tid clock = (do
    let rescheduled ← callPart h caller tid clock
    if rescheduled then armCurrentTimeslice h clock else pure ()) := by
  simp only [tryHandle, callPart, perform_bind, act_bind, Proc.bind_assoc, pure_eq, ret_bind]

/-- `handle_timer_interrupt` between the disarming and the arming of the timer. -/
def interruptPart (h : HartIndex) (interrupted : TaskRef) (clock : Clock) : KProc Unit := do
  let task ← perform (.loadTask interrupted)
  checkInterrupted task
  perform .saveCurrentContext
  checkReleaseTasks h clock
  let task ← perform (.loadTask interrupted)
  returnRunnable h
  let selected ← setNextRunnable h clock
  notePreemption task selected
  perform .restoreCurrentContext

theorem handleTimerInterrupt_eq : handleTimerInterrupt h caller clock = (do
    perform (.setCompare (BitVec.allOnes 64))
    interruptPart h caller clock
    armCurrentTimeslice h clock) := by
  simp only [handleTimerInterrupt, interruptPart, perform_bind, act_bind, Proc.bind_assoc]

include R

theorem walk_callPart : W (callPart h caller tid clock) [] :=
  R.step rfl fun _ => R.step rfl fun _ => R.step rfl fun _ =>
    R.seq (walk_syscallBody R caller tid _) fun _ => R.step rfl fun _ => R.ret _

theorem walk_interruptPart : W (interruptPart h caller clock) [] := by
  refine R.step rfl fun task => ?_
  have hcheck : W (checkInterrupted task) [] := by
    rw [checkInterrupted]
    split
    · exact R.act rfl
    · exact R.step rfl fun _ => walk_parkUnless R.toPathRules _ _
  refine R.seq hcheck fun _ => R.step rfl fun _ =>
    R.seq (walk_checkReleaseTasks R.toPathRules below_nil) fun _ => R.step rfl fun task =>
      R.seq (walk_returnRunnable R.toPathRules below_nil) fun _ =>
        R.seq (R.select clock below_nil) fun selected => ?_
  have hnote : W (notePreemption task selected) [] := by
    cases selected with
    | none => exact R.ret ()
    | some t =>
      refine R.step rfl fun _ => ?_
      split
      · exact R.act rfl
      · exact R.ret ()
  exact R.seq hnote fun _ => R.act rfl

end Calls

end Jixia
