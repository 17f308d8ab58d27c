/-
Outlines of the trap handlers.

A hart leaves user mode with its current task in its hands (`User`) and comes back to
user mode in the same situation, with the same task or with another one.

* `outline_syscallBody` — every syscall, for its legal callers;
* `outline_dispatch` — every trap out of user mode;
* `outline_secondaryBootstrap` — the first task of a secondary hart.
-/
import Jixia.TaskOutlines

namespace Jixia

open Machine Proc KProc Holding Function

variable {solo legal : Prop} {h : HartIndex} {c i t : TaskRef} {x y : Task} {tid : TaskId}

/-- The caller goes on. -/
theorem user_of_caller {k : Kernel} {loc : Loc} (hat : Holds solo h (caller i c x) k loc)
    (hs : x.state = .running) (hc : x.cpu = some h) : User solo h k loc :=
  ⟨i, c, x, ⟨hs, hc⟩, hat⟩

/-- The hart enters the code with the caller in its hands and leaves it for user mode. -/
abbrev Handles (solo legal : Prop) (h : HartIndex) (i c : TaskRef) (x : Task) {α : Type}
    (p : KProc α) : Prop :=
  Outline solo legal h p (Holds solo h (caller i c x)) fun _ => User solo h

/-- The caller gets a result and goes on. -/
theorem outline_answer (hx : Calling h i c x) (r : Fin 32) (value : Word) {α : Type} (b : α) :
    Handles solo legal h i c x (do perform (.setReg c r value); return b) := by
  refine (outline_setReg (caller_self i c x) r value).bind fun _ => ?_
  rw [hold_hold]
  exact .ret fun _ _ _ hat => user_of_caller hat hx.running hx.cpu

/-! ### The syscalls -/

/-- YIELD, of any task. -/
theorem outline_yieldCall (hs : x.state = .running) (clock : Clock) :
    Handles solo legal h i c x (yieldCall h c tid clock) := by
  refine (outline_setReg (caller_self i c x) 10 0).bind fun _ => ?_
  rw [hold_hold]
  refine (outline_scheduler_held (caller_self ..)).bind fun _ => ?_
  have hstate : ({ x with context := x.context.setX 10 0 } : Task).state ≠ .ended := by
    rw [show ({ x with context := x.context.setX 10 0 } : Task).state = .running from hs]
    exact TaskState.noConfusion
  refine (outline_returnRunnable rfl (caller_self ..) hstate (leaf_nil rfl)).bind fun _ => ?_
  rw [caller_drop]
  refine outline_yieldScheduler.bind fun _ => ?_
  refine (outline_dispatchNext (L := []) (leaf_nil rfl) clock (some c)).bind fun _ => ?_
  refine .exists fun i' => .exists fun c' => .exists fun x' => .pure fun hx' => ?_
  refine (outline_readAny (a := .yieldIdle c tid) (fun _ _ => trivial) (fun _ => ⟨_, rfl⟩)
    fun _ _ => rfl).bind fun _ => .ret fun _ _ _ hat => user_of_caller hat hx'.1 hx'.2

/-- The child is published; its slot is read again for its id. -/
theorem outline_publishChild (hx : Calling h i c x) (hy : y.state = .ready)
    (hidle : y.idle = false) (hne : t ≠ c) :
    Outline solo legal h (publishChild c t tid) (Holds solo h ((caller i c x).hold t y))
      fun _ => User solo h := by
  have hheld : ((caller i c x).hold t y).tasks c = some x := by
    rw [hold_of_ne hne.symm]
    exact caller_self i c x
  refine (outline_scheduler_held hheld).bind fun _ => ?_
  have hadd : Outline solo legal h (addTask t) (Holds solo h ((caller i c x).hold t y)) _ :=
    outline_addTask (hold_self ..) hidle (by rw [hy]; exact TaskState.noConfusion) (leaf_nil rfl)
  rw [hold_drop, drop_none (caller_other hne)] at hadd
  refine hadd.bind fun b => .pure fun hb => (outline_parkUnless hb).bind fun _ => ?_
  refine ((outline_readAny (a := .createdTid t tid) (fun _ _ => trivial) (fun _ => ⟨_, rfl⟩)
    fun _ _ => rfl).pre fun _ _ _ hp => hp.1).bind fun childTid => ?_
  exact (outline_answer hx 10 childTid ()).post fun _ _ _ _ hu => hu

theorem outline_createCall (hx : Calling h i c x) :
    Handles solo legal h i c x (createCall c) := by
  refine (outline_loadTask (caller_self i c x)).bind fun task => .pure ?_
  rintro ⟨rfl, -⟩
  refine (outline_readAny (a := .isBootUserEntry (task.context.x 10)) (fun _ _ => trivial)
    (fun _ => ⟨_, rfl⟩) fun _ _ => rfl).bind fun accepted => ?_
  rw [hx.cpu]
  cases accepted with
  | false => exact outline_answer hx 10 _ false
  | true =>
    refine (outline_createTask hx _ _ _).bind fun b => .or (.pure ?_)
      (.exists fun t => .exists fun y => .pure ?_)
    · rintro rfl
      exact outline_answer hx 10 _ false
    · rintro ⟨rfl, hy, hidle, hne⟩
      exact (outline_publishChild hx hy hidle hne).bind fun _ => .ret fun _ _ _ hu => hu

theorem outline_endCall (hx : Calling h i c x) (clock : Clock) :
    Handles solo legal h i c x (endCall h c clock) := by
  refine (outline_loadTask (caller_self i c x)).bind fun task => .pure fun _ => ?_
  exact (outline_endTask hx _ (fun _ => rfl) clock).bind fun _ => .ret fun _ _ _ hu => hu

theorem outline_waitCall (hx : Calling h i c x) (clock : Clock) :
    Handles solo legal h i c x (waitCall h c clock) := by
  refine (outline_loadTask (caller_self i c x)).bind fun task => .pure ?_
  rintro ⟨rfl, -⟩
  simp only
  split
  · exact outline_answer hx 10 _ false
  · refine (outline_waitTask hx _ clock).bind fun b => .or (.exists fun context => .pure ?_)
      (.pure ?_)
    · intro hb
      cases b with
      | blocked => exact absurd rfl hb
      | noChild => exact outline_answer (hx.context context) 10 _ false
      | completed => exact .ret fun _ _ _ hat => user_of_caller hat hx.running hx.cpu
    · rintro rfl
      exact .ret fun _ _ _ hu => hu

theorem outline_detachCall (hx : Calling h i c x) :
    Handles solo legal h i c x (detachCall h c) := by
  refine (outline_detachTask hx).bind fun detached => ?_
  exact outline_answer (x := { x with detached := true })
    ⟨hx.running, hx.cpu, hx.idle, hx.ne⟩ 10 _ false

theorem outline_sleepCall (hx : Calling h i c x) (clock : Clock) :
    Handles solo legal h i c x (sleepCall h c clock) := by
  refine (outline_loadTask (caller_self i c x)).bind fun task => .pure ?_
  rintro ⟨rfl, -⟩
  refine (outline_setReg (caller_self i c task) 10 0).bind fun _ => ?_
  rw [hold_hold]
  refine (outline_delayTask (x := { task with context := task.context.setX 10 0 })
    (caller_self ..) hx.idle hx.cpu (leaf_nil rfl) _ _ clock).bind fun b =>
      .or (.pure ?_) (.pure ?_)
  · rintro rfl
    exact outline_answer (hx.context _) 10 _ false
  · rintro rfl
    rw [caller_drop, if_pos rfl]
    refine (outline_scheduler (h := h) (S := empty i (some c)) (F := Sleeping h c)
      fun k loc hat => ⟨.delay h, hat.frame⟩).bind fun _ => ?_
    exact (outline_dispatchNext (L := []) (leaf_nil rfl) clock (some c)).bind
      fun _ => .ret fun _ _ _ hu => hu

theorem outline_endpointCreateCall (hx : Calling h i c x) :
    Handles solo legal h i c x (endpointCreateCall c) := by
  refine (outline_loadTask (caller_self i c x)).bind fun task => .pure fun _ => ?_
  exact (outline_createEndpoint rfl task.tid).bind fun _ => outline_answer hx 10 _ false

theorem outline_endpointDestroyCall (hx : Calling h i c x) :
    Handles solo legal h i c x (endpointDestroyCall c) := by
  refine (outline_loadTask (caller_self i c x)).bind fun task => .pure fun _ => ?_
  exact (outline_destroyEndpoint rfl task.tid _).bind fun _ => outline_answer hx 10 _ false

theorem outline_sendCall (hx : Calling h i c x) :
    Handles solo legal h i c x (sendCall c) := by
  refine (outline_loadTask (caller_self i c x)).bind fun task => .pure fun _ => ?_
  exact (outline_send rfl task.tid _ _).bind fun _ => outline_answer hx 10 _ false

theorem outline_tryRecvCall (hx : Calling h i c x) :
    Handles solo legal h i c x (tryRecvCall c) := by
  refine (outline_loadTask (caller_self i c x)).bind fun task => .pure fun _ => ?_
  refine (outline_tryRecv rfl _).bind fun result => ?_
  cases result with
  | inl error => exact outline_answer hx 10 _ false
  | inr message =>
    refine (outline_writeRecvRegisters (caller_self i c x) 0 message).bind fun _ => ?_
    rw [hold_hold]
    exact .ret fun _ _ _ hat => user_of_caller hat hx.running hx.cpu

theorem outline_recvCall (hx : Calling h i c x) (clock : Clock) :
    Handles solo legal h i c x (recvCall h c clock) := by
  refine (outline_loadTask (caller_self i c x)).bind fun task => .pure fun _ => ?_
  refine (outline_recv hx _ clock).bind fun b => .ret ?_
  rintro k loc - (⟨context, -, hat⟩ | ⟨-, hu⟩)
  · exact user_of_caller hat hx.running hx.cpu
  · exact hu

theorem outline_crashCall (hx : Calling h i c x) (hlegal : ¬ legal) (clock : Clock) :
    Handles solo legal h i c x (crashCall h c clock) :=
  (outline_endTask hx _ (fun hl => absurd hl hlegal) clock).bind fun _ => .ret fun _ _ _ hu => hu

/-- **Every syscall of a task that is not idle.** -/
theorem outline_syscallBody (hx : Calling h i c x) (clock : Clock) (number : Option Syscall)
    (hlegal : legal → number ≠ none) :
    Handles solo legal h i c x (syscallBody h c tid clock number) := by
  cases number with
  | none => exact outline_crashCall hx (fun hl => hlegal hl rfl) clock
  | some number =>
    cases number with
    | yield => exact outline_yieldCall hx.running clock
    | create => exact outline_createCall hx
    | endTask => exact outline_endCall hx clock
    | wait => exact outline_waitCall hx clock
    | detach => exact outline_detachCall hx
    | sleep => exact outline_sleepCall hx clock
    | endpointCreate => exact outline_endpointCreateCall hx
    | endpointDestroy => exact outline_endpointDestroyCall hx
    | send => exact outline_sendCall hx
    | call => exact outline_answer hx 10 _ false
    | recv => exact outline_recvCall hx clock
    | tryRecv => exact outline_tryRecvCall hx
    | reply => exact outline_answer hx 10 _ false

/-! ### Traps -/

/-- Syscall numbers a task may use: an idle task only yields. -/
structure Admissible (legal : Prop) (x : Task) (number : Option Syscall) : Prop where
  defined : legal → number ≠ none
  idle : x.idle = true → number = some .yield

theorem outline_syscall (hs : x.state = .running) (hc : x.cpu = some h) {number : Option Syscall}
    (ha : Admissible legal x number) (clock : Clock) :
    Handles solo legal h i c x (syscallBody h c tid clock number) := by
  cases hidle : x.idle with
  | true =>
    rw [ha.idle hidle]
    exact outline_yieldCall hs clock
  | false =>
    refine (Valid.pure fun hne : c ≠ i => ?_).pre fun k loc hi hat =>
      ⟨hat.ne_idle hi (caller_self i c x) hidle, hat⟩
    exact outline_syscallBody ⟨hs, hc, hidle, hne⟩ clock number ha.defined

/-- Back to user mode. -/
theorem outline_restore :
    Outline solo legal h (perform .restoreCurrentContext) (User solo h) fun _ => User solo h := by
  refine .exists fun i => .exists fun c => .exists fun x => .pure fun hx => ?_
  exact (outline_restoreCurrentContext (S := caller i c x) (t := c) rfl).post
    fun _ _ _ _ hat => user_of_caller hat hx.1 hx.2

theorem outline_arm (clock : Clock) :
    Outline solo legal h (armCurrentTimeslice h clock) (User solo h) fun _ => User solo h := by
  refine .exists fun i => .exists fun c => .exists fun x => .pure fun hx => ?_
  exact (outline_armCurrentTimeslice (S := caller i c x) rfl (caller_self i c x) (leaf_nil rfl)
    clock).post fun _ _ _ _ hat => user_of_caller hat hx.1 hx.2

theorem outline_tryHandle {frame : TrapFrame} (hs : x.state = .running) (hc : x.cpu = some h)
    (ha : Admissible legal x (Syscall.ofNumber (frame.x 17))) (clock : Clock) :
    Outline solo legal h (tryHandle h c tid clock)
      (fun k loc => Holds solo h (caller i c x) k loc ∧ (k.harts h).frame = frame) fun _ =>
        User solo h := by
  refine (outline_saveCurrentContext (S := caller i c x) rfl (caller_self i c x)
    fun hart => hart.frame = frame).bind fun _ => .exists fun hart => .pure ?_
  rintro rfl
  rw [hold_hold]
  refine (outline_advanceMepc (caller_self ..)).bind fun _ => ?_
  rw [hold_hold]
  refine (outline_loadTask (caller_self ..)).bind fun task => .pure ?_
  rintro ⟨htask, -⟩
  rw [← htask]
  have hstate : task.state = .running := by
    rw [htask]
    exact hs
  have hcpu : task.cpu = some h := by
    rw [htask]
    exact hc
  have hidle : task.idle = x.idle := by rw [htask]
  have hnumber : task.context.x 17 = hart.frame.x 17 := by
    rw [htask]
    show update hart.frame.x 0 0 17 = hart.frame.x 17
    exact update_of_ne (by decide) ..
  rw [hnumber]
  refine (outline_syscall hstate hcpu ⟨ha.defined, hidle ▸ ha.idle⟩ clock).bind
    fun rescheduled => outline_restore.bind fun _ => ?_
  split
  · exact outline_arm clock
  · exact .ret fun _ _ _ hu => hu

theorem outline_checkInterrupted (hc : x.cpu = some h) :
    Outline solo legal h (checkInterrupted x) (Holds solo h (caller i c x)) fun _ =>
      Holds solo h (caller i c x) := by
  rw [checkInterrupted, hc]
  exact outline_loadHart.bind fun owner => .pure fun howner => outline_parkUnless howner.bound

theorem outline_notePreemption (interrupted : Task) (selected : Option TaskRef) :
    Outline solo legal h (notePreemption interrupted selected) (User solo h) fun _ =>
      User solo h := by
  refine .exists fun i => .exists fun c => .exists fun x => .pure fun hx => ?_
  cases selected with
  | none => exact .ret fun _ _ _ hat => user_of_caller hat hx.1 hx.2
  | some t =>
    refine (outline_readAny (a := .loadTask t) (fun _ _ => trivial) (fun _ => ⟨_, rfl⟩)
      fun _ _ => rfl).bind fun task => ?_
    split
    · exact outline_countPreemption.post fun _ _ _ _ hat => user_of_caller hat hx.1 hx.2
    · exact .ret fun _ _ _ hat => user_of_caller hat hx.1 hx.2

/-- **A timer interrupt.** -/
theorem outline_handleTimerInterrupt (hs : x.state = .running) (hc : x.cpu = some h)
    (clock : Clock) :
    Handles solo legal h i c x (handleTimerInterrupt h c clock) := by
  refine (outline_setCompare _).bind fun _ => (outline_loadTask (caller_self i c x)).bind
    fun task => .pure ?_
  rintro ⟨rfl, -⟩
  refine (outline_checkInterrupted hc).bind fun _ => ?_
  refine ((outline_saveCurrentContext (S := caller i c task) rfl (caller_self i c task)
    fun _ => True).pre fun _ _ _ hat => ⟨hat, trivial⟩).bind
      fun _ => .exists fun hart => .pure fun _ => ?_
  rw [hold_hold]
  set y : Task := { task with context := saveFromTrap hart.frame hart.satp }
  have hstate : y.state ≠ .ended := by
    rw [show y.state = .running from hs]
    exact TaskState.noConfusion
  refine (outline_checkReleaseTasks (S := caller i c y) (leaf_nil rfl) clock).bind fun _ => ?_
  refine (outline_loadTask (caller_self i c y)).bind fun interrupted => .pure fun _ => ?_
  refine (outline_returnRunnable rfl (caller_self i c y) hstate (leaf_nil rfl)).bind fun _ => ?_
  rw [caller_drop]
  refine ((outline_dispatchNext (L := []) (leaf_nil rfl) clock (some c)).pre
    fun _ _ _ hp => hp.1).bind fun selected => ?_
  exact (outline_notePreemption _ _).bind fun _ => outline_restore.bind fun _ => outline_arm clock

/-- **Every trap out of user mode.** -/
theorem outline_dispatch {frame : TrapFrame} (hs : x.state = .running) (hc : x.cpu = some h)
    (htrap : frame.isSyscall = true ∨ frame.isTimer = true)
    (ha : frame.isSyscall = true → Admissible legal x (Syscall.ofNumber (frame.x 17)))
    (clock : Clock) :
    Handles solo legal h i c x (dispatch h c tid frame clock) := by
  refine (outline_enterTrap frame).bind fun _ => ?_
  split
  · rename_i hsys
    exact outline_tryHandle hs hc (ha hsys) clock
  · rename_i hsys
    rw [if_pos (htrap.resolve_left hsys)]
    exact (outline_handleTimerInterrupt hs hc clock).pre fun _ _ _ hp => hp.1

/-- **The first task of a secondary hart.** -/
theorem outline_secondaryBootstrap (clock : Clock) :
    Outline solo legal h (secondaryBootstrap h clock) (Holds solo h (empty i none)) fun _ =>
      User solo h := by
  refine outline_loadHart.bind fun hart => .pure fun hhart => ?_
  refine (outline_parkUnless (by rw [hhart.bound, hhart.idle]; rfl)).bind fun _ => ?_
  refine (outline_dispatchNext (L := []) (leaf_nil rfl) clock none).bind fun _ => ?_
  exact outline_restore.bind fun _ => outline_arm clock

end Jixia
