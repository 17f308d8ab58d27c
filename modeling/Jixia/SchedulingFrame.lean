/-
What scheduling leaves alone.

The actions of `add_task`, `return_runnable`, `set_next_runnable` and
`arm_current_timeslice` only move tasks between a hart and a run queue.
`SchedFrame k k'` says what that may change: of a task record the hart, the state
and the run-queue links, of the kernel the hart records, the run queues and the
locks.  Every such action keeps the frame (`exec_schedFrame`), and so does every
program made of them (`schedFrame_of_run`).
-/
import Jixia.KernelPaths

namespace Jixia

open Proc KProc Function Kernel

/-- Everything but hart records, run queues, locks and the scheduling fields of
the tasks is the same. -/
structure SchedFrame (k k' : Kernel) : Prop where
  task : ∀ t, k'.tasks t = { k.tasks t with
    cpu := (k'.tasks t).cpu, state := (k'.tasks t).state, queued := (k'.tasks t).queued,
    previous := (k'.tasks t).previous, next := (k'.tasks t).next }
  rest : k' = { k with
    tasks := k'.tasks, harts := k'.harts, runQueues := k'.runQueues, locks := k'.locks }

namespace SchedFrame

variable {k k' k'' : Kernel}

theorem refl (k : Kernel) : SchedFrame k k := ⟨fun _ => rfl, rfl⟩

theorem trans (h : SchedFrame k k') (h' : SchedFrame k' k'') : SchedFrame k k'' := by
  refine ⟨fun t => ?_, ?_⟩
  · rw [h'.task t, h.task t]
  · rw [h'.rest, h.rest]

theorem modifyTask (h : SchedFrame k k') (t : TaskRef) {f : Task → Task}
    (hf : ∀ task, f task = { task with
      cpu := (f task).cpu, state := (f task).state, queued := (f task).queued,
      previous := (f task).previous, next := (f task).next }) :
    SchedFrame k (k'.modifyTask t f) := by
  refine h.trans ⟨fun u => ?_, rfl⟩
  by_cases hu : u = t
  · subst hu
    rw [modifyTask_tasks, update_self, hf]
  · rw [modifyTask_tasks, update_of_ne hu]

theorem modifyRunQueue (h : SchedFrame k k') (q : RunQueueRef) (f : RunQueue → RunQueue) :
    SchedFrame k (k'.modifyRunQueue q f) := h.trans ⟨fun _ => rfl, rfl⟩

theorem modifyHart (h : SchedFrame k k') (i : HartIndex) (f : HartLocal → HartLocal) :
    SchedFrame k (k'.modifyHart i f) := h.trans ⟨fun _ => rfl, rfl⟩

theorem setLock (h : SchedFrame k k') (l : Lock) (holder : Option HartIndex) :
    SchedFrame k (k'.setLock l holder) := h.trans ⟨fun _ => rfl, rfl⟩

end SchedFrame

theorem runQueueInsert_schedFrame (k : Kernel) (q : RunQueueRef) (t : TaskRef) :
    SchedFrame k (k.runQueueInsert q t).2 := by
  rw [Kernel.runQueueInsert]
  split
  · exact .refl k
  · simp only
    refine .modifyRunQueue (.modifyTask (.modifyRunQueue ?_ ..) _ ?_) ..
    · have h1 := (SchedFrame.refl k).modifyTask t (f := fun task =>
        { task with previous := (k.runQueues q).tail, next := none }) fun _ => rfl
      split
      · refine h1.modifyTask _ ?_
        exact fun _ => rfl
      · exact h1.modifyRunQueue ..
    · exact fun _ => rfl

theorem runQueueRemove_schedFrame {k k' : Kernel} {q : RunQueueRef} {b : Option TaskRef}
    (h : k.runQueueRemove q = .ok b k') : SchedFrame k k' := by
  rw [Kernel.runQueueRemove] at h
  split at h
  · cases h
    exact .refl k
  · rename_i t _
    have h1 := (SchedFrame.refl k).modifyRunQueue q fun queue =>
      { queue with head := (k.tasks t).next }
    simp only at h
    split at h
    · split at h
      · cases h
      · cases h
        refine .modifyRunQueue (.modifyTask (h1.modifyTask _ ?_) _ ?_) ..
        · exact fun _ => rfl
        · exact fun _ => rfl
    · split at h
      · cases h
      · cases h
        refine .modifyRunQueue (.modifyTask (h1.modifyRunQueue ..) _ ?_) ..
        exact fun _ => rfl

theorem setCurrentTask_schedFrame {k k' : Kernel} {h : HartIndex} {t : TaskRef}
    (hk : k.setCurrentTask h t = .ok () k') : SchedFrame k k' := by
  rw [setCurrentTask] at hk
  simp only at hk
  split at hk
  · cases hk
  · cases hk
    refine .modifyHart (.modifyTask (.refl k) t ?_) ..
    exact fun _ => rfl

/-- The actions that only schedule. -/
def Action.isScheduling : {β : Type} → Action β → Bool
  | _, .acquire _ | _, .release _ | _, .park _ | _, .diverge | _, .loadTask _ | _, .loadHart _
  | _, .isBootUserEntry _ | _, .timeManagerInitialized | _, .scheduler _ | _, .yieldScheduler ..
  | _, .yieldIdle .. | _, .createdTid .. | _, .setTimeslice _ | _, .countPreemption
  | _, .setCompare _ | _, .setCurrentTask _ | _, .runQueueInsert .. | _, .runQueueRemove _
  | _, .runQueueSize _ | _, .delayQueueTicksUntilNext .. | _, .findFreeEndpoint => true
  | _, _ => false

theorem exec_schedFrame {β : Type} {a : Action β} (ha : a.isScheduling = true) {h : HartIndex}
    {k k' : Kernel} {b : β} (hx : exec h a k = .ok b k') : SchedFrame k k' := by
  cases a <;> cases ha
  all_goals simp only [exec, Outcome.total] at hx
  case acquire l =>
    rw [acquire] at hx
    split at hx <;> cases hx
    exact (SchedFrame.refl k).setLock ..
  case scheduler t | yieldScheduler t _ =>
    rcases schedulerOf_cases k t with heq | heq <;> cases heq.symm.trans hx
    exact .refl k
  case setCurrentTask t => exact setCurrentTask_schedFrame hx
  case runQueueInsert q t =>
    cases hx
    exact runQueueInsert_schedFrame k q t
  case runQueueRemove q => exact runQueueRemove_schedFrame hx
  all_goals cases hx
  case release l => exact (SchedFrame.refl k).setLock ..
  all_goals first
    | exact .refl k
    | exact (SchedFrame.refl k).modifyHart ..

/-- A program of scheduling actions keeps the frame. -/
theorem schedFrame_of_run {α : Type} {p : KProc α}
    (hp : p.All fun a => a.isScheduling = true) {h : HartIndex} {k k' : Kernel} {a : α}
    (hr : p.run (exec h) k = .ok a k') : SchedFrame k k' :=
  Proc.run_all (R := SchedFrame k)
    (fun _ _ _ _ ha hs hx => hs.trans (exec_schedFrame ha hx)) hp (.refl k) hr

/-! ### The scheduling programs -/

variable {P : ∀ {β : Type}, Action β → Prop}

theorem all_perform {β : Type} {a : Action β} (ha : P a) : (perform a).All P :=
  ⟨ha, fun _ => trivial⟩

theorem locked_all {α : Type} {lock : Lock} {body : KProc α} (hacq : P (.acquire lock))
    (hrel : P (.release lock)) (hbody : body.All P) : (locked lock body).All P :=
  ⟨hacq, fun _ => hbody.bind fun _ => ⟨hrel, fun _ => trivial⟩⟩

theorem parkUnless_all {condition : Bool} {site : ParkSite} (h : P (.park site)) :
    (parkUnless condition site).All P := by
  rw [parkUnless]
  split
  · trivial
  · exact all_perform h

/-- What `add_task` does. -/
def Action.isAdding : {β : Type} → Action β → Bool
  | _, .acquire _ | _, .release _ | _, .loadTask _ | _, .loadHart _ | _, .runQueueInsert .. => true
  | _, _ => false

/-- What the choice of the next task and the arming of its time slice do. -/
def Action.isDispatch : {β : Type} → Action β → Bool
  | _, .acquire _ | _, .release _ | _, .loadTask _ | _, .loadHart _ | _, .runQueueRemove _
  | _, .runQueueSize _ | _, .delayQueueTicksUntilNext .. | _, .setTimeslice _
  | _, .setCurrentTask _ | _, .setCompare _ | _, .park .setNextRunnable | _, .park .armNoQueue =>
    true
  | _, _ => false

theorem scheduling_of_adding {β : Type} {a : Action β} (ha : a.isAdding = true) :
    a.isScheduling = true := by
  cases a <;> first | rfl | cases ha

theorem scheduling_of_dispatch {β : Type} {a : Action β} (ha : a.isDispatch = true) :
    a.isScheduling = true := by
  cases a <;> first | rfl | cases ha

theorem runQueueInsert_all (q : RunQueueRef) (t : TaskRef) :
    (runQueueInsert q t).All fun a => a.isAdding = true :=
  locked_all rfl rfl (all_perform rfl)

theorem addTask_all (t : TaskRef) : (addTask t).All fun a => a.isAdding = true := by
  refine ⟨rfl, fun task => ?_⟩
  show (if _ then _ else _ : KProc Bool).All _
  split
  · trivial
  · split
    · rw [pinnedInsert]
      split
      · trivial
      · refine ⟨rfl, fun hart => ?_⟩
        simp only [Proc.bind]
        split
        · trivial
        · exact runQueueInsert_all ..
    · exact runQueueInsert_all ..

theorem removeNext_all (hart : HartLocal) :
    (removeNext hart).All fun a => a.isDispatch = true := by
  refine Proc.All.bind ?_ fun selected => ?_
  · rw [removeLocal]
    split
    · trivial
    · exact locked_all rfl rfl (all_perform rfl)
  · cases selected with
    | some t => trivial
    | none =>
      refine Proc.All.bind (locked_all rfl rfl (all_perform rfl)) fun size => ?_
      split
      · exact locked_all rfl rfl (all_perform rfl)
      · trivial

theorem selectOrIdle_all (hart : HartLocal) (clock : Clock) (ready : Option TaskRef) :
    (selectOrIdle hart clock ready).All fun a => a.isDispatch = true := by
  cases ready with
  | some t => exact ⟨rfl, fun _ => trivial⟩
  | none =>
    refine Proc.All.bind ?_ fun ticks => ⟨rfl, fun _ => trivial⟩
    rw [idleTimesliceTicks]
    split
    · trivial
    · exact locked_all rfl rfl (all_perform rfl)

theorem setNextRunnable_all (h : HartIndex) (clock : Clock) :
    (setNextRunnable h clock).All fun a => a.isDispatch = true := by
  refine ⟨rfl, fun hart => (removeNext_all hart).bind fun ready =>
    (selectOrIdle_all hart clock ready).bind fun selected => ?_⟩
  cases selected with
  | none => exact ⟨rfl, fun _ => trivial⟩
  | some t => exact ⟨rfl, fun _ => trivial⟩

end Jixia
