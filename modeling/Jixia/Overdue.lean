/-
When the timer is set past a sleeper that is already due.

Sleepers are released by the timer interrupt only.  `arm_current_timeslice` looks at the
delay queue only while the idle task is current; for any other task it sets the timer to the
end of a full slice, however long a sleeper is overdue.  Whether that is later than before
depends on what led to the arming, and on the arming before it.

* `compare_of_idle`, `compare_of_task` — the value that the timer is set to;
* `keepsTimer_calls` — kernel code leaves the timer alone up to the arming, and gives every task
  but the idle one a full slice;
* `TimedRun.timed` — what the timer shows after the last arming of a run;
* `overdue_not_postponed_iff` — the armings of a run that leave the timer where it was, or
  one tick ahead.
-/
import Jixia.PathRules
import Jixia.TaskHistories
import Jixia.TimeManager

namespace Jixia

open Proc KProc Function Kernel

variable {k k' k1 : Kernel} {h : HartIndex} {clock : Clock} {legal : Prop} {platform : Platform}
  {count : ℕ} {loc : Loc} {d : HartIndex → List TaskRef} {c t : TaskRef} {tid : TaskId}
  {frame : TrapFrame}

/-! ### The value of the timer -/

/-- A task in the delay queue of the hart is due. -/
def Kernel.Overdue (k : Kernel) (h : HartIndex) (now : ℕ) : Prop :=
  ∃ q t, (k.harts h).delayList = some q ∧ t ∈ k.sleepers q ∧ (k.deadline t).toNat ≤ now

/-- The idle task never sleeps past a deadline that is ahead. -/
theorem idleDeadline_le_of_mem {deadlines : List ℕ} {now deadline : ℕ}
    (hmem : deadline ∈ deadlines) : idleDeadline now deadlines.min? ≤ max (now + 1) deadline := by
  cases hmin : deadlines.min? with
  | none =>
    rw [List.min?_eq_none_iff] at hmin
    rw [hmin] at hmem
    cases hmem
  | some earliest =>
    have hfirst := (List.min?_eq_some_iff.mp hmin).2 deadline hmem
    rw [idleDeadline]
    omega

theorem armed_compare (k : Kernel) (h : HartIndex) (value : Word) :
    ((k.armed h value).harts h).compare = value := by
  rw [armed, modifyHart_harts, update_self]

/-- **The timer of an idle hart** is set to the first deadline at the latest. -/
theorem compare_of_idle {q : HartIndex} (hd : DelayLists k d) (hidle : k.idles h = true)
    (hq : (k.harts h).delayList = some q)
    (hr : (armCurrentTimeslice h clock).run (exec h) k = .ok () k') (ht : t ∈ k.sleepers q) :
    (k'.harts h).compare.toNat ≤ max (clock.arm.toNat + 1) (k.deadline t).toNat := by
  obtain ⟨q', hq', hfree⟩ := armCurrentTimeslice_free hidle hr
  cases hq.symm.trans hq'
  rw [armCurrentTimeslice_run fun _ => ⟨hq, hfree⟩] at hr
  cases hr
  rw [armed_compare, sliceDeadline_toNat, currentSlice, if_pos hidle,
    taskDeadline_ticksUntilNext hd]
  rw [hd.sleepers_eq] at ht
  exact idleDeadline_le_of_mem (List.mem_map_of_mem ht)

/-- **The timer of any other task** is set to the end of its slice. -/
theorem compare_of_task (hidle : ¬ k.idles h = true)
    (hr : (armCurrentTimeslice h clock).run (exec h) k = .ok () k') : (k'.harts h).compare.toNat =
      taskDeadline clock.arm.toNat (k.harts h).timesliceTicks.toNat := by
  rw [armCurrentTimeslice_run (q := h) fun hid => absurd hid hidle] at hr
  cases hr
  rw [armed_compare, sliceDeadline_toNat, currentSlice, if_neg hidle]

/-- The arming ends, unless it spins on the lock of the delay queue. -/
theorem armCurrentTimeslice_spins {q : HartIndex} (hidle : k.idles h = true)
    (hq : (k.harts h).delayList = some q) (hlock : k.locks (.delayQueue q) ≠ none) :
    (armCurrentTimeslice h clock).run (exec h) k = .error .spin k := by
  rw [idles] at hidle
  cases hcur : (k.harts h).currentTask with
  | none =>
    rw [hcur] at hidle
    cases hidle
  | some t =>
    rw [hcur] at hidle
    have hspin : exec h (.acquire (.delayQueue q)) k = .error .spin k := by
      simp only [exec, acquire]
      split
      · contradiction
      · rfl
    have hticks : (currentTicks (k.harts h) clock).run (exec h) k = .error .spin k := by
      rw [currentTicks, hcur]
      simp only [run_perform_ok (show exec h (.loadTask t) k = .ok (k.tasks t) k from rfl)]
      rw [if_pos hidle, idleTicks, hq]
      exact run_act_error hspin
    rw [armCurrentTimeslice, run_perform_ok rfl, run_bind, hticks]

/-! ### Slices -/

/-- The idle task is current. -/
def HartLocal.Idling (hart : HartLocal) : Prop :=
  ∃ i, hart.currentTask = some i ∧ hart.idleTask = some i

/-- The slice is a full one, unless the idle task is current. -/
def HartLocal.FullSlice (hart : HartLocal) : Prop :=
  hart.timesliceTicks = kTaskTimesliceTicks ∨ hart.Idling

/-- The timer and the queue of the sleepers are the same, and a slice stays full. -/
structure SameTimer (hart hart' : HartLocal) : Prop where
  compare : hart'.compare = hart.compare
  idleTask : hart'.idleTask = hart.idleTask
  delayList : hart'.delayList = hart.delayList
  full : hart.FullSlice → hart'.FullSlice

theorem SameTimer.refl (hart : HartLocal) : SameTimer hart hart := ⟨rfl, rfl, rfl, id⟩

theorem SameTimer.trans {hart1 hart2 hart3 : HartLocal} (h1 : SameTimer hart1 hart2)
    (h2 : SameTimer hart2 hart3) : SameTimer hart1 hart3 :=
  ⟨h2.compare.trans h1.compare, h2.idleTask.trans h1.idleTask, h2.delayList.trans h1.delayList,
    h2.full ∘ h1.full⟩

theorem SameTimer.of_harts (hk : k'.harts = k.harts) : SameTimer (k.harts h) (k'.harts h) := by
  rw [hk]
  exact .refl _

theorem sameTimer_modifyHart {f : HartLocal → HartLocal} (hf : ∀ hart, SameTimer hart (f hart)) :
    SameTimer (k.harts h) ((k.modifyHart h f).harts h) := by
  rw [modifyHart_harts, update_self]
  exact hf _

/-- A single action that neither selects a task nor sets the timer. -/
theorem exec_sameTimer {β : Type} {a : Action β} {b : β} (ha : a.isPlain = true)
    (hx : exec h a k = .ok b k') : SameTimer (k.harts h) (k'.harts h) := by
  cases hw : a.writesHart with
  | false => exact .of_harts (exec_harts hw hx)
  | true =>
    cases a <;> first | cases hw; done | cases ha; done | skip
    case countPreemption =>
      cases hx
      exact sameTimer_modifyHart fun _ => ⟨rfl, rfl, rfl, id⟩
    case enterTrap =>
      cases hx
      exact sameTimer_modifyHart fun _ => ⟨rfl, rfl, rfl, id⟩
    case restoreCurrentContext =>
      simp only [exec, restoreCurrentContext] at hx
      split at hx <;> cases hx
      exact sameTimer_modifyHart fun _ => ⟨rfl, rfl, rfl, id⟩

/-- A program that runs to its end keeps the timer. -/
def KeepsTimer (h : HartIndex) {α : Type} (p : KProc α) (_ : List Lock) : Prop :=
  ∀ ⦃k b k'⦄, p.run (exec h) k = .ok b k' → SameTimer (k.harts h) (k'.harts h)

theorem keepsTimer_rules (h : HartIndex) : PathRules (KeepsTimer h) where
  ret x held k b k' hr := by
    cases hr
    exact .refl _
  seq hp hf k b k' hr := by
    obtain ⟨x, k1, hx, hr⟩ := run_bind_inv hr
    exact (hp hx).trans (hf x hr)
  act ha k b k' hr := by
    obtain ⟨b', k1, hx, hr⟩ := run_perform_inv (f := pure) hr
    cases hr
    exact exec_sameTimer ha hx
  guard _ hbody k b k' hr := by
    obtain ⟨_, k1, hacquire, hr⟩ := run_perform_inv hr
    obtain ⟨x, k2, hx, hr⟩ := run_bind_inv hr
    obtain ⟨_, k3, hrelease, hr⟩ := run_perform_inv hr
    cases hr
    exact (SameTimer.of_harts (exec_harts rfl hacquire)).trans
      ((hbody hx).trans (.of_harts (exec_harts rfl hrelease)))

/-- The hart of a task that becomes current. -/
theorem setCurrentTask_hart (hx : exec h (.setCurrentTask t) k = .ok () k') :
    k'.harts h = { k.harts h with currentTask := some t } := by
  simp only [exec, setCurrentTask] at hx
  split at hx <;> cases hx
  exact update_self ..

/-- **The next task gets a full slice**, unless it is the idle task. -/
theorem setNextRunnable_full {selected : Option TaskRef}
    (hr : (setNextRunnable h clock).run (exec h) k = .ok selected k') :
    SameTimer (k.harts h) (k'.harts h) ∧ (k'.harts h).FullSlice := by
  obtain ⟨hart, k1, hload, hr⟩ := run_perform_inv hr
  cases hload
  obtain ⟨ready, k1, hready, hr⟩ := run_bind_inv hr
  have h1 := walk_removeNext (keepsTimer_rules h) below_nil _ hready
  obtain ⟨chosen, k2, hchosen, hr⟩ := run_bind_inv hr
  cases ready with
  | some t =>
    obtain ⟨_, _, hslice, hchosen⟩ := run_perform_inv hchosen
    cases hslice
    cases hchosen
    obtain ⟨_, k3, hcurrent, hr⟩ := run_perform_inv hr
    cases hr
    rw [setCurrentTask_hart hcurrent, modifyHart_harts, update_self]
    exact ⟨⟨h1.compare, h1.idleTask, h1.delayList, fun _ => .inl rfl⟩, .inl rfl⟩
  | none =>
    obtain ⟨ticks, k3, hticks, hchosen⟩ := run_bind_inv hchosen
    have h2 := h1.trans (walk_idleTimesliceTicks (keepsTimer_rules h) below_nil _ hticks)
    obtain ⟨_, _, hslice, hchosen⟩ := run_perform_inv hchosen
    cases hslice
    cases hchosen
    cases hidle : (k.harts h).idleTask with
    | none =>
      rw [hidle] at hr
      cases hr
    | some i =>
      rw [hidle] at hr
      obtain ⟨_, k4, hcurrent, hr⟩ := run_perform_inv hr
      cases hr
      rw [setCurrentTask_hart hcurrent, modifyHart_harts, update_self]
      have hfull : HartLocal.FullSlice { k3.harts h with
          timesliceTicks := ticks, currentTask := some i } :=
        .inr ⟨i, rfl, h2.idleTask.trans hidle⟩
      exact ⟨⟨h2.compare, h2.idleTask, h2.delayList, fun _ => hfull⟩, hfull⟩

theorem keepsTimer_calls (h : HartIndex) : CallRules h (KeepsTimer h) where
  toPathRules := keepsTimer_rules h
  select _ _ _ _ _ hr := (setNextRunnable_full hr).1

/-! ### Traps up to the arming -/

/-- The current task of the hart traps: with a system call, or interrupted by the timer. -/
structure UserTrap (legal : Prop) (h : HartIndex) (k : Kernel) (c : TaskRef)
    (frame : TrapFrame) : Prop where
  current : (k.harts h).currentTask = some c
  cause : frame.isSyscall = true ∨ frame.isTimer = true
  number : legal → frame.isSyscall = true → Syscall.ofNumber (frame.x 17) ≠ none
  idle : (k.tasks c).idle = true → frame.isSyscall = true →
    Syscall.ofNumber (frame.x 17) = some .yield

theorem UserTrap.starts (ht : UserTrap legal h k c frame) :
    Starts legal h k (dispatch h c (k.tasks c).tid frame clock) :=
  .trap ht.current ht.cause ht.number ht.idle

/-- `trap::dispatch` up to the arming of the timer; the result says whether it is armed. -/
def trapPart (h : HartIndex) (current : TaskRef) (tid : TaskId) (frame : TrapFrame)
    (clock : Clock) : KProc Bool := do
  perform (.enterTrap frame)
  if frame.isSyscall then callPart h current tid clock
  else do
    perform (.setCompare (BitVec.allOnes 64))
    interruptPart h current clock
    return true

theorem dispatch_parts (hcause : frame.isSyscall = true ∨ frame.isTimer = true) :
    dispatch h c tid frame clock = (do
      let armed ← trapPart h c tid frame clock
      if armed then armCurrentTimeslice h clock else pure ()) := by
  cases hsys : frame.isSyscall with
  | true =>
    simp only [dispatch, trapPart, hsys, if_pos, tryHandle_eq, perform_bind, act_bind]
  | false =>
    have htimer : frame.isTimer = true :=
      hcause.resolve_left (by rw [hsys]; exact Bool.false_ne_true)
    simp only [dispatch, trapPart, hsys, htimer, if_pos, Bool.false_eq_true, if_false,
      handleTimerInterrupt_eq, perform_bind, act_bind, Proc.bind_assoc, pure_eq, ret_bind]

/-- A system call leaves the timer as it was. -/
theorem trapPart_syscall {armed : Bool} (hsys : frame.isSyscall = true)
    (hr : (trapPart h c tid frame clock).run (exec h) k = .ok armed k1) :
    SameTimer (k.harts h) (k1.harts h) := by
  rw [trapPart, if_pos hsys] at hr
  have hkeeps : KeepsTimer h (perform (.enterTrap frame) >>= fun _ => callPart h c tid clock) [] :=
    (keepsTimer_rules h).step rfl fun _ => walk_callPart (keepsTimer_calls h) c tid
  exact hkeeps hr

/-- The timer interrupt clears it first, and always arms it again. -/
theorem trapPart_timer {armed : Bool} (hsys : ¬ frame.isSyscall = true)
    (hr : (trapPart h c tid frame clock).run (exec h) k = .ok armed k1) :
    (k1.harts h).compare = BitVec.allOnes 64 ∧ armed = true ∧
      ((k.harts h).FullSlice → (k1.harts h).FullSlice) := by
  rw [trapPart, if_neg hsys] at hr
  obtain ⟨_, _, henter, hr⟩ := run_perform_inv hr
  obtain ⟨_, _, hclear, hr⟩ := run_perform_inv hr
  obtain ⟨_, k2, hbody, hr⟩ := run_bind_inv hr
  cases hr
  have h1 := exec_sameTimer rfl henter
  have h2 := walk_interruptPart (keepsTimer_calls h) c hbody
  cases hclear
  rw [modifyHart_harts, update_self] at h2
  exact ⟨h2.compare, rfl, fun hfull => h2.full (h1.full hfull)⟩

theorem trapPart_full {armed : Bool}
    (hr : (trapPart h c tid frame clock).run (exec h) k = .ok armed k1)
    (hfull : (k.harts h).FullSlice) : (k1.harts h).FullSlice := by
  by_cases hsys : frame.isSyscall = true
  · exact (trapPart_syscall hsys hr).full hfull
  · exact (trapPart_timer hsys hr).2.2 hfull

theorem returnRunnable_schedFrame (hr : (returnRunnable h).run (exec h) k = .ok () k') :
    SchedFrame k k' := by
  refine schedFrame_of_run (p := returnRunnable h) ⟨rfl, fun hart => ?_⟩ hr
  simp only [Proc.bind]
  split
  · trivial
  · refine ⟨rfl, fun task => ?_⟩
    simp only [Proc.bind]
    split
    · trivial
    · exact ((addTask_all _).imp scheduling_of_adding).bind fun _ => parkUnless_all rfl

/-- **A yield leaves the sleepers alone**, and it arms the timer. -/
theorem trapPart_yield {armed : Bool} (hcur : (k.harts h).currentTask = some c)
    (hsys : frame.isSyscall = true) (hnum : Syscall.ofNumber (frame.x 17) = some .yield)
    (hr : (trapPart h c tid frame clock).run (exec h) k = .ok armed k1) :
    armed = true ∧ k1.sleepers = k.sleepers ∧ k1.deadline = k.deadline := by
  have henter : exec h (.enterTrap frame) k = .ok () (k.trapped h frame) := rfl
  have hadvance : exec h (.advanceMepc c) (k.saved h c frame) = .ok () (k.entered h c frame) := rfl
  rw [trapPart, if_pos hsys, run_perform_ok henter, callPart,
    run_perform_ok (exec_saveCurrentContext hcur), run_perform_ok hadvance, run_perform_ok rfl,
    entered_reg k h c frame (by decide), hnum] at hr
  obtain ⟨rescheduled, k2, hyield, hr⟩ := run_bind_inv hr
  obtain ⟨_, k3, hrestore, hr⟩ := run_perform_inv hr
  cases hr
  have harmed := yieldCall_true hyield
  -- After the result is written, a yield only schedules.
  obtain ⟨_, _, hreg, hyield⟩ := run_perform_inv hyield
  cases hreg
  obtain ⟨_, k4, hscheduler, hyield⟩ := run_perform_inv hyield
  obtain ⟨_, k5, hreturn, hyield⟩ := run_bind_inv hyield
  have hsched := (exec_schedFrame rfl hscheduler).trans ((returnRunnable_schedFrame hreturn).trans
    (schedFrame_of_run (p := (do
      perform (.yieldScheduler c tid)
      let _ ← setNextRunnable h clock
      let _ ← perform (.yieldIdle c tid)
      return true)) ⟨rfl, fun _ => ((setNextRunnable_all h clock).imp scheduling_of_dispatch).bind
        fun _ => ⟨rfl, fun _ => trivial⟩⟩ hyield))
  have hsection := (entered_section k h c frame).modifyTask c
    (f := fun task => { task with context := task.context.setX 10 0 }) fun _ => rfl
  simp only [exec, restoreCurrentContext] at hrestore
  split at hrestore <;> cases hrestore
  have hqueues : k2.delayQueues = k.delayQueues := (congrArg delayQueues hsched.rest :)
  have hdelay : ∀ t, (k2.tasks t).delay = (k.tasks t).delay := fun t =>
    (congrArg Task.delay (hsched.task t)).trans (congrArg Task.delay (hsection.task t) :)
  refine ⟨harmed, funext fun q => ?_, funext fun t => congrArg DelayNode.deadline (hdelay t)⟩
  have hnext : k2.delayNext = k.delayNext := funext fun t => congrArg DelayNode.next (hdelay t)
  show LinkedList.walk k2.delayNext kMaxTasks (k2.delayQueues q) = _
  rw [hnext, hqueues]
  rfl

/-! ### Timed runs -/

/-- An arming of the timer: the reading of the clock, and whether the idle task was current. -/
structure Arming where
  now : ℕ
  idle : Bool

/-- The runs of the executive with the last arming of the hart `h`, from its first one on.  Its
clock does not go back. -/
inductive TimedRun (legal : Prop) (platform : Platform) (count : ℕ) (h : HartIndex) :
    Kernel → Arming → Prop
  | boot {k : Kernel} {clock : Clock} : h = bootHart →
      bootstrap platform count clock = .ok () k →
      TimedRun legal platform count h k ⟨clock.arm.toNat, k.idles h⟩
  | start {k k' : Kernel} {clock : Clock} : Run legal platform count k →
      Starts legal h k (secondaryBootstrap h clock) →
      (secondaryBootstrap h clock).run (exec h) k = .ok () k' →
      TimedRun legal platform count h k' ⟨clock.arm.toNat, k'.idles h⟩
  | arms {k k1 k' : Kernel} {last : Arming} {c : TaskRef} {frame : TrapFrame} {clock : Clock} :
      TimedRun legal platform count h k last → UserTrap legal h k c frame →
      last.now ≤ clock.arm.toNat →
      (trapPart h c (k.tasks c).tid frame clock).run (exec h) k = .ok true k1 →
      (armCurrentTimeslice h clock).run (exec h) k1 = .ok () k' →
      TimedRun legal platform count h k' ⟨clock.arm.toNat, k'.idles h⟩
  | quiet {k k' : Kernel} {last : Arming} {c : TaskRef} {frame : TrapFrame} {clock : Clock} :
      TimedRun legal platform count h k last → UserTrap legal h k c frame →
      (trapPart h c (k.tasks c).tid frame clock).run (exec h) k = .ok false k' →
      TimedRun legal platform count h k' last
  | other {k k' : Kernel} {last : Arming} {j : HartIndex} {p : KProc Unit} :
      TimedRun legal platform count h k last → j ≠ h → Starts legal j k p →
      p.run (exec j) k = .ok () k' → TimedRun legal platform count h k' last

section Timed

variable {last : Arming}

/-- The whole trap. -/
theorem dispatch_run {armed : Bool} (ht : UserTrap legal h k c frame)
    (hr : (trapPart h c tid frame clock).run (exec h) k = .ok armed k1) :
    (dispatch h c tid frame clock).run (exec h) k =
      (if armed then armCurrentTimeslice h clock else pure ()).run (exec h) k1 := by
  rw [dispatch_parts ht.cause, run_bind_ok hr]

theorem TimedRun.run (hrun : TimedRun legal platform count h k last) :
    Run legal platform count k := by
  induction hrun with
  | boot _ hb => exact .boot hb
  | start hrun hs hx => exact hrun.trap hs hx
  | arms _ ht _ hr harm ih => exact ih.trap ht.starts ((dispatch_run ht hr).trans harm)
  | quiet _ ht hr ih => exact ih.trap ht.starts (dispatch_run ht hr)
  | other _ _ hs hx ih => exact ih.trap hs hx

/-- Between two traps the idle task is the current one if the current one is idle. -/
theorem Quiescent.idles_iff (hq : Quiescent legal k loc) :
    k.idles h = true ↔ (k.harts h).Idling := by
  rw [idles, HartLocal.Idling]
  cases hcur : (k.harts h).currentTask with
  | none => simp
  | some t =>
    refine ⟨fun hidle => ?_, ?_⟩
    · obtain ⟨j, hj⟩ := hq.inv.idleOf t hidle
      have hown := ((hq.inv.hart j).idle t hj).2.1
      cases ((hq.rest h).current hcur).symm.trans hown
      exact ⟨t, rfl, hj⟩
    · rintro ⟨i, hti, hi⟩
      cases hti
      exact ((hq.inv.hart h).idle t hi).2.2.1

/-- What the timer of a hart shows after its last arming. -/
structure Timed (h : HartIndex) (last : Arming) (k : Kernel) : Prop where
  full : (k.harts h).FullSlice
  task : last.idle = false →
    (k.harts h).compare.toNat = taskDeadline last.now kTaskTimesliceTicks.toNat
  idle : last.idle = true → (k.harts h).Idling ∧ ∀ t ∈ k.sleepers h,
    (k.harts h).compare.toNat ≤ max (last.now + 1) (k.deadline t).toNat

/-- A full slice is the one of every task but the idle one. -/
theorem Quiescent.slice_eq (hq : Quiescent legal k loc) (hfull : (k.harts h).FullSlice)
    (hidle : ¬ k.idles h = true) : (k.harts h).timesliceTicks = kTaskTimesliceTicks :=
  hfull.resolve_right fun hid => hidle (hq.idles_iff.mpr hid)

/-- The arming leaves the current task and the sleepers alone. -/
theorem arming_frame (harm : (armCurrentTimeslice h clock).run (exec h) k1 = .ok () k') :
    k'.idles h = k1.idles h ∧ ∀ d, DelayLists k' d → DelayLists k1 d := by
  obtain ⟨value, rfl⟩ := armCurrentTimeslice_armed harm
  refine ⟨?_, fun d hd => hd.congr rfl fun _ => rfl⟩
  rw [idles, show (k1.armed h value).harts h = _ from update_self ..]
  rfl

/-- An arming says what the timer shows. -/
theorem Timed.arm (hq : Quiescent legal k' loc) (hfull : (k1.harts h).FullSlice)
    (harm : (armCurrentTimeslice h clock).run (exec h) k1 = .ok () k') :
    Timed h ⟨clock.arm.toNat, k'.idles h⟩ k' := by
  obtain ⟨d, hd, -⟩ := hq.inv.queues.delay
  obtain ⟨hidles, hlists⟩ := arming_frame harm
  obtain ⟨value, rfl⟩ := armCurrentTimeslice_armed harm
  have hhart : (k1.armed h value).harts h = { k1.harts h with compare := value } :=
    update_self ..
  have hfull' : ((k1.armed h value).harts h).FullSlice := by
    rw [hhart]
    exact hfull
  refine ⟨hfull', fun hidle => ?_, fun hidle => ?_⟩
  · have hno : ¬ (k1.armed h value).idles h = true := Bool.eq_false_iff.mp hidle
    have hslice := hq.slice_eq hfull' hno
    rw [hhart] at hslice
    rw [hidles] at hno
    rw [compare_of_task hno harm, show (k1.harts h).timesliceTicks = _ from hslice]
  · obtain ⟨i, hcur, hi⟩ := hq.idles_iff.mp hidle
    refine ⟨⟨i, hcur, hi⟩, fun t ht => ?_⟩
    have hlist := ((hq.inv.hart h).queues ((hq.inv.hart h).idle i hi).1).2
    rw [hhart] at hlist
    exact compare_of_idle (k := k1) (hlists d hd) (hidles.symm.trans hidle) hlist harm ht

/-- The traps of the other harts leave the sleepers of a hart alone. -/
theorem Quiescent.run_sleepers {p : KProc Unit} {j : HartIndex} (hq : Quiescent legal k loc)
    (hs : Starts legal j k p) (hx : p.run (exec j) k = .ok () k') (hj : j ≠ h) :
    ∀ t ∈ k'.sleepers h, t ∈ k.sleepers h ∧ k'.deadline t = k.deadline t := by
  obtain ⟨P, -, hp, hvalid⟩ := outline_start hs ((hq.rest j).alone hq.unlocked)
  have hrun := hvalid.run_spec (fun e hskip => hskip.2 trivial)
    (T := fun k1 loc1 => ∀ t, loc1 t = some (.delay h) →
      loc t = some (.delay h) ∧ k1.deadline t = k.deadline t)
    (fun a s g b s' hi hpre hx hi' hg ih t ht => by
      have hstay := ((hg h hj.symm).delay t).mp ht
      obtain ⟨hloc, hdue⟩ := ih t hstay
      rcases exec_entry hi hpre hx hstay with ⟨hr, -⟩ | ⟨-, -, hkeep⟩
      · cases hr
      · exact ⟨hloc, (hkeep fun i => Place.noConfusion).trans hdue⟩)
    hq.inv hp fun t ht => ⟨ht, rfl⟩
  rw [show p.run ((machine legal).exec j) k = .ok () k' from hx] at hrun
  obtain ⟨loc', hi', -, hkeep⟩ := hrun
  intro t ht
  obtain ⟨hloc, hdue⟩ := hkeep t (((hi'.mem_lists t).2.1 h).mp ht)
  exact ⟨((hq.inv.mem_lists t).2.1 h).mpr hloc, hdue⟩

/-- **What the timer shows in a run**, by the last arming of the hart. -/
theorem TimedRun.timed (hrun : TimedRun legal platform count h k last) : Timed h last k := by
  induction hrun with
  | @boot k clock hh hb =>
    obtain ⟨k1, t, hslice, hr, loc, hq⟩ := @bootstrap_enters legal _ _ _ _ hb
    subst hh
    obtain ⟨_, k2, hcurrent, hr⟩ := run_perform_inv hr
    obtain ⟨_, k3, hrestore, harm⟩ := run_perform_inv hr
    refine .arm hq ((exec_sameTimer rfl hrestore).full (.inl ?_)) harm
    rw [setCurrentTask_hart hcurrent]
    exact hslice
  | @start k k' clock hrun hs hx =>
    obtain ⟨loc, hq⟩ := (hrun.trap hs hx).quiescent
    obtain ⟨_, _, -, hx⟩ := run_perform_inv hx
    obtain ⟨_, _, -, hx⟩ := run_bind_inv hx
    obtain ⟨_, k2, hselect, hx⟩ := run_bind_inv hx
    obtain ⟨_, k3, hrestore, harm⟩ := run_perform_inv hx
    exact .arm hq ((exec_sameTimer rfl hrestore).full (setNextRunnable_full hselect).2) harm
  | arms hrun ht hle hr harm ih =>
    obtain ⟨loc, hq⟩ := (TimedRun.arms hrun ht hle hr harm).run.quiescent
    exact .arm hq (trapPart_full hr ih.full) harm
  | @quiet k k' last c frame clock hrun ht hr ih =>
    -- Only a system call that goes on arms no timer; the idle task makes none.
    have hsys : frame.isSyscall = true := by
      by_contra hsys
      cases (trapPart_timer hsys hr).2.1
    have hsame := trapPart_syscall hsys hr
    refine ⟨hsame.full ih.full, fun hidle => by rw [hsame.compare, ih.task hidle], fun hidle => ?_⟩
    obtain ⟨loc, hq⟩ := hrun.run.quiescent
    have hidles := hq.idles_iff.mpr (ih.idle hidle).1
    rw [idles, ht.current] at hidles
    cases (trapPart_yield ht.current hsys (ht.idle hidles hsys) hr).1
  | @other k k' last j p hrun hj hs hx ih =>
    obtain ⟨loc, hq⟩ := hrun.run.quiescent
    have hhart := hq.run_harts hs hx hj.symm
    refine ⟨by rw [hhart]; exact ih.full, by rw [hhart]; exact ih.task, fun hidle => ?_⟩
    rw [hhart]
    refine ⟨(ih.idle hidle).1, fun t ht => ?_⟩
    obtain ⟨hmem, hdue⟩ := hq.run_sleepers hs hx hj t ht
    rw [hdue]
    exact (ih.idle hidle).2 t hmem

end Timed

/-- **When an overdue sleeper is not postponed.**  Let a trap, in any run of the executive whose
clock does not go back, come to `arm_current_timeslice` in the state `k1` while a sleeper of the
hart is overdue.  The trap ends, and it sets the timer to at most its old value or the next tick
if and only if the selected task is idle, the trap is the timer interrupt, the last arming was for
a task and the clock has not advanced since or its slice went to the end of time, or the next
tick is the end of time. -/
theorem overdue_not_postponed_iff {last : Arming} (hrun : TimedRun legal platform count h k last)
    (htrap : UserTrap legal h k c frame) (hclock : last.now ≤ clock.arm.toNat)
    (hpart : (trapPart h c (k.tasks c).tid frame clock).run (exec h) k = .ok true k1)
    (hover : k1.Overdue h clock.arm.toNat) :
    ∃ k', (dispatch h c (k.tasks c).tid frame clock).run (exec h) k = .ok () k' ∧
      ((k'.harts h).compare.toNat ≤ max (k1.harts h).compare.toNat (clock.arm.toNat + 1) ↔
        k1.idles h = true ∨ frame.isSyscall = false ∨
        last.idle = false ∧ (last.now = clock.arm.toNat ∨
          kEndOfTime ≤ last.now + kTaskTimesliceTicks.toNat) ∨
        kEndOfTime ≤ clock.arm.toNat + 1) := by
  obtain ⟨loc, hq⟩ := hrun.run.quiescent
  obtain ⟨q, t, hlist, hmem, hdue⟩ := hover
  obtain ⟨k', harm⟩ : ∃ k', (armCurrentTimeslice h clock).run (exec h) k1 = .ok () k' := by
    by_cases hlock : k1.idles h = true → k1.locks (.delayQueue q) = none
    · exact ⟨_, armCurrentTimeslice_run (fun hidle => ⟨hlist, hlock hidle⟩) clock⟩
    · -- A trap does not spin.
      rw [Classical.not_imp] at hlock
      have hend := hq.run (@UserTrap.starts _ _ clock _ _ _ htrap)
      rw [dispatch_run htrap hpart, if_pos rfl,
        armCurrentTimeslice_spins hlock.1 hlist hlock.2] at hend
      rcases hend.2 with ⟨he, -⟩ | ⟨he, -⟩ | ⟨he, -⟩ <;> cases he
  have hrun' := hrun.arms htrap hclock hpart harm
  obtain ⟨loc', hq'⟩ := hrun'.run.quiescent
  obtain ⟨d, hd, -⟩ := hq'.inv.queues.delay
  obtain ⟨hidles, hlists⟩ := arming_frame harm
  refine ⟨k', (dispatch_run htrap hpart).trans harm, ?_⟩
  by_cases hidle : k1.idles h = true
  · refine iff_of_true ?_ (.inl hidle)
    have hle := compare_of_idle (hlists d hd) hidle hlist harm hmem
    omega
  rw [hrun'.timed.task (hidles.trans (Bool.eq_false_iff.mpr hidle)), or_iff_right hidle]
  by_cases hsys : frame.isSyscall = true
  · rw [hsys, (trapPart_syscall hsys hpart).compare, taskDeadline]
    cases hlast : last.idle with
    | false =>
      rw [hrun.timed.task hlast, taskDeadline, show kTaskTimesliceTicks.toNat = 100000 from rfl]
      simp only [kEndOfTime, Bool.true_eq_false, false_or, true_and]
      omega
    | true =>
      -- The idle task was current, so this is a yield, and the sleeper was there before.
      obtain ⟨hidling, hsleep⟩ := hrun.timed.idle hlast
      have hid := hq.idles_iff.mpr hidling
      rw [idles, htrap.current] at hid
      obtain ⟨-, hsleepers, hdeadline⟩ :=
        trapPart_yield htrap.current hsys (htrap.idle hid hsys) hpart
      obtain ⟨i, -, hi⟩ := hidling
      have hown := ((hq.inv.hart h).queues ((hq.inv.hart h).idle i hi).1).2
      cases hown.symm.trans ((trapPart_syscall hsys hpart).delayList.symm.trans hlist)
      have hle := hsleep t (hsleepers ▸ hmem)
      rw [hdeadline] at hdue
      rw [show kTaskTimesliceTicks.toNat = 100000 from rfl]
      simp only [kEndOfTime, Bool.true_eq_false, false_or, false_and]
      omega
  · rw [(trapPart_timer hsys hpart).1, allOnes_toNat]
    refine iff_of_true ?_ (.inl (Bool.eq_false_iff.mpr hsys))
    rw [taskDeadline]
    omega

/-! ### Two yields -/

/-- A clock that reads the same all through a trap. -/
def Clock.at (now : Word) : Clock := ⟨now, now, now, now⟩

/-- The initial task creates a second one. -/
def sampleTwo : Kernel := Outcome.state
  ((dispatch 0 1 (sampleBoot.tasks 1).tid (argumentFrame 1 0x1100) .zero).run (exec 0) sampleBoot)

/-- A call for a sleep of five milliseconds. -/
def napFrame : TrapFrame :=
  { x := fun r => if r = 17 then 5 else if r = 11 then 5000000 else 0, mcause := 8 }

/-- Then it sleeps, and the second task runs. -/
def sampleNap : Kernel := Outcome.state
  ((dispatch 0 1 (sampleTwo.tasks 1).tid napFrame .zero).run (exec 0) sampleTwo)

/-- The second task yields one millisecond after the first one was due. -/
def sampleYield (k : Kernel) : KProc Unit := dispatch 0 2 (k.tasks 2).tid (callFrame 0) (.at 60000)

/-- The yield up to the arming of the timer. -/
def sampleArming (k : Kernel) : Kernel := Outcome.state
  ((trapPart 0 2 (k.tasks 2).tid (callFrame 0) (.at 60000)).run (exec 0) k)

/-- The second task has yielded. -/
def sampleLate : Kernel := Outcome.state ((sampleYield sampleNap).run (exec 0) sampleNap)

theorem UserTrap.call (hcall : (k.harts h).currentTask = some c ∧ (k.tasks c).idle = false ∧
    frame.isSyscall = true ∧ Syscall.ofNumber (frame.x 17) ≠ none) :
    UserTrap legal h k c frame := by
  obtain ⟨hcur, hidle, hsys, hnum⟩ := hcall
  exact ⟨hcur, .inl hsys, fun _ _ => hnum, fun hyes => by rw [hidle] at hyes; cases hyes⟩

theorem TimedRun.trap {last : Arming} (clock : Clock) (armed : Bool)
    (hrun : TimedRun legal platform count h k last) (ht : UserTrap legal h k c frame)
    (hclock : last.now ≤ clock.arm.toNat)
    (hr : (trapPart h c (k.tasks c).tid frame clock).run (exec h) k = .ok armed k1)
    (hx : (dispatch h c (k.tasks c).tid frame clock).run (exec h) k = .ok () k') :
    TimedRun legal platform count h k'
      (if armed then ⟨clock.arm.toNat, k'.idles h⟩ else last) := by
  rw [dispatch_run ht hr] at hx
  cases armed with
  | true => exact hrun.arms ht hclock hr hx
  | false =>
    cases hx
    exact hrun.quiet ht hr

theorem sampleNap_timed : TimedRun True .sample 1 0 sampleNap ⟨0, false⟩ := by
  have hboot : TimedRun True .sample 1 0 sampleBoot ⟨0, sampleBoot.idles 0⟩ :=
    .boot rfl sampleBoot_eq
  have htwo : TimedRun True .sample 1 0 sampleTwo _ := hboot.trap .zero false
    (.call (by decide +kernel)) (Nat.le_refl 0) (Outcome.eq_ok (by decide +kernel))
    (Outcome.eq_ok (by decide +kernel))
  have hnap : TimedRun True .sample 1 0 sampleNap _ := htwo.trap .zero true
    (.call (by decide +kernel)) (Nat.le_refl 0) (Outcome.eq_ok (by decide +kernel))
    (Outcome.eq_ok (by decide +kernel))
  rwa [if_pos rfl, show sampleNap.idles 0 = false by decide +kernel] at hnap

theorem sampleLate_timed : TimedRun True .sample 1 0 sampleLate ⟨60000, false⟩ := by
  have hlate : TimedRun True .sample 1 0 sampleLate _ := sampleNap_timed.trap (.at 60000)
    true (.call (by decide +kernel)) (Nat.zero_le _) (Outcome.eq_ok (by decide +kernel))
    (Outcome.eq_ok (by decide +kernel))
  rwa [if_pos rfl, show sampleLate.idles 0 = false by decide +kernel] at hlate

/-- A second yield at the same instant leaves the timer where it is. -/
theorem overdue_not_postponed_iff_sample : (sampleArming sampleLate).Overdue 0 60000 ∧
    ∃ k', (sampleYield sampleLate).run (exec 0) sampleLate = .ok () k' ∧
      (k'.harts 0).compare.toNat ≤ max ((sampleArming sampleLate).harts 0).compare.toNat 60001 := by
  have hover : (sampleArming sampleLate).Overdue 0 60000 :=
    ⟨0, 1, by decide +kernel, by decide +kernel, by decide +kernel⟩
  have hclock : 60000 ≤ (Clock.at 60000).arm.toNat := Nat.le_refl 60000
  obtain ⟨k', hk', hiff⟩ := overdue_not_postponed_iff sampleLate_timed
    (.call (by decide +kernel)) hclock (Outcome.eq_ok (by decide +kernel)) hover
  exact ⟨hover, k', hk', hiff.mpr (.inr (.inr (.inl ⟨rfl, .inl rfl⟩)))⟩

/-- **A yield postpones an overdue sleeper.**  The sleeper was due at 50000 and the timer was set
to 100000; at 60000 the other task yields, and the timer is set to 160000. -/
theorem overdue_postponed : ∃ k', TimedRun True .sample 1 0 sampleNap ⟨0, false⟩ ∧
    UserTrap True 0 sampleNap 2 (callFrame 0) ∧
    (trapPart 0 2 (sampleNap.tasks 2).tid (callFrame 0) (.at 60000)).run (exec 0) sampleNap =
      .ok true (sampleArming sampleNap) ∧
    (sampleArming sampleNap).Overdue 0 60000 ∧
    ((sampleArming sampleNap).harts 0).compare = 100000 ∧
    (sampleYield sampleNap).run (exec 0) sampleNap = .ok () k' ∧ (k'.harts 0).compare = 160000 ∧
    ¬ (k'.harts 0).compare.toNat ≤
      max ((sampleArming sampleNap).harts 0).compare.toNat (60000 + 1) :=
  ⟨_, sampleNap_timed, .call (by decide +kernel), Outcome.eq_ok (by decide +kernel),
    ⟨0, 1, by decide +kernel, by decide +kernel, by decide +kernel⟩, by decide +kernel,
    Outcome.eq_ok (by decide +kernel), by decide +kernel, by decide +kernel⟩

end Jixia
