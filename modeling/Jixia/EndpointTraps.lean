/-
Traps with a call of the endpoint manager.

* `dispatch_eq` — a system call up to the handler;
* `callFrame_of_trap` — of a task record, the four calls on an endpoint write the registers,
  the state and the links only;
* `endpointCall_returns` — they return, from every reachable state;
* `syscallBody_goesOn`, `syscallBody_blocked` — a handler either dispatches nothing or
  blocks the caller.
-/
import Jixia.BootFrame
import Jixia.EndpointErrors
import Jixia.EndpointLocality

namespace Jixia

open Proc KProc Machine Function Kernel

variable {h : HartIndex} {k k' x y x' y' : Kernel} {t : TaskRef} {tid : TaskId}
  {frame : TrapFrame} {clock : Clock}

/-! ### A system call up to the handler -/

/-- The kernel once the trap frame is filled. -/
def Kernel.trapped (k : Kernel) (h : HartIndex) (frame : TrapFrame) : Kernel :=
  k.modifyHart h fun hart => { hart with frame := frame, mstatus := frame.mstatus }

/-- The kernel once the context of the trapped task is saved. -/
def Kernel.saved (k : Kernel) (h : HartIndex) (t : TaskRef) (frame : TrapFrame) : Kernel :=
  (k.trapped h frame).modifyTask t fun task =>
    { task with context := saveFromTrap frame (k.harts h).satp }

/-- The kernel once the program counter of the caller is past the call. -/
def Kernel.entered (k : Kernel) (h : HartIndex) (t : TaskRef) (frame : TrapFrame) : Kernel :=
  (k.saved h t frame).modifyTask t fun task =>
    { task with context.mepc := task.context.mepc + 4 }

/-- What follows the handler. -/
def afterCall (h : HartIndex) (clock : Clock) (rescheduled : Bool) : KProc Unit := do
  perform .restoreCurrentContext
  if rescheduled then armCurrentTimeslice h clock else pure ()

theorem entered_context (k : Kernel) (h : HartIndex) (t : TaskRef) (frame : TrapFrame) :
    ((k.entered h t frame).tasks t).context =
      { saveFromTrap frame (k.harts h).satp with mepc := frame.mepc + 4 } := by
  simp only [entered, saved, modifyTask_tasks, update_self]
  rfl

/-- The registers of the caller, but for `zero`, are those of the trap frame. -/
theorem entered_reg (k : Kernel) (h : HartIndex) (t : TaskRef) (frame : TrapFrame) {i : Fin 32}
    (hi : i ≠ 0) : ((k.entered h t frame).tasks t).context.x i = frame.x i := by
  rw [entered_context]
  exact update_of_ne hi ..

theorem entered_sameIpc (k : Kernel) (h : HartIndex) (t : TaskRef) (frame : TrapFrame) :
    SameIpc k (k.entered h t frame) := by
  have hhart : SameIpc k (k.trapped h frame) := ((SchedFrame.refl k).modifyHart ..).sameIpc
  refine (hhart.modifyTask t ?_).modifyTask t ?_
  · exact fun _ => rfl
  · exact fun _ => rfl

theorem trapped_hart (k : Kernel) (h : HartIndex) (frame : TrapFrame) :
    (k.trapped h frame).harts h = { k.harts h with frame := frame, mstatus := frame.mstatus } :=
  update_self ..

/-- The context of the current task is saved from the trap frame of its hart. -/
theorem exec_save (hcur : (k.harts h).currentTask = some t) :
    exec h .saveCurrentContext k = .ok () (k.modifyTask t fun task =>
      { task with context := saveFromTrap (k.harts h).frame (k.harts h).satp }) := by
  show k.saveCurrentContext h = _
  rw [saveCurrentContext, hcur]

theorem exec_saveCurrentContext (hcur : (k.harts h).currentTask = some t) :
    exec h .saveCurrentContext (k.trapped h frame) = .ok () (k.saved h t frame) := by
  rw [exec_save (t := t) (by rw [trapped_hart]; exact hcur), trapped_hart]
  rfl

theorem dispatch_reaches (hcur : (k.harts h).currentTask = some t)
    (hsys : frame.isSyscall = true) :
    Reaches (exec h) (dispatch h t tid frame clock) k
      (syscallBody h t tid clock (Syscall.ofNumber (frame.x 17)) >>= afterCall h clock)
      (k.entered h t frame) := by
  have hnumber : ((k.entered h t frame).tasks t).context.x 17 = frame.x 17 :=
    entered_reg k h t frame (by decide)
  have henter : exec h (.enterTrap frame) k = .ok () (k.trapped h frame) := rfl
  have hadvance : exec h (.advanceMepc t) (k.saved h t frame) = .ok () (k.entered h t frame) := rfl
  have hload : exec h (.loadTask t) (k.entered h t frame) = .ok _ (k.entered h t frame) := rfl
  rw [dispatch, if_pos hsys, tryHandle]
  refine .perform henter (.perform (exec_saveCurrentContext hcur) (.perform hadvance ?_))
  refine .perform hload ?_
  rw [hnumber]
  exact .refl

theorem dispatch_eq (hcur : (k.harts h).currentTask = some t) (hsys : frame.isSyscall = true) :
    (dispatch h t tid frame clock).run (exec h) k =
      (syscallBody h t tid clock (Syscall.ofNumber (frame.x 17)) >>= afterCall h clock).run
        (exec h) (k.entered h t frame) :=
  (dispatch_reaches hcur hsys).run_eq

theorem armCurrentTimeslice_all (h : HartIndex) (clock : Clock) :
    (armCurrentTimeslice h clock).All fun a => a.isDispatch = true := by
  refine ⟨rfl, fun hart => ?_⟩
  suffices hticks : (currentTicks hart clock).All fun a => a.isDispatch = true from
    hticks.bind fun _ => ⟨rfl, fun _ => trivial⟩
  rw [currentTicks]
  split
  · trivial
  · refine ⟨rfl, fun task => ?_⟩
    simp only [Proc.bind]
    split
    · rw [idleTicks]
      split
      · exact locked_all rfl rfl (all_perform rfl)
      · exact ⟨rfl, fun _ => trivial⟩
    · trivial

/-- What follows the handler is scheduling. -/
theorem afterCall_schedFrame {rescheduled : Bool} {u : Unit}
    (hr : (afterCall h clock rescheduled).run (exec h) k = .ok u k') : SchedFrame k k' := by
  obtain ⟨_, k1, hx, hr⟩ := run_perform_inv hr
  have hf : SchedFrame k k1 := by
    simp only [exec, restoreCurrentContext] at hx
    split at hx
    · cases hx
    · cases hx
      exact (SchedFrame.refl k).modifyHart ..
  split at hr
  · exact hf.trans (schedFrame_of_run
      ((armCurrentTimeslice_all h clock).imp scheduling_of_dispatch) hr)
  · cases hr
    exact hf

/-! ### The calls -/

/-- The four calls. -/
def Syscall.onEndpoint : Syscall → Bool
  | .endpointDestroy | .send | .recv | .tryRecv => true
  | .yield | .create | .endTask | .wait | .detach | .sleep | .endpointCreate | .call
  | .reply => false

/-- The trap of the current task of a hart. -/
def Trapped (h : HartIndex) (t : TaskRef) (frame : TrapFrame) (clock : Clock) (x x' : Kernel) :
    Prop :=
  (dispatch h t (x.tasks t).tid frame clock).run (exec h) x = .ok () x'

/-! ### What the sections leave alone -/

/-- The task record without what the sections of the endpoint manager write. -/
def Task.kept (task : Task) : Task :=
  { task with context := {}, state := .zero, stateInfo := 0, messageWait := {} }

/-- Only the endpoint table, the registers and states of tasks and the links of the waiting
FIFOs have changed. -/
structure SectionFrame (k k' : Kernel) : Prop where
  task : ∀ t, (k'.tasks t).kept = (k.tasks t).kept
  rest : k' = { k with
    tasks := k'.tasks, endpoints := k'.endpoints, slotAllocated := k'.slotAllocated }

namespace SectionFrame

theorem refl (k : Kernel) : SectionFrame k k := ⟨fun _ => rfl, rfl⟩

theorem trans {k'' : Kernel} (hf : SectionFrame k k') (hf' : SectionFrame k' k'') :
    SectionFrame k k'' where
  task t := (hf'.task t).trans (hf.task t)
  rest := by
    have hrest := hf'.rest
    rw [hf.rest] at hrest
    exact hrest

theorem modifyTask (hf : SectionFrame k k') (t : TaskRef) {f : Task → Task}
    (hfix : ∀ task, (f task).kept = task.kept) : SectionFrame k (k'.modifyTask t f) := by
  refine hf.trans ⟨fun u => ?_, rfl⟩
  rw [modifyTask_tasks]
  by_cases hu : u = t
  · rw [hu, update_self, hfix]
  · rw [update_of_ne hu]

theorem modifyEndpoint (hf : SectionFrame k k') (e : EndpointRef) (f : Endpoint → Endpoint) :
    SectionFrame k (k'.modifyEndpoint e f) := hf.trans ⟨fun _ => rfl, rfl⟩

theorem waiterPush (k : Kernel) (e : EndpointRef) (t : TaskRef) :
    SectionFrame k (k.waiterPush e t) := by
  rw [Kernel.waiterPush]
  have h1 := (SectionFrame.refl k).modifyTask t (f := fun task => { task with messageWait :=
    { task.messageWait with previous := (k.endpoints e).waitingTail, next := none } })
    fun _ => rfl
  refine .modifyEndpoint (.modifyTask (.modifyEndpoint ?_ ..) _ ?_) ..
  · split
    · refine h1.modifyTask _ ?_
      exact fun _ => rfl
    · exact h1.modifyEndpoint ..
  · exact fun _ => rfl

theorem waiterPop (k : Kernel) (e : EndpointRef) : SectionFrame k (k.waiterPop e).2 := by
  rw [Kernel.waiterPop]
  split
  · exact .refl k
  · rename_i t _
    have h1 := (SectionFrame.refl k).modifyEndpoint e fun endpoint =>
      { endpoint with waitingHead := (k.tasks t).messageWait.next }
    simp only
    refine .modifyEndpoint (.modifyTask ?_ _ ?_) ..
    · split
      · refine h1.modifyTask _ ?_
        exact fun _ => rfl
      · exact h1.modifyEndpoint ..
    · exact fun _ => rfl

theorem harts (hf : SectionFrame k k') : k'.harts = k.harts := by rw [hf.rest]

end SectionFrame

theorem entered_section (k : Kernel) (h : HartIndex) (t : TaskRef) (frame : TrapFrame) :
    SectionFrame (k.trapped h frame) (k.entered h t frame) := by
  refine ((SectionFrame.refl _).modifyTask t ?_).modifyTask t ?_
  · exact fun _ => rfl
  · exact fun _ => rfl

theorem destroyEndpointLocked_sectionFrame (k : Kernel) (caller : TaskId)
    (parsed : EndpointHandle) : SectionFrame k (k.destroyEndpointLocked caller parsed).2 := by
  simp only [destroyEndpointLocked]
  split
  · exact .refl k
  · split
    · exact .refl k
    · split <;> exact ⟨fun _ => rfl, rfl⟩

theorem destroyPop_sectionFrame (k : Kernel) (e : EndpointRef) :
    SectionFrame k (k.destroyPop e).2 := by
  have hpop := SectionFrame.waiterPop k e
  rw [destroyPop]
  split
  · rename_i k1 heq
    rw [heq] at hpop
    exact hpop
  · rename_i t k1 heq
    rw [heq] at hpop
    simp only [setReg]
    refine (hpop.modifyTask t ?_).modifyTask t ?_
    · exact fun _ => rfl
    · exact fun _ => rfl

theorem sendLocked_sectionFrame {sender : TaskId} {parsed : EndpointHandle}
    {words : Fin 4 → Word} {step : SendStep} (hx : k.sendLocked sender parsed words = .ok step k') :
    SectionFrame k k' := by
  have hpop := SectionFrame.waiterPop k parsed.slot
  simp only [sendLocked] at hx
  split at hx
  · cases hx
    exact .refl k
  · split at hx
    · cases hx
    · split at hx
      · split at hx
        · cases hx
        · rename_i t k1 heq
          rw [heq] at hpop
          cases hx
          refine (hpop.modifyTask t ?_).modifyTask t ?_
          · exact fun _ => rfl
          · exact fun _ => rfl
      · split at hx
        · cases hx
          exact .refl k
        · cases hx
          exact (SectionFrame.refl k).modifyEndpoint ..

theorem tryRecvLocked_sectionFrame (k : Kernel) (parsed : EndpointHandle) :
    SectionFrame k (k.tryRecvLocked parsed).2 := by
  simp only [tryRecvLocked]
  split
  · exact .refl k
  · split
    · exact .refl k
    · exact (SectionFrame.refl k).modifyEndpoint ..

theorem recvLocked_sectionFrame {caller : TaskRef} {handle : Word} {status : RecvStatus}
    (hx : k.recvLocked caller handle = .ok status k') : SectionFrame k k' := by
  simp only [recvLocked] at hx
  split at hx
  · cases hx
    refine (SectionFrame.refl k).modifyTask caller ?_
    exact fun _ => rfl
  · split at hx
    · cases hx
    · split at hx
      · cases hx
        refine ((SectionFrame.refl k).modifyEndpoint ..).modifyTask caller ?_
        exact fun _ => rfl
      · cases hx
        refine (SectionFrame.waiterPush ..).modifyTask caller ?_
        exact fun _ => rfl

/-- The sections of the calls, and the actions that write registers. -/
def Action.isSection : {β : Type} → Action β → Bool
  | _, .setReg .. | _, .writeRecvRegisters .. | _, .createEndpointLocked ..
  | _, .destroyEndpointLocked .. | _, .destroyPop .. | _, .tryRecvLocked .. | _, .sendLocked ..
  | _, .recvLocked .. => true
  | _, _ => false

theorem exec_sectionFrame {β : Type} {a : Action β} (ha : a.isSection = true) {b : β}
    (hx : exec h a k = .ok b k') : SectionFrame k k' := by
  cases a <;> first | cases ha; done | skip
  all_goals simp only [exec, Outcome.total] at hx
  case sendLocked => exact sendLocked_sectionFrame hx
  case recvLocked => exact recvLocked_sectionFrame hx
  all_goals cases hx
  case setReg t i value =>
    refine (SectionFrame.refl k).modifyTask t ?_
    exact fun _ => rfl
  case writeRecvRegisters t a0 message =>
    refine (SectionFrame.refl k).modifyTask t ?_
    exact fun _ => rfl
  case createEndpointLocked => exact ⟨fun _ => rfl, rfl⟩
  case destroyEndpointLocked => exact destroyEndpointLocked_sectionFrame ..
  case destroyPop => exact destroyPop_sectionFrame ..
  case tryRecvLocked => exact tryRecvLocked_sectionFrame ..

/-! ### What the calls leave alone -/

/-- The task record without what scheduling and the calls write. -/
def Task.fixed (task : Task) : Task :=
  { task.data with context := {}, stateInfo := 0, messageWait := {} }

/-- Only the endpoint table, the registers, the states and the links have changed. -/
structure CallFrame (k k' : Kernel) : Prop where
  task : ∀ t, (k'.tasks t).fixed = (k.tasks t).fixed
  rest : k'.cell .rest = k.cell .rest

namespace CallFrame

theorem trans {k'' : Kernel} (hf : CallFrame k k') (hf' : CallFrame k' k'') : CallFrame k k'' :=
  ⟨fun t => (hf'.task t).trans (hf.task t), hf'.rest.trans hf.rest⟩

theorem of_sched (hf : SchedFrame k k') : CallFrame k k' where
  task t := congrArg (fun d : Task => { d with context := {}, stateInfo := 0, messageWait := {} })
    (show (k'.tasks t).data = _ from hf.cell (.task t))
  rest := hf.cell .rest

theorem of_section (hf : SectionFrame k k') : CallFrame k k' where
  task t := congrArg Task.data (hf.task t)
  rest := by
    rw [hf.rest]
    rfl

end CallFrame

theorem exec_callFrame {β : Type} {a : Action β} (ha : a.isEndpointWork = true) {b : β}
    (hx : exec h a k = .ok b k') : CallFrame k k' := by
  cases a <;> first
    | exact .of_sched (exec_schedFrame rfl hx)
    | exact .of_section (exec_sectionFrame rfl hx)
    | cases ha; done
    | skip
  case restoreCurrentContext =>
    simp only [exec, restoreCurrentContext] at hx
    split at hx
    · cases hx
    · cases hx
      exact .of_sched ((SchedFrame.refl k).modifyHart ..)

theorem syscallBody_work {number : Syscall} (hcall : number.onEndpoint = true) :
    (syscallBody h t tid clock (some number)).All fun a => a.isEndpointWork = true := by
  cases number <;> first | cases hcall; done | skip
  case endpointDestroy =>
    exact ⟨rfl, fun _ => ((destroyEndpoint_neutral _ _).imp work_of_neutral).bind
      fun _ => ⟨rfl, fun _ => trivial⟩⟩
  case send =>
    exact ⟨rfl, fun _ => ((send_neutral _ _ _).imp work_of_neutral).bind
      fun _ => ⟨rfl, fun _ => trivial⟩⟩
  case recv =>
    exact ⟨rfl, fun _ => ((recv_quiet _ _ _).imp work_of_quiet).bind fun _ => trivial⟩
  case tryRecv =>
    refine ⟨rfl, fun _ => ((tryRecv_neutral _).imp work_of_neutral).bind fun result => ?_⟩
    cases result with
    | inl code => exact ⟨rfl, fun _ => trivial⟩
    | inr message => exact ⟨rfl, fun _ => trivial⟩

theorem afterCall_quiet (rescheduled : Bool) :
    (afterCall h clock rescheduled).All fun a => a.isQuiet = true := by
  refine ⟨rfl, fun _ => ?_⟩
  cases rescheduled with
  | true => exact (armCurrentTimeslice_all h clock).imp quiet_of_dispatch
  | false => trivial

/-- The code of one hart leaves the records of the others. -/
theorem Quiescent.run_harts {legal : Prop} {loc : Loc} {p : KProc Unit}
    (hq : Quiescent legal k loc) (hs : Starts legal h k p) {u : Unit}
    (hx : p.run (exec h) k = .ok u k') {j : HartIndex} (hj : j ≠ h) : k'.harts j = k.harts j := by
  obtain ⟨P, -, hp, hvalid⟩ := outline_start hs ((hq.rest h).alone hq.unlocked)
  have hrun := hvalid.run_spec (fun e hskip => hskip.2 trivial)
    (T := fun k1 _ => k1.harts j = k.harts j)
    (fun a s g b s' _ _ _ _ hg ht => ((hg j hj).hart).trans ht) hq.inv hp rfl
  rw [show p.run ((machine legal).exec h) k = .ok u k' from hx] at hrun
  obtain ⟨-, -, -, hsame⟩ := hrun
  exact hsame

/-! ### Handlers that go on -/

theorem Action.writesHart_of_isNeutral {β : Type} {a : Action β} (ha : a.isNeutral = true) :
    a.writesHart = false := by
  cases a <;> first | rfl | cases ha

section GoesOn

variable {R : Kernel → Prop} (hstep : ∀ {β : Type} {a : Action β} {b : β} {k1 k2 : Kernel},
  a.isNeutral = true → exec h a k1 = .ok b k2 → R k1 → R k2)

include hstep

/-- A `recv` that does not block dispatches nothing. -/
theorem recv_goesOn {handle : Word} {status : RecvStatus}
    (hr : (recv h t handle clock).run (exec h) k = .ok status k') (hs : status ≠ .blocked)
    (h0 : R k) : R k' := by
  rw [recv] at hr
  obtain ⟨task, _, hload, hr⟩ := run_perform_inv hr
  cases hload
  obtain ⟨_, k1, hpark, hr⟩ := run_bind_inv hr
  rw [(parkUnless_run hpark).2] at hr
  simp only at hr
  split at hr
  · rw [locked] at hr
    obtain ⟨_, k2, hacq, hr⟩ := run_perform_inv hr
    obtain ⟨status', k3, hbody, hr⟩ := run_bind_inv hr
    obtain ⟨_, k4, hrel, hr⟩ := run_perform_inv hr
    cases hr
    obtain ⟨status', k5, hx, hrest⟩ := run_perform_inv hbody
    have hsec := hstep rfl hx (hstep rfl hacq h0)
    cases status' with
    | blocked =>
      obtain ⟨_, _, _, hrest⟩ := run_perform_inv hrest
      obtain ⟨_, _, _, hrest⟩ := run_bind_inv hrest
      cases hrest
      exact absurd rfl hs
    | delivered | rejected =>
      cases hrest
      exact hstep rfl hrel hsec
  · obtain ⟨_, k2, hx, hr⟩ := run_perform_inv hr
    cases hr
    exact hstep rfl hx h0

/-- A handler that goes on dispatches nothing. -/
theorem syscallBody_goesOn {number : Syscall} (hcall : number.onEndpoint = true)
    (hr : (syscallBody h t tid clock (some number)).run (exec h) k = .ok false k')
    (h0 : R k) : R k' := by
  have hrun : ∀ {p : KProc Bool}, (p.All fun a => a.isNeutral = true) →
      p.run (exec h) k = .ok false k' → R k' := fun hp hr =>
    Proc.run_all (fun _ _ _ _ ha hs hx => hstep ha hx hs) hp h0 hr
  cases number <;> first | cases hcall; done | skip
  case endpointDestroy =>
    exact hrun (p := endpointDestroyCall t) ⟨rfl, fun _ =>
      (destroyEndpoint_neutral _ _).bind fun _ => ⟨rfl, fun _ => trivial⟩⟩ hr
  case send =>
    exact hrun (p := sendCall t) ⟨rfl, fun _ =>
      (send_neutral _ _ _).bind fun _ => ⟨rfl, fun _ => trivial⟩⟩ hr
  case recv =>
    obtain ⟨_, _, hload, hr⟩ := run_perform_inv hr
    cases hload
    obtain ⟨status, k1, hrecv, hr⟩ := run_bind_inv hr
    obtain ⟨hgo, hk⟩ := EStateM.Result.ok.inj hr
    subst hk
    exact recv_goesOn hstep hrecv (by simpa using hgo) h0
  case tryRecv =>
    refine hrun (p := tryRecvCall t) ⟨rfl, fun _ =>
      (tryRecv_neutral _).bind fun result => ?_⟩ hr
    cases result with
    | inl code => exact ⟨rfl, fun _ => trivial⟩
    | inr message => exact ⟨rfl, fun _ => trivial⟩

end GoesOn

/-- Of the four handlers only that of `recv` gives the hart away. -/
theorem recv_of_rescheduled {number : Syscall} (hcall : number.onEndpoint = true)
    (hr : (syscallBody h t tid clock (some number)).run (exec h) k = .ok true k') :
    number = .recv := by
  cases number <;> first | cases hcall; done | skip
  case recv => rfl
  case endpointDestroy | send =>
    obtain ⟨_, _, -, hr⟩ := run_perform_inv hr
    obtain ⟨_, _, _, hr⟩ := run_bind_inv hr
    cases hr
  case tryRecv =>
    obtain ⟨_, _, -, hr⟩ := run_perform_inv hr
    obtain ⟨result, _, _, hr⟩ := run_bind_inv hr
    cases result with
    | inl code => cases hr
    | inr message => cases hr

/-- A handler that gives the hart away has blocked the caller. -/
theorem syscallBody_blocked {number : Syscall} (hcall : number.onEndpoint = true)
    {w : EndpointRef → List TaskRef} {dying : EndpointRef → Prop} (hi : IpcInv k w dying)
    (hr : (syscallBody h t tid clock (some number)).run (exec h) k = .ok true k') :
    (k'.tasks t).messageWait.queued = true := by
  cases recv_of_rescheduled hcall hr
  obtain ⟨_, _, hload, hr⟩ := run_perform_inv hr
  cases hload
  obtain ⟨status, k1, hrecv, hr⟩ := run_bind_inv hr
  obtain ⟨hblocked, hk⟩ := EStateM.Result.ok.inj hr
  rw [beq_iff_eq] at hblocked
  subst hblocked hk
  rcases (recv_run hi hrecv).2 with ⟨-, hs, -⟩ | ⟨-, k0, k1, -, hc, hf1⟩
  · cases hs
  · cases hc with
    | block _ _ =>
      rw [hf1.sameIpc.node]
      simp [blockedOn, WaitLists.pushed, withWaitNodes, WaitLists.pushNode]

section Trap

variable {number : Syscall} (hcur : (k.harts h).currentTask = some t)
  (hsys : frame.isSyscall = true) (hnumber : Syscall.ofNumber (frame.x 17) = some number)
  (hcall : number.onEndpoint = true)

include hcur hsys hnumber hcall

/-- A trap with one of the calls leaves all but the endpoint table, the registers, the
states and the links. -/
theorem callFrame_of_trap (hr : Trapped h t frame clock k k') : CallFrame k k' := by
  rw [Trapped, dispatch_eq hcur hsys, hnumber] at hr
  have henter : CallFrame k (k.entered h t frame) := by
    have hhart : CallFrame k (k.trapped h frame) := .of_sched ((SchedFrame.refl k).modifyHart ..)
    exact hhart.trans (.of_section (entered_section k h t frame))
  refine Proc.run_all (R := CallFrame k) (fun _ _ _ _ ha hs hx => hs.trans (exec_callFrame ha hx))
    ((syscallBody_work hcall).bind fun b => (afterCall_quiet b).imp work_of_quiet) henter hr

/-- **A call on an endpoint returns**, from every state between two traps, and leads to
another one. -/
theorem endpointCall_returns {legal : Prop} {loc : Loc} (hq : Quiescent legal k loc)
    (hidle : (k.tasks t).idle = false) (clock : Clock) :
    ∃ k' loc', Trapped h t frame clock k k' ∧ Quiescent legal k' loc' ∧
      ∀ j, j ≠ h → k'.harts j = k.harts j := by
  have hs : Starts legal h k (dispatch h t (k.tasks t).tid frame clock) :=
    .call ⟨hcur, hidle, hsys, by rw [hnumber]; exact Option.some_ne_none _⟩
  have hrun := hq.run hs
  cases hout : (dispatch h t (k.tasks t).tid frame clock).run (exec h) k with
  | ok u k' =>
    rw [hout] at hrun
    obtain ⟨loc', hq'⟩ := hrun
    exact ⟨k', loc', hout, hq', fun j hj => hq.run_harts hs hout hj⟩
  | error e k' =>
    rw [hout] at hrun
    rw [dispatch_eq hcur hsys, hnumber] at hout
    obtain ⟨β, a, k1, ha, hx⟩ := run_error_all
      ((syscallBody_work hcall).bind fun b => (afterCall_quiet b).imp work_of_quiet) hout
    rcases hrun.2 with ⟨he, -⟩ | ⟨he, -⟩ | ⟨he, -⟩ <;> cases exec_error_site ha hx he

end Trap

end Jixia
