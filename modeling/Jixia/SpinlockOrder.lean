/-
The order of the spinlocks.

The executive nests its locks in one order: the endpoint table, an endpoint, the task
manager, a run queue, a delay queue.  Every kernel path takes and drops its locks in
this order, whatever the sections under the locks return.

* `KernelCall.ordered` — the operations of the interface;
* `ordered_dispatch`, `ordered_secondaryBootstrap` — the paths of a trap;
* `spinlocks_deadlock_free` — for any number of harts, no set of them waits for itself,
  none waits for a lock it holds and none holds two endpoint locks;
* `lockView_step`, `locks_ok_of_steps` — the harts of the executive are such threads.
-/
import Jixia.BootFrame
import Jixia.Interference
import Jixia.LockOrder
import Jixia.PathRules

namespace Jixia

open Proc KProc LockOrder

/-! ### Ranks -/

/-- What an action does to the spinlocks. -/
def lockUse : Uses Action Lock
  | _, .acquire lock => .take lock
  | _, .release lock => .drop lock
  | _, _ => .other

/-- The path, entered with `held`, takes and drops its locks in order. -/
abbrev Nested {α : Type} (p : KProc α) (held : List Lock) : Prop :=
  Ordered lockUse lockRank p held held

/-! ### Paths -/

section Paths

variable {α β : Type} {held : List Lock} {h : HartIndex} {clock : Clock}

theorem nested_act {a : Action β} {f : β → KProc α} (ha : lockUse β a = .other)
    (hf : ∀ b, Nested (f b) held) : Nested (perform a >>= f) held :=
  (ordered_other ha).mpr hf

theorem lockUse_of_isPlain {a : Action α} (ha : a.isPlain = true) : lockUse α a = .other := by
  cases a <;> first | rfl | cases ha

theorem nested_rules : PathRules Nested where
  ret _ := ordered_ret _
  seq hp hf := Ordered.bind hp hf
  act ha := ordered_perform (lockUse_of_isPlain ha)
  guard hb hbody := Ordered.section rfl rfl hb hbody

theorem nested_setNextRunnable (hb : Below 3 held) : Nested (setNextRunnable h clock) held := by
  refine nested_act rfl fun hart => (walk_removeNext nested_rules hb hart).bind fun ready => ?_
  have hselect : Nested (selectOrIdle hart clock ready) held := by
    cases ready with
    | some t => exact nested_act rfl fun _ => ordered_ret _
    | none =>
      refine (walk_idleTimesliceTicks nested_rules (hb.mono (by decide)) hart).bind fun ticks => ?_
      exact nested_act rfl fun _ => ordered_ret _
  refine hselect.bind fun selected => ?_
  split
  · exact nested_act rfl fun _ => ordered_ret _
  · exact nested_act rfl fun _ => ordered_ret _

theorem nested_calls (h : HartIndex) : CallRules h Nested :=
  { nested_rules with select := fun _ hb => nested_setNextRunnable hb }

theorem nested_armCurrentTimeslice (hb : Below 4 held) :
    Nested (armCurrentTimeslice h clock) held :=
  nested_act rfl fun hart => (walk_currentTicks nested_rules hb hart).bind fun _ =>
    ordered_perform rfl

end Paths

/-! ### The operations of the interface -/

/-- The kernel operations, with any arguments. -/
inductive KernelCall
  | createEndpoint (owner : TaskId)
  | destroyEndpoint (caller : TaskId) (handle : Word)
  | send (sender : TaskId) (handle : Word) (words : Fin 4 → Word)
  | tryRecv (handle : Word)
  | recv (h : HartIndex) (caller : TaskRef) (handle : Word) (clock : Clock)
  | createTask (entry argument : Word) (space : AddressSpace) (owner : HartIndex)
      (kernelParent : Bool)
  | endTask (h : HartIndex) (t : TaskRef) (value : Word) (status : ExitStatus) (clock : Clock)
  | waitTask (h : HartIndex) (t : TaskRef) (tid : Word) (clock : Clock)
  | detachTask (h : HartIndex) (t : TaskRef)
  | delayTask (h : HartIndex) (t : TaskRef) (seconds nanoseconds : Word) (clock : Clock)
  | checkReleaseTasks (h : HartIndex) (clock : Clock)
  | returnRunnable (h : HartIndex)
  | setNextRunnable (h : HartIndex) (clock : Clock)

/-- Run a path for its effect. -/
def effect {α : Type} (p : KProc α) : KProc Unit := do
  let _ ← p
  return ()

def KernelCall.program : KernelCall → KProc Unit
  | .createEndpoint owner => effect (Jixia.createEndpoint owner)
  | .destroyEndpoint caller handle => effect (Jixia.destroyEndpoint caller handle)
  | .send sender handle words => effect (Jixia.send sender handle words)
  | .tryRecv handle => effect (Jixia.tryRecv handle)
  | .recv h caller handle clock => effect (Jixia.recv h caller handle clock)
  | .createTask entry argument space owner kernelParent =>
    effect (Jixia.createTask entry argument space owner kernelParent)
  | .endTask h t value status clock => Jixia.endTask h t value status clock
  | .waitTask h t tid clock => effect (Jixia.waitTask h t tid clock)
  | .detachTask h t => effect (Jixia.detachTask h t)
  | .delayTask h t seconds nanoseconds clock =>
    effect (Jixia.delayTask h t seconds nanoseconds clock)
  | .checkReleaseTasks h clock => Jixia.checkReleaseTasks h clock
  | .returnRunnable h => Jixia.returnRunnable h
  | .setNextRunnable h clock => effect (Jixia.setNextRunnable h clock)

theorem nested_effect {α : Type} {p : KProc α} {held : List Lock} (hp : Nested p held) :
    Nested (effect p) held :=
  hp.bind fun _ => ordered_ret ()

/-- **Every operation takes and drops its locks in order.** -/
theorem KernelCall.ordered (call : KernelCall) : Nested call.program [] := by
  cases call with
  | createEndpoint owner => exact nested_effect (walk_createEndpoint nested_rules below_nil owner)
  | destroyEndpoint caller handle =>
    exact nested_effect (walk_destroyEndpoint nested_rules below_nil caller handle)
  | send sender handle words =>
    exact nested_effect (walk_send nested_rules below_nil sender handle words)
  | tryRecv handle => exact nested_effect (walk_tryRecv nested_rules below_nil handle)
  | recv h caller handle clock =>
    exact nested_effect (walk_recv (nested_calls h) below_nil caller handle)
  | createTask entry argument space owner kernelParent =>
    exact nested_effect
      (walk_createTask nested_rules below_nil entry argument space owner kernelParent)
  | endTask h t value status clock => exact walk_endTask (nested_calls h) below_nil t value status
  | waitTask h t tid clock => exact nested_effect (walk_waitTask (nested_calls h) below_nil t tid)
  | detachTask h t => exact nested_effect (walk_detachTask nested_rules below_nil t)
  | delayTask h t seconds nanoseconds clock =>
    exact nested_effect (walk_delayTask nested_rules below_nil t seconds nanoseconds)
  | checkReleaseTasks h clock => exact walk_checkReleaseTasks nested_rules below_nil
  | returnRunnable h => exact walk_returnRunnable nested_rules below_nil
  | setNextRunnable h clock => exact nested_effect (nested_setNextRunnable below_nil)

/-- The harts run kernel operations. -/
def RunsCalls (p : KProc Unit) : Prop := ∃ call : KernelCall, p = call.program

/-- **The spinlocks cannot deadlock.**  Any number of harts run any operations one after
the other, in any interleaving, and the sections under the locks may return anything:
no set of harts waits for itself, no hart tries to take a lock that it holds, and no
hart holds two endpoint locks. -/
theorem spinlocks_deadlock_free {ι : Type} [DecidableEq ι] {c c' : Config ι Lock Action}
    (hc : c.Initial) (hrun : Steps lockUse RunsCalls c c') :
    (∀ S : Set ι, S.Nonempty →
      ¬ ∀ i ∈ S, ∃ l, c'.Wants lockUse i l ∧ ∃ j ∈ S, c'.owner l = some j) ∧
    (∀ i l, c'.Wants lockUse i l → c'.owner l ≠ some i) ∧
    ∀ i e e', c'.owner (.endpoint e) = some i → c'.owner (.endpoint e') = some i → e = e' := by
  have hok : c'.Ok lockUse lockRank := hc.ok.steps (fun p hp => by
    obtain ⟨call, rfl⟩ := hp
    exact call.ordered) hrun
  refine ⟨fun S hS hwait => hok.no_waiting_set hS hwait, fun i l hw => hok.no_self_wait hw,
    fun i e e' he he' => ?_⟩
  exact Lock.endpoint.inj (hok.eq_of_rank he he' rfl)

/-- One hart holds the table lock in `create_endpoint`, another one wants it. -/
theorem spinlocks_deadlock_free_two : ∃ c' : Config ℕ Lock Action,
    Steps lockUse RunsCalls ⟨fun _ => none, fun _ => .idle⟩ c' ∧
      c'.owner .table = some 0 ∧ c'.Wants lockUse 1 .table ∧
      ¬ ∀ i ∈ ({0, 1} : Set ℕ), ∃ l, c'.Wants lockUse i l ∧
        ∃ j ∈ ({0, 1} : Set ℕ), c'.owner l = some j := by
  have hstart : Step lockUse RunsCalls (⟨fun _ => none, fun _ => .idle⟩ : Config ℕ Lock Action) _ :=
    .start (i := 0) rfl ⟨.createEndpoint 1, rfl⟩
  have hrun : Steps lockUse RunsCalls _ _ :=
    ((Relation.ReflTransGen.single hstart).tail (.take (i := 0) (l := .table) rfl rfl rfl ())).tail
      (.start (i := 1) rfl ⟨.createEndpoint 2, rfl⟩)
  refine ⟨_, hrun, rfl, ⟨Unit, .acquire .table, _, rfl, rfl⟩, ?_⟩
  exact (spinlocks_deadlock_free ⟨fun _ => rfl, fun _ => rfl⟩ hrun).1 _ ⟨0, by simp⟩

/-! ### The harts of the executive -/

section Traps

variable {h : HartIndex} {clock : Clock} (caller : TaskRef) (tid : TaskId)

theorem nested_tryHandle : Nested (tryHandle h caller tid clock) [] := by
  rw [tryHandle_eq]
  refine (walk_callPart (nested_calls h) caller tid).bind fun rescheduled => ?_
  split
  · exact nested_armCurrentTimeslice below_nil
  · exact ordered_ret ()

theorem nested_handleTimerInterrupt : Nested (handleTimerInterrupt h caller clock) [] := by
  rw [handleTimerInterrupt_eq]
  exact nested_act rfl fun _ => (walk_interruptPart (nested_calls h) caller).bind fun _ =>
    nested_armCurrentTimeslice below_nil

/-- **A trap takes and drops its locks in order.** -/
theorem ordered_dispatch (frame : TrapFrame) : Nested (dispatch h caller tid frame clock) [] := by
  refine nested_act rfl fun _ => ?_
  split
  · exact nested_tryHandle caller tid
  · split
    · exact nested_handleTimerInterrupt caller
    · exact ordered_perform rfl

theorem ordered_secondaryBootstrap : Nested (secondaryBootstrap h clock) [] :=
  nested_act rfl fun _ => (walk_parkUnless nested_rules _ _).bind fun _ =>
    (nested_setNextRunnable below_nil).bind fun _ => nested_act rfl fun _ =>
      nested_armCurrentTimeslice below_nil

end Traps

/-- The locks and the threads of the executive. -/
def lockView (c : Machine.Config HartIndex Kernel Loc Action) : Config HartIndex Lock Action :=
  ⟨c.state.locks, c.thread⟩

/-- The paths on which a hart enters the kernel. -/
def EntersKernel (legal : Prop) (p : KProc Unit) : Prop := ∃ h k, Starts legal h k p

theorem EntersKernel.ordered {legal : Prop} {p : KProc Unit} (hp : EntersKernel legal p) :
    Nested p [] := by
  obtain ⟨h, k, hp⟩ := hp
  cases hp with
  | trap => exact ordered_dispatch _ _ _
  | secondary => exact ordered_secondaryBootstrap

/-- **The executive is such a system of threads**: each step of the harts on the kernel
state is a step on the locks. -/
theorem lockView_step {legal : Prop} {c c' : Machine.Config HartIndex Kernel Loc Action}
    (hs : (machine legal).Step c c') :
    Step lockUse (EntersKernel legal) (lockView c) (lockView c') := by
  cases hs with
  | @start h p hidle hp => exact .start hidle ⟨h, c.state, hp⟩
  | @act h β a next b k' hbusy hexec =>
    have hexec : exec h a c.state = .ok b k' := hexec
    have hlocks := exec_locks (k := c.state) (a := a) h
    rw [hexec] at hlocks
    cases a with
    | acquire lock =>
      rw [show exec h (.acquire lock) c.state = c.state.acquire h lock from rfl,
        Kernel.acquire] at hexec
      split at hexec
      · rename_i hfree
        cases hexec
        exact .take hbusy rfl hfree ()
      · cases hexec
    | release lock =>
      cases hexec
      exact .drop hbusy rfl ()
    | _ =>
      have hstep : Step lockUse (EntersKernel legal) (lockView c) _ := .other hbusy rfl b
      rw [lockView, lockView, show k'.locks = c.state.locks from hlocks rfl]
      exact hstep
  | @halt h β a next e k' hbusy hexec hwaits =>
    have hexec : exec h a c.state = .error e k' := hexec
    have hlocks := exec_locks (k := c.state) (a := a) h
    rw [hexec] at hlocks
    cases a with
    | acquire lock =>
      rw [show exec h (.acquire lock) c.state = c.state.acquire h lock from rfl,
        Kernel.acquire] at hexec
      split at hexec
      · cases hexec
      · cases hexec
        exact absurd rfl hwaits
    | release lock => cases hexec
    | _ =>
      have hstep : Step lockUse (EntersKernel legal) (lockView c) _ := .halt hbusy rfl
      rw [lockView, lockView, show k'.locks = c.state.locks from hlocks rfl]
      exact hstep
  | @finish h hbusy => exact .finish hbusy

/-- The harts of the executive keep their locks in order, in every interleaving. -/
theorem locks_ok_of_steps {legal : Prop} {c c' : Machine.Config HartIndex Kernel Loc Action}
    (hc : (lockView c).Initial) (hs : (machine legal).Steps c c') :
    (lockView c').Ok lockUse lockRank := by
  induction hs with
  | refl => exact hc.ok
  | tail _ hstep ih => exact ih.step (fun _ hp => hp.ordered) (lockView_step hstep)

end Jixia
