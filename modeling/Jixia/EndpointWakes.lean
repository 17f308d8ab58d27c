/-
What the calls on an endpoint do to the run queues.

A call either goes on, and then it appends the tasks it wakes to a run queue, or it blocks
the caller, and then its hart takes tasks off the front.

* `Pushed.step` — an action that dispatches nothing appends;
* `pops_of_run` — code that wakes nothing takes tasks off the front;
* `endpointCall_ends` — the hart and the run queues after a trap with one of the calls.
-/
import Jixia.EndpointTraps

namespace Jixia

open Proc KProc Machine Function Kernel

variable {h : HartIndex} {k k' : Kernel} {t : TaskRef} {q : RunQueueRef}
  {r : RunQueueRef → List TaskRef} {frame : TrapFrame} {clock : Clock}

/-! ### Actions that leave the run queues alone -/

/-- The run queues and their links are the same. -/
structure SameRun (k k' : Kernel) : Prop where
  runQueues : k'.runQueues = k.runQueues
  node : ∀ t, (k'.tasks t).next = (k.tasks t).next ∧
    (k'.tasks t).previous = (k.tasks t).previous ∧ (k'.tasks t).queued = (k.tasks t).queued

namespace SameRun

theorem refl (k : Kernel) : SameRun k k := ⟨rfl, fun _ => ⟨rfl, rfl, rfl⟩⟩

theorem modifyHart (h : HartIndex) (f : HartLocal → HartLocal) : SameRun k (k.modifyHart h f) :=
  ⟨rfl, fun _ => ⟨rfl, rfl, rfl⟩⟩

theorem modifyTask (t : TaskRef) {f : Task → Task} (hf : ∀ task : Task,
    (f task).next = task.next ∧ (f task).previous = task.previous ∧
      (f task).queued = task.queued) : SameRun k (k.modifyTask t f) := by
  refine ⟨rfl, fun u => ?_⟩
  rw [modifyTask_tasks]
  by_cases hu : u = t
  · rw [hu, update_self]
    exact hf _
  · rw [update_of_ne hu]
    exact ⟨rfl, rfl, rfl⟩

theorem of_section (hf : SectionFrame k k') : SameRun k k' := by
  refine ⟨by rw [hf.rest], fun t => ?_⟩
  have htask := hf.task t
  simp only [Task.kept, Task.mk.injEq] at htask
  tauto

theorem runLists (hs : SameRun k k') (hr : RunLists k r) : RunLists k' r :=
  hr.congr hs.runQueues hs.node

end SameRun

/-- The two sections of a run queue. -/
def Action.movesTask : {β : Type} → Action β → Bool
  | _, .runQueueInsert .. | _, .runQueueRemove .. => true
  | _, _ => false

theorem exec_sameRun {β : Type} {a : Action β} (ha : a.isEndpointWork = true)
    (hm : a.movesTask = false) {b : β} (hx : exec h a k = .ok b k') : SameRun k k' := by
  cases a <;> first
    | exact .of_section (exec_sectionFrame rfl hx)
    | cases ha; done
    | cases hm; done
    | skip
  all_goals simp only [exec] at hx
  case acquire l =>
    rw [acquire] at hx
    split at hx <;> cases hx
    exact ⟨rfl, fun _ => ⟨rfl, rfl, rfl⟩⟩
  case scheduler t | yieldScheduler t _ =>
    rcases schedulerOf_cases k t with heq | heq <;> cases heq.symm.trans hx
    exact .refl k
  case restoreCurrentContext =>
    rw [restoreCurrentContext] at hx
    split at hx
    · cases hx
    · cases hx
      exact .modifyHart ..
  case setCurrentTask t =>
    rw [setCurrentTask] at hx
    split at hx
    · cases hx
    · cases hx
      have htask : SameRun k (k.modifyTask t fun task =>
          { task with cpu := some h, state := .running }) := by
        refine .modifyTask t ?_
        exact fun _ => ⟨rfl, rfl, rfl⟩
      exact ⟨htask.runQueues, htask.node⟩
  all_goals cases hx
  all_goals exact ⟨rfl, fun _ => ⟨rfl, rfl, rfl⟩⟩

/-! ### Steps and runs -/

/-- An action that is no removal appends to the queues. -/
theorem exec_pushes {β : Type} {a : Action β} (ha : a.isNeutral = true) {b : β}
    (hx : exec h a k = .ok b k') (hr : RunLists k r) :
    ∃ r', RunLists k' r' ∧ ∀ q, ∃ l, r' q = r q ++ l := by
  by_cases hm : a.movesTask = true
  · cases a <;> first | cases ha; done | cases hm; done | skip
    case runQueueInsert q t =>
      simp only [exec, Outcome.total] at hx
      cases hx
      by_cases ht : ((k.tasks t).queued || (k.tasks t).delay.queued ||
          (k.tasks t).messageWait.queued || (k.tasks t).state == .ended) = true
      · rw [RunLists.runQueueInsert_refused ht]
        exact ⟨r, hr, fun q => ⟨[], (List.append_nil _).symm⟩⟩
      · rw [Bool.not_eq_true] at ht
        rw [hr.runQueueInsert_eq ht]
        simp only [Bool.or_eq_false_iff] at ht
        refine ⟨_, hr.enqueued ht.1.1.1, fun q' => ?_⟩
        by_cases hq : q' = q
        · subst hq
          exact ⟨[t], update_self ..⟩
        · exact ⟨[], by rw [update_of_ne hq, List.append_nil]⟩
  · exact ⟨r, (exec_sameRun (work_of_neutral ha) (Bool.not_eq_true _ ▸ hm) hx).runLists hr,
      fun q => ⟨[], (List.append_nil _).symm⟩⟩

/-- An action that is no insertion takes tasks off the front. -/
theorem exec_pops {β : Type} {a : Action β} (ha : a.isQuiet = true) {b : β}
    (hx : exec h a k = .ok b k') (hr : RunLists k r) :
    ∃ r', RunLists k' r' ∧ ∀ q, ∃ n, r' q = (r q).drop n := by
  by_cases hm : a.movesTask = true
  · cases a <;> first | cases ha; done | cases hm; done | skip
    case runQueueRemove q =>
      simp only [exec] at hx
      cases hq : r q with
      | nil =>
        rw [hr.runQueueRemove_nil hq] at hx
        cases hx
        exact ⟨r, hr, fun _ => ⟨0, rfl⟩⟩
      | cons t rest =>
        rw [hr.runQueueRemove_cons hq] at hx
        split at hx
        · cases hx
        · cases hx
          refine ⟨_, hr.dequeued hq, fun q' => ?_⟩
          by_cases hq' : q' = q
          · subst hq'
            exact ⟨1, by rw [update_self, hq, List.drop_one, List.tail_cons]⟩
          · exact ⟨0, update_of_ne hq' ..⟩
  · exact ⟨r, (exec_sameRun (work_of_quiet ha) (Bool.not_eq_true _ ▸ hm) hx).runLists hr,
      fun _ => ⟨0, rfl⟩⟩

/-- The queues of a kernel extend those of another one. -/
def Pushed (r : RunQueueRef → List TaskRef) (k : Kernel) : Prop :=
  ∃ r', RunLists k r' ∧ ∀ q, ∃ l, r' q = r q ++ l

theorem Pushed.step {β : Type} {a : Action β} {b : β} (ha : a.isNeutral = true)
    (hx : exec h a k = .ok b k') (hp : Pushed r k) : Pushed r k' := by
  obtain ⟨r1, hr1, happ⟩ := hp
  obtain ⟨r2, hr2, happ'⟩ := exec_pushes ha hx hr1
  refine ⟨r2, hr2, fun q => ?_⟩
  obtain ⟨l, hl⟩ := happ q
  obtain ⟨l', hl'⟩ := happ' q
  exact ⟨l ++ l', by rw [hl', hl, List.append_assoc]⟩

/-- **Code that wakes nothing takes tasks off the front.** -/
theorem pops_of_run {α : Type} {p : KProc α} (hp : p.All fun a => a.isQuiet = true) {a : α}
    (hx : p.run (exec h) k = .ok a k') (hr : RunLists k r) :
    ∃ r', RunLists k' r' ∧ ∀ q, ∃ n, r' q = (r q).drop n := by
  refine Proc.run_all (R := fun k1 => ∃ r', RunLists k1 r' ∧ ∀ q, ∃ n, r' q = (r q).drop n)
    (fun _ _ _ _ ha hs hx => ?_) hp ⟨r, hr, fun q => ⟨0, rfl⟩⟩ hx
  obtain ⟨r1, hr1, hdrop⟩ := hs
  obtain ⟨r2, hr2, hdrop'⟩ := exec_pops ha hx hr1
  refine ⟨r2, hr2, fun q => ?_⟩
  obtain ⟨n, hn⟩ := hdrop q
  obtain ⟨n', hn'⟩ := hdrop' q
  exact ⟨n + n', by rw [hn', hn, List.drop_drop]⟩

/-! ### The end of a call -/

/-- How a trap with one of the calls ends for the hart and the run queues: the caller goes on,
with its registers in the trap frame and the woken tasks behind the other ones, or it is
blocked and the hart has taken tasks off the front. -/
inductive CallEnd (h : HartIndex) (t : TaskRef) (frame : TrapFrame)
    (k : Kernel) (r : RunQueueRef → List TaskRef) (k' : Kernel) (r' : RunQueueRef → List TaskRef) :
    Prop
  | goesOn : k'.harts h = { k.harts h with
      frame := restoreToTrap (k'.tasks t).context frame, mstatus := frame.mstatus
      satp := (k'.tasks t).context.satp } → (∀ q, ∃ l, r' q = r q ++ l) →
      CallEnd h t frame k r k' r'
  | blocks : (k'.tasks t).messageWait.queued = true → (∀ q, ∃ n, r' q = (r q).drop n) →
      CallEnd h t frame k r k' r'

theorem entered_sameRun (k : Kernel) (h : HartIndex) (t : TaskRef) (frame : TrapFrame) :
    SameRun k (k.entered h t frame) :=
  ⟨(SameRun.of_section (entered_section k h t frame)).runQueues,
    (SameRun.of_section (entered_section k h t frame)).node⟩

/-- A handler that gives the hart away is that of a blocked `recv`. -/
theorem syscallBody_pops {number : Syscall} (hcall : number.onEndpoint = true) {tid : TaskId}
    (hr : (syscallBody h t tid clock (some number)).run (exec h) k = .ok true k')
    (hl : RunLists k r) : ∃ r', RunLists k' r' ∧ ∀ q, ∃ n, r' q = (r q).drop n := by
  cases recv_of_rescheduled hcall hr
  exact pops_of_run (p := recvCall h t clock)
    ⟨rfl, fun _ => (recv_quiet _ _ _).bind fun _ => trivial⟩ hr hl

section Trap

variable {number : Syscall} (hcur : (k.harts h).currentTask = some t)
  (hsys : frame.isSyscall = true) (hnumber : Syscall.ofNumber (frame.x 17) = some number)
  (hcall : number.onEndpoint = true)

include hcur hsys hnumber hcall

/-- **The end of a call on an endpoint.** -/
theorem endpointCall_ends {w : EndpointRef → List TaskRef} {dying : EndpointRef → Prop}
    (hi : IpcInv k w dying) (hl : RunLists k r) (hr : Trapped h t frame clock k k') :
    ∃ r', RunLists k' r' ∧ CallEnd h t frame k r k' r' := by
  rw [Trapped, dispatch_eq hcur hsys, hnumber] at hr
  obtain ⟨b, k1, hbody, hafter⟩ := run_bind_inv hr
  have hl0 := (entered_sameRun k h t frame).runLists hl
  cases b with
  | true =>
    have hqueued := syscallBody_blocked hcall (hi.same (entered_sameIpc k h t frame)) hbody
    obtain ⟨r1, hr1, hdrop⟩ := syscallBody_pops hcall hbody hl0
    obtain ⟨r2, hr2, hdrop'⟩ := pops_of_run (afterCall_quiet true) hafter hr1
    refine ⟨r2, hr2, .blocks ?_ fun q => ?_⟩
    · rw [(afterCall_schedFrame hafter).sameIpc.node, hqueued]
    · obtain ⟨n, hn⟩ := hdrop q
      obtain ⟨n', hn'⟩ := hdrop' q
      exact ⟨n + n', by rw [hn', hn, List.drop_drop]⟩
  | false =>
    have hharts := syscallBody_goesOn (R := fun k1 => k1.harts = (k.entered h t frame).harts)
      (fun ha hx h0 => (exec_harts (Action.writesHart_of_isNeutral ha) hx).trans h0) hcall hbody rfl
    obtain ⟨r', hr', happ⟩ := syscallBody_goesOn (R := Pushed r) (fun ha hx h0 => h0.step ha hx)
      hcall hbody ⟨r, hl0, fun q => ⟨[], (List.append_nil _).symm⟩⟩
    have hhart : k1.harts h = { k.harts h with frame := frame, mstatus := frame.mstatus } := by
      rw [hharts]
      exact update_self ..
    obtain ⟨_, k2, hrestore, hafter⟩ := run_perform_inv hafter
    simp only [exec, restoreCurrentContext, hhart, hcur] at hrestore
    cases hrestore
    cases hafter
    refine ⟨r', hr'.congr rfl fun _ => ⟨rfl, rfl, rfl⟩, .goesOn ?_ happ⟩
    rw [modifyHart_harts, update_self, hhart]
    rfl

end Trap

end Jixia
