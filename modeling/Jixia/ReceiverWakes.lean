/-
No receiver is lost, and none is woken twice.

A task that is blocked on a message is linked in the waiting FIFO of exactly one active
endpoint, and a call on the endpoint table ends its wait only with a message or with the
destruction of the endpoint.

* `WaitersSound` — the waiting FIFOs agree with the states of the tasks;
* `WaitEnd` — what a call can do to a blocked task;
* `wakeAll_pushes` — a destroy puts the receivers into the run queues in the order of the FIFO;
* `receivers_woken_once` — all of it, in every state of a run and for every call.
-/
import Jixia.EndpointCommute
import Jixia.MessagePairing

namespace Jixia

open Proc KProc WaitLists Function Kernel EndpointHandle

variable {h : HartIndex} {k k' : Kernel} {c t u : TaskRef} {frame : TrapFrame} {clock : Clock}
  {w : EndpointRef → List TaskRef} {dying : EndpointRef → Prop} {e : EndpointRef}
  {legal : Prop} {loc loc' : Loc}

/-! ### The waiting FIFOs -/

/-- The current handle of a slot. -/
def Kernel.handleOf (k : Kernel) (e : EndpointRef) : Word :=
  EndpointHandle.raw ⟨BitVec.ofNat 32 e.val, (k.endpoints e).generation⟩

theorem slotOf_handleOf (k : Kernel) (e : EndpointRef) : slotOf (k.handleOf e) = e := by
  rw [slotOf, handleOf, fromRaw_raw, EndpointHandle.slot_mk]

/-- The task is linked in the FIFO of this endpoint and in no other queue. -/
structure LinkedOn (k : Kernel) (t : TaskRef) (e : EndpointRef) : Prop where
  linked : t ∈ k.waiters e
  only : ∀ e', t ∈ k.waiters e' → e' = e
  active : (k.endpoints e).active = true
  handle : (k.tasks t).stateInfo = k.handleOf e
  run : ∀ q, t ∉ k.runList q
  delay : ∀ q, t ∉ k.sleepers q

/-- **The waiting FIFOs are sound.** -/
structure WaitersSound (k : Kernel) : Prop where
  blocked : ∀ t, (k.tasks t).state = .blockedMessage ↔ ∃ e, LinkedOn k t e
  count : ∀ e, (k.endpoints e).waitingCount = (k.waiters e).length
  links : ∀ e, ∀ t ∈ k.waiters e, ∀ u ∈ k.waiters e,
    k.waitNext t = some u ↔ k.waitPrev u = some t

theorem Quiescent.ipcOk (hq : Quiescent legal k loc) :
    ∃ w, IpcOk k w ∧ ∀ e t, t ∈ w e ↔ loc t = some (.wait e) := by
  obtain ⟨w, hi, hmem⟩ := hq.inv.queues.wait
  refine ⟨w, ⟨hi.lists, hi.slots, fun e _ hdead => ?_⟩, hmem⟩
  rw [List.eq_nil_iff_forall_not_mem]
  intro t ht
  rw [hq.inv.quiet (hq.unlocked _) t e ((hmem e t).mp ht)] at hdead
  cases hdead

theorem Quiescent.mem_waiters (hq : Quiescent legal k loc) :
    t ∈ k.waiters e ↔ loc t = some (.wait e) := by
  obtain ⟨w, hi, hmem⟩ := hq.ipcOk
  rw [waiters_eq hi.lists, hmem]

theorem Quiescent.mem_sleepers (hq : Quiescent legal k loc) {q : HartIndex} :
    t ∈ k.sleepers q ↔ loc t = some (.delay q) := by
  obtain ⟨d, hd, hmem⟩ := hq.inv.queues.delay
  rw [hd.sleepers_eq, hmem]

theorem Quiescent.linkedOn (hq : Quiescent legal k loc) (ht : loc t = some (.wait e)) :
    LinkedOn k t e where
  linked := hq.mem_waiters.mpr ht
  only e' he' := by cases ht.symm.trans (hq.mem_waiters.mp he'); rfl
  active := hq.inv.quiet (hq.unlocked _) t e ht
  handle := (hq.inv.placed t _ ht).state.2 (hq.inv.quiet (hq.unlocked _) t e ht)
  run q hrun := by cases ht.symm.trans ((hq.mem_runList q t).mp hrun)
  delay q hdelay := by cases ht.symm.trans (hq.mem_sleepers.mp hdelay)

theorem Quiescent.waitersSound (hq : Quiescent legal k loc) : WaitersSound k := by
  obtain ⟨w, hi, -⟩ := hq.ipcOk
  refine ⟨fun t => ?_, fun e => ?_, fun e t ht u hu => ?_⟩
  · rw [hq.blocked_iff, hq.inv.wait_iff]
    constructor
    · rintro ⟨e, he⟩
      exact ⟨e, hq.linkedOn he⟩
    · rintro ⟨e, he⟩
      exact ⟨e, hq.mem_waiters.mp he.linked⟩
  · rw [waiters_eq hi.lists, hi.lists.count]
  · rw [waiters_eq hi.lists] at ht hu
    exact (hi.lists.holds e).next_eq_iff ht hu

/-! ### What a blocked task keeps -/

/-- The registers of a task, its handle and whether it waits. -/
def Task.saved (task : Task) : TaskContext × Word × Bool :=
  (task.context, task.stateInfo, task.messageWait.queued)

theorem SchedFrame.saved (hf : SchedFrame k k') (t : TaskRef) :
    (k'.tasks t).saved = (k.tasks t).saved := by
  rw [hf.task t]
  rfl

theorem saved_modifyTask {f : Task → Task} (hne : t ≠ c) :
    ((k.modifyTask c f).tasks t).saved = (k.tasks t).saved := by
  rw [modifyTask_tasks, update_of_ne hne]

theorem entered_saved (k : Kernel) (h : HartIndex) (frame : TrapFrame) (hne : t ≠ c) :
    ((k.entered h c frame).tasks t).saved = (k.tasks t).saved := by
  rw [entered, saved_modifyTask hne, saved, saved_modifyTask hne]
  rfl

theorem popped_saved {rest : List TaskRef} (hne : t ≠ u) :
    ((popped k e u rest).tasks t).saved = (k.tasks t).saved := by
  show ((k.withWaitNodes (popNode k u)).tasks t).saved = _
  simp only [withWaitNodes, Task.saved, popNode, if_neg hne]

theorem pushed_saved {l : List TaskRef} (hne : t ≠ u) :
    ((pushed k e u l).tasks t).saved = (k.tasks t).saved := by
  show ((k.withWaitNodes (pushNode k l.getLast? u)).tasks t).saved = _
  simp only [withWaitNodes, Task.saved, pushNode, if_neg hne]

/-- The receiver at the front got a message; the other tasks keep what they have. -/
theorem handedOver_saved (k : Kernel) (e : EndpointRef) (u : TaskRef) (rest : List TaskRef)
    (message : Message) :
    (∀ t, t ≠ u → ((handedOver k e u rest message).tasks t).saved = (k.tasks t).saved) ∧
      ((handedOver k e u rest message).tasks u).saved =
        ((k.tasks u).context.writeRecv 0 message, 0, false) := by
  constructor
  · intro t hne
    rw [handedOver, saved_modifyTask hne, writeRecvRegisters, saved_modifyTask hne,
      popped_saved hne]
  · simp [handedOver, writeRecvRegisters, modifyTask_tasks, Task.saved, popped,
      withWaitNodes, popNode, modifyEndpoint]

/-- The receiver at the front was told that the endpoint is gone. -/
theorem revoked_saved {rest : List TaskRef} :
    (∀ t, t ≠ u → ((revoked k e u rest).tasks t).saved = (k.tasks t).saved) ∧
      ((revoked k e u rest).tasks u).saved =
        ((k.tasks u).context.setX 10 (BitVec.ofInt 64 kErrorIdrm), 0, false) := by
  constructor
  · intro t hne
    rw [revoked, setReg, saved_modifyTask hne, saved_modifyTask hne, popped_saved hne]
  · simp [revoked, setReg, modifyTask_tasks, Task.saved, popped,
      withWaitNodes, popNode, modifyEndpoint]

/-- The wake loop: by induction on the receivers, each is told once. -/
theorem Wakes.saved {l : List TaskRef} (hw : Wakes e l k k') (hn : l.Nodup) :
    (t ∉ l → (k'.tasks t).saved = (k.tasks t).saved) ∧
      (t ∈ l → (k'.tasks t).saved =
        ((k.tasks t).context.setX 10 (BitVec.ofInt 64 kErrorIdrm), 0, false)) := by
  induction hw with
  | done hf => exact ⟨fun _ => hf.saved t, fun ht => absurd ht List.not_mem_nil⟩
  | @wake u rest k k1 k' hf _ ih =>
    rw [List.nodup_cons] at hn
    obtain ⟨hout, hin⟩ := ih hn.2
    constructor
    · intro ht
      rw [List.mem_cons, not_or] at ht
      rw [hout ht.2, hf.saved, revoked_saved.1 t ht.1]
    · intro ht
      by_cases hu : t = u
      · subst hu
        rw [hout hn.1, hf.saved, revoked_saved.2]
      · have hsame := (hf.saved t).trans (revoked_saved.1 t hu)
        rw [hin ((List.mem_cons.mp ht).resolve_left hu), (Prod.mk.inj hsame).1]

/-! ### The five calls -/

/-- A task that is not idle makes a call on the endpoint table. -/
structure TableCall (k : Kernel) (h : HartIndex) (c : TaskRef) (frame : TrapFrame)
    (number : Syscall) : Prop where
  current : (k.harts h).currentTask = some c
  idle : (k.tasks c).idle = false
  isSyscall : frame.isSyscall = true
  number_eq : Syscall.ofNumber (frame.x 17) = some number
  onTable : number = .endpointCreate ∨ number.onEndpoint = true

/-- What a call can do to a task that waits: it goes on waiting, or the call is a SEND that
finds it at the front and hands the message over, or it is the destruction of the endpoint. -/
inductive WaitEnd (c : TaskRef) (frame : TrapFrame) (number : Syscall) (k k' : Kernel)
    (t : TaskRef) : Prop
  | waits : (k'.tasks t).saved = (k.tasks t).saved → WaitEnd c frame number k k' t
  | message : number = .send → (k.tasks t).stateInfo = frame.x 10 →
      (k.waiters (slotOf (frame.x 10))).head? = some t →
      (k'.tasks t).saved = ((k.tasks t).context.writeRecv 0 ⟨(k.tasks c).tid, frame.words⟩, 0,
        false) → WaitEnd c frame number k k' t
  | destroyed : number = .endpointDestroy → (k.tasks t).stateInfo = frame.x 10 →
      (k'.tasks t).saved = ((k.tasks t).context.setX 10 (BitVec.ofInt 64 kErrorIdrm), 0, false) →
      WaitEnd c frame number k k' t

section Effects

variable {number : Syscall} (hcall : TableCall k h c frame number)
  (hr : Trapped h c frame clock k k')

include hcall hr

theorem createCall_run (hn : number = .endpointCreate) :
    ∃ result k1 v, (createEndpoint (k.tasks c).tid).run (exec h) (k.entered h c frame) =
      .ok result k1 ∧ SchedFrame (k1.setReg c 10 v) k' := by
  obtain ⟨b, k1, hbody, hf⟩ := hr.body hcall.current hcall.isSyscall (hn ▸ hcall.number_eq)
  obtain ⟨task, k2, hload, hbody⟩ := run_perform_inv hbody
  cases hload
  rw [entered_tid] at hbody
  obtain ⟨result, k3, hcreate, hbody⟩ := run_bind_inv hbody
  obtain ⟨_, k4, hset, hbody⟩ := run_perform_inv hbody
  cases hset
  cases hbody
  exact ⟨result, k3, _, hcreate, hf⟩

/-- The run queues are not touched after a destroy. -/
theorem destroyCall_run (hn : number = .endpointDestroy) :
    ∃ code k1, (destroyEndpoint (k.tasks c).tid (frame.x 10)).run (exec h) (k.entered h c frame) =
      .ok code k1 ∧ SchedFrame (k1.setReg c 10 (if code < 0 then errorValue code else 0)) k' ∧
        SameRun k1 k' := by
  rw [Trapped, dispatch_eq hcall.current hcall.isSyscall, hcall.number_eq, hn] at hr
  obtain ⟨b, k1, hbody, hafter⟩ := run_bind_inv hr
  have hf := afterCall_schedFrame hafter
  obtain ⟨task, k2, hload, hbody⟩ := run_perform_inv hbody
  cases hload
  rw [entered_reg k h c frame (by decide), entered_tid] at hbody
  obtain ⟨code, k3, hdestroy, hbody⟩ := run_bind_inv hbody
  obtain ⟨_, k4, hset, hbody⟩ := run_perform_inv hbody
  cases hset
  cases hbody
  obtain ⟨_, k5, hrestore, hafter⟩ := run_perform_inv hafter
  have hsame := exec_sameRun rfl rfl hrestore
  cases hafter
  refine ⟨code, k3, hdestroy, hf, ⟨hsame.runQueues, fun t => ?_⟩⟩
  have hset : SameRun k3 (k3.setReg c 10 (if code < 0 then errorValue code else 0)) :=
    .modifyTask c fun _ => ⟨rfl, rfl, rfl⟩
  obtain ⟨hn1, hp1, hq1⟩ := hset.node t
  obtain ⟨hn2, hp2, hq2⟩ := hsame.node t
  exact ⟨hn2.trans hn1, hp2.trans hp1, hq2.trans hq1⟩

/-- A caller does not wait. -/
theorem TableCall.ne (hq : Quiescent legal k loc) (ht : loc t = some (.wait e)) : t ≠ c := by
  rintro rfl
  obtain ⟨i, ⟨hrun, -⟩, -⟩ := (hq.rest h).caller hcall.current
  rw [(hq.inv.placed t _ ht).state.1] at hrun
  cases hrun

variable (hq : Quiescent legal k loc) (ht : loc t = some (.wait e))

include hq ht

theorem waits_of_create (hn : number = .endpointCreate) :
    (k'.tasks t).saved = (k.tasks t).saved := by
  have hne := hcall.ne hr hq ht
  obtain ⟨result, k1, v, hcreate, hf⟩ := createCall_run hcall hr hn
  rw [hf.saved, setReg, saved_modifyTask hne, ← entered_saved k h frame hne]
  rcases createEndpoint_run hcreate with ⟨-, -, hf'⟩ | ⟨e', k2, -, hf1, -, hf2⟩
  · exact hf'.saved t
  · exact (hf2.saved t).trans (hf1.saved t)

theorem waits_of_tryRecv (hn : number = .tryRecv) : (k'.tasks t).saved = (k.tasks t).saved := by
  have hne := hcall.ne hr hq ht
  obtain ⟨result, k1, hrecv, hf⟩ :=
    tryRecvCall_run hcall.current hcall.isSyscall hr (hn ▸ hcall.number_eq)
  have hlast : (k'.tasks t).saved = (k1.tasks t).saved := by
    rw [hf.saved]
    cases result with
    | inl error => rw [Sum.elim_inl, setReg, saved_modifyTask hne]
    | inr message => rw [Sum.elim_inr, writeRecvRegisters, saved_modifyTask hne]
  rw [hlast, ← entered_saved k h frame hne]
  rcases tryRecv_run hrecv with ⟨-, -, rfl⟩ | ⟨-, k2, k3, hf1, hcase, hf2⟩
  · rfl
  · rw [hf2.saved, ← hf1.saved]
    cases hcase <;> rfl

theorem waits_of_recv (hn : number = .recv) : (k'.tasks t).saved = (k.tasks t).saved := by
  have hne := hcall.ne hr hq ht
  obtain ⟨status, k1, hrecv, hf⟩ :=
    recvCall_run hcall.current hcall.isSyscall hr (hn ▸ hcall.number_eq)
  obtain ⟨w, hi, -⟩ := hq.ipcOk
  rw [hf.saved, ← entered_saved k h frame hne]
  obtain ⟨-, ⟨-, -, rfl⟩ | ⟨-, k2, k3, hf1, hcase, hf2⟩⟩ :=
    recv_run (hi.same (entered_sameIpc k h c frame)) hrecv
  · exact saved_modifyTask hne
  · rw [hf2.saved, ← hf1.saved]
    cases hcase with
    | stale _ | message _ _ => exact saved_modifyTask hne
    | block _ _ => rw [blockedOn, saved_modifyTask hne, pushed_saved hne]

omit hcall hr in
/-- A task that waits in the slot of a live handle waits on that handle. -/
theorem Quiescent.stateInfo_eq {handle : Word} (he : slotOf handle = e)
    (hwf : (fromRaw handle).wellFormed = true)
    (hlive : k.IsLive (.fromRaw handle)) : (k.tasks t).stateInfo = handle := by
  rw [(hq.linkedOn ht).handle, ← he]
  exact (raw_of_isLive hwf hlive).symm

theorem waitEnd_of_send (hn : number = .send) : WaitEnd c frame number k k' t := by
  have hne := hcall.ne hr hq ht
  have henter := entered_sameIpc k h c frame
  obtain ⟨code, k1, hsend, hf⟩ :=
    sendCall_run hcall.current hcall.isSyscall hr (hn ▸ hcall.number_eq)
  obtain ⟨w, hi, hmem⟩ := hq.ipcOk
  have hlast : (k'.tasks t).saved = (k1.tasks t).saved := by
    rw [hf.saved, setReg, saved_modifyTask hne]
  rcases send_run (hi.same henter) hsend with ⟨-, -, rfl⟩ | ⟨hwf, k2, step, k3, hf1, hcase, hf2, -⟩
  · exact .waits (hlast.trans (entered_saved k h frame hne))
  have hfirst := (hf1.saved t).trans (entered_saved k h frame hne)
  rw [hf2.saved] at hlast
  cases hcase with
  | stale _ | full _ _ _ | queued _ _ _ => exact .waits (hlast.trans hfirst)
  | @wake u rest hlive hw =>
    obtain ⟨hother, hself⟩ := handedOver_saved k2 (fromRaw (frame.x 10)).slot u
      rest ⟨(k.tasks c).tid, frame.words⟩
    by_cases hu : t = u
    · subst hu
      have he : loc t = some (.wait (slotOf (frame.x 10))) := by
        rw [← hmem, slotOf, hw]
        exact List.mem_cons_self
      refine .message hn (hq.stateInfo_eq he rfl hwf ?_) ?_ ?_
      · exact (IsLive.same (henter.trans hf1.sameIpc)).mp hlive
      · rw [waiters_eq hi.lists, slotOf, hw, List.head?_cons]
      · rw [hlast, hself, (Prod.mk.inj hfirst).1]
    · exact .waits (hlast.trans ((hother t hu).trans hfirst))

/-- A destroy that is refused changes nothing for a task that waits. -/
theorem waitEnd_of_destroy (hn : number = .endpointDestroy) : WaitEnd c frame number k k' t := by
  have hne := hcall.ne hr hq ht
  have henter := entered_sameIpc k h c frame
  obtain ⟨code, k1, hdestroy, hf, -⟩ := destroyCall_run hcall hr hn
  obtain ⟨w, hi, hmem⟩ := hq.ipcOk
  have hlast : (k'.tasks t).saved = (k1.tasks t).saved := by
    rw [hf.saved, setReg, saved_modifyTask hne]
  rcases destroyEndpoint_run (hi.same henter) hdestroy with
    ⟨-, -, rfl⟩ | ⟨hwf, k2, step, k3, hf1, hcase, hend⟩
  · exact .waits (hlast.trans (entered_saved k h frame hne))
  have hfirst := (hf1.saved t).trans (entered_saved k h frame hne)
  cases hcase with
  | stale _ | denied _ _ =>
    cases hend with
    | done hf2 => exact .waits (hlast.trans ((hf2.saved t).trans hfirst))
  | dead hlive _ =>
    cases hend with
    | woken hwakes hf2 =>
      obtain ⟨hout, hin⟩ := hwakes.saved (t := t) (hi.lists.holds _).nodup
      rw [hf2.saved] at hlast
      by_cases hmember : t ∈ w (fromRaw (frame.x 10)).slot
      · refine .destroyed hn (hq.stateInfo_eq ((hmem _ t).mp hmember) rfl hwf ?_) ?_
        · exact (IsLive.same (henter.trans hf1.sameIpc)).mp hlive
        · rw [hlast, hin hmember, ← (Prod.mk.inj hfirst).1]
          rfl
      · exact .waits (hlast.trans ((hout hmember).trans hfirst))

theorem waitEnd : WaitEnd c frame number k k' t := by
  rcases hcall.onTable with hn | hn
  · exact .waits (waits_of_create hcall hr hq ht hn)
  · cases number <;> first | cases hn; done | skip
    case send => exact waitEnd_of_send hcall hr hq ht rfl
    case recv => exact .waits (waits_of_recv hcall hr hq ht rfl)
    case tryRecv => exact .waits (waits_of_tryRecv hcall hr hq ht rfl)
    case endpointDestroy => exact waitEnd_of_destroy hcall hr hq ht rfl

omit hq ht in
/-- The calls that wake somebody dispatch nothing. -/
theorem TableCall.currentTask_eq (hn : number = .send ∨ number = .endpointDestroy)
    (j : HartIndex) : (k'.harts j).currentTask = (k.harts j).currentTask := by
  have hon : number.onEndpoint = true := by rcases hn with rfl | rfl <;> rfl
  rw [Trapped, dispatch_eq hcall.current hcall.isSyscall, hcall.number_eq] at hr
  obtain ⟨b, k1, hbody, hafter⟩ := run_bind_inv hr
  cases b with
  | true => rcases hn with rfl | rfl <;> cases recv_of_rescheduled hon hbody
  | false =>
    have hharts := syscallBody_goesOn (R := fun k1 => k1.harts = (k.entered h c frame).harts)
      (fun ha hx h0 => (exec_harts (Action.writesHart_of_isNeutral ha) hx).trans h0) hon hbody rfl
    have hcur : ∀ j, (k1.harts j).currentTask = (k.harts j).currentTask := fun j => by
      have henter : (k.entered h c frame).harts = update k.harts h
        { k.harts h with frame := frame, mstatus := frame.mstatus } := rfl
      rw [hharts, henter]
      by_cases hj : j = h
      · rw [hj, update_self]
      · rw [update_of_ne hj]
    obtain ⟨_, k2, hrestore, hafter⟩ := run_perform_inv hafter
    simp only [exec, restoreCurrentContext, (hcur h).trans hcall.current] at hrestore
    cases hrestore
    cases hafter
    rw [← hcur j, modifyHart_harts]
    by_cases hj : j = h
    · rw [hj, update_self]
    · rw [update_of_ne hj]

/-- A task that does not wait any more is in a run queue. -/
theorem woken_runs (hq' : Quiescent legal k' loc')
    (hn : number = .send ∨ number = .endpointDestroy)
    (hw : (k'.tasks t).messageWait.queued = false) : ∃ q, loc' t = some (.run q) := by
  have hon : number.onEndpoint = true := by rcases hn with rfl | rfl <;> rfl
  have hf := callFrame_of_trap hcall.current hcall.isSyscall hcall.number_eq hon hr
  obtain ⟨p, hp, ho⟩ := hf.stays_open hq hq' ⟨_, ht, rfl⟩
  cases p with
  | delay | join | reaped => cases ho
  | wait e => cases hw.symm.trans ((hq'.inv.wait_iff t).mpr ⟨e, hp⟩)
  | run q => exact ⟨q, hp⟩
  | own j =>
    -- A hart would have to run the task, or to keep it as its idle task.
    exfalso
    rcases (hq'.rest j).held hp with hcur | hidle
    · rw [hcall.currentTask_eq hr hn] at hcur
      obtain ⟨i, -, hat⟩ := (hq.rest j).caller hcur
      cases ht.symm.trans (hat.owned t _ (Holding.caller_self i t _)).1
    · have htrue := ((hq'.inv.hart j).idle t hidle).2.2.1
      rw [(hf.fixed t).2.2, (hq.inv.placed t _ ht).idle rfl] at htrue
      cases htrue

end Effects

/-! ### The order of the wakes -/

/-- The tasks behind the old ones in the run queues are some of the list, in its order. -/
def PushedFrom (r : RunQueueRef → List TaskRef) (l : List TaskRef) (k : Kernel) : Prop :=
  ∃ r', RunLists k r' ∧ ∀ q, ∃ l', r' q = r q ++ l' ∧ l'.Sublist l

theorem PushedFrom.same {r : RunQueueRef → List TaskRef} {l : List TaskRef}
    (hp : PushedFrom r l k) (hs : SameRun k k') : PushedFrom r l k' := by
  obtain ⟨r', hr', happ⟩ := hp
  exact ⟨r', hs.runLists hr', happ⟩

theorem PushedFrom.mono {r : RunQueueRef → List TaskRef} {l l1 : List TaskRef}
    (hp : PushedFrom r l k) (hl : l.Sublist l1) : PushedFrom r l1 k := by
  obtain ⟨r', hr', happ⟩ := hp
  refine ⟨r', hr', fun q => ?_⟩
  obtain ⟨l', hl', hsub⟩ := happ q
  exact ⟨l', hl', hsub.trans hl⟩

theorem PushedFrom.insert {r : RunQueueRef → List TaskRef} {l : List TaskRef}
    (hp : PushedFrom r l k) (q : RunQueueRef) (t : TaskRef) :
    PushedFrom r (l ++ [t]) (k.runQueueInsert q t).2 := by
  by_cases ht : ((k.tasks t).queued || (k.tasks t).delay.queued ||
      (k.tasks t).messageWait.queued || (k.tasks t).state == .ended) = true
  · rw [RunLists.runQueueInsert_refused ht]
    exact hp.mono (List.sublist_append_left ..)
  · rw [Bool.not_eq_true] at ht
    obtain ⟨r', hr', happ⟩ := hp
    rw [hr'.runQueueInsert_eq ht]
    simp only [Bool.or_eq_false_iff] at ht
    refine ⟨_, hr'.enqueued ht.1.1.1, fun q' => ?_⟩
    obtain ⟨l', hl', hsub⟩ := happ q'
    by_cases hq : q' = q
    · subst hq
      refine ⟨l' ++ [t], ?_, hsub.append_right [t]⟩
      rw [update_self, hl', List.append_assoc]
    · refine ⟨l', ?_, hsub.trans (List.sublist_append_left ..)⟩
      rw [update_of_ne hq, hl']

theorem runQueueInsert_pushes {r : RunQueueRef → List TaskRef} {l : List TaskRef}
    {q : RunQueueRef} {b : Bool} (hr : (runQueueInsert q t).run (exec h) k = .ok b k')
    (hp : PushedFrom r l k) : PushedFrom r (l ++ [t]) k' := by
  obtain ⟨k1, hbody, rfl⟩ := locked_run hr
  obtain ⟨b', k2, hx, hret⟩ := run_perform_inv hbody
  cases hret
  simp only [exec, Outcome.total] at hx
  cases hx
  have hlocked : PushedFrom r l (k.setLock (.runQueue q) (some h)) :=
    hp.same ⟨rfl, fun _ => ⟨rfl, rfl, rfl⟩⟩
  exact (hlocked.insert q t).same ⟨rfl, fun _ => ⟨rfl, rfl, rfl⟩⟩

theorem addTask_pushes {r : RunQueueRef → List TaskRef} {l : List TaskRef} {b : Bool}
    (hr : (addTask t).run (exec h) k = .ok b k') (hp : PushedFrom r l k) :
    PushedFrom r (l ++ [t]) k' := by
  rw [addTask] at hr
  obtain ⟨task, k1, hload, hr⟩ := run_perform_inv hr
  cases hload
  split at hr
  · cases hr
    exact hp.mono (List.sublist_append_left ..)
  · split at hr
    · rw [pinnedInsert] at hr
      split at hr
      · cases hr
        exact hp.mono (List.sublist_append_left ..)
      · obtain ⟨hart, k2, hload, hr⟩ := run_perform_inv hr
        cases hload
        split at hr
        · cases hr
          exact hp.mono (List.sublist_append_left ..)
        · exact runQueueInsert_pushes hr hp
    · exact runQueueInsert_pushes hr hp

/-- The wake loop puts the receivers into the run queues in the order of the FIFO. -/
theorem wakeAll_pushes {r : RunQueueRef → List TaskRef} {l : List TaskRef} {fuel : ℕ}
    (hi : IpcInv k w dying) (hr : (wakeAll e fuel).run (exec h) k = .ok () k')
    (hp : PushedFrom r l k) : PushedFrom r (l ++ w e) k' := by
  induction fuel generalizing k w l with
  | zero =>
    obtain ⟨_, _, hx, _⟩ := run_act_inv hr
    cases hx
  | succ fuel ih =>
    rw [wakeAll] at hr
    obtain ⟨receiver, k1, hx, hr⟩ := run_perform_inv hr
    have hpop : SameRun k k1 := .of_section (exec_sectionFrame rfl hx)
    simp only [exec] at hx
    cases hw : w e with
    | nil =>
      rw [destroyPop_nil hi.lists hw] at hx
      cases hx
      cases hr
      rwa [List.append_nil]
    | cons t rest =>
      rw [destroyPop_cons hi.lists hw] at hx
      cases hx
      obtain ⟨_, k2, hx, hr1⟩ := run_perform_inv hr
      have hf1 := exec_schedFrame rfl hx
      obtain ⟨_, k3, hadd, hr2⟩ := run_bind_inv hr1
      have hf2 := schedFrame_of_run ((addTask_all t).imp scheduling_of_adding) hadd
      obtain ⟨_, k4, hpark, hr3⟩ := run_bind_inv hr2
      rw [(parkUnless_run hpark).2] at hr3
      have hadded := addTask_pushes hadd ((hp.same hpop).same (exec_sameRun rfl rfl hx))
      have hrest := ih ((hi.revoked hw).same (hf1.trans hf2).sameIpc) hr3 hadded
      rwa [update_self, List.append_assoc] at hrest

theorem destroyEndpoint_pushes {r : RunQueueRef → List TaskRef} {caller : TaskId} {handle : Word}
    {code : ℤ} (hi : IpcInv k w fun _ => True) (hl : RunLists k r)
    (hr : (destroyEndpoint caller handle).run (exec h) k = .ok code k') :
    PushedFrom r (w (slotOf handle)) k' := by
  have hnone : ∀ {k' : Kernel}, SameRun k k' → PushedFrom r (w (slotOf handle)) k' := fun hs =>
    ⟨r, hs.runLists hl, fun q => ⟨[], (List.append_nil _).symm, List.nil_sublist _⟩⟩
  rw [destroyEndpoint] at hr
  split at hr
  · obtain ⟨k1, hr1, rfl⟩ := locked_run hr
    obtain ⟨k2, hbody, rfl⟩ := locked_run hr1
    refine PushedFrom.same (k := k2) ?_ ⟨rfl, fun _ => ⟨rfl, rfl, rfl⟩⟩
    obtain ⟨step, k3, hx, hr2⟩ := run_perform_inv hbody
    have hs : SameRun k k3 := by
      have hsection : SameRun _ k3 := .of_section (exec_sectionFrame rfl hx)
      exact ⟨hsection.runQueues, hsection.node⟩
    have hf0 := ((SchedFrame.refl k).setLock .table (some h)).setLock
      (.endpoint (fromRaw handle).slot) (some h)
    have hi0 := hi.same hf0.sameIpc
    have hcase := destroyEndpointLocked_cases hi0 caller (.fromRaw handle)
    cases hx
    have hi3 := hcase.ipcInv hi0
    split at hr2
    · cases hr2
      exact hnone hs
    · obtain ⟨_, k4, hwake, hr3⟩ := run_bind_inv hr2
      cases hr3
      have hp := wakeAll_pushes (l := []) hi3 hwake
        ⟨r, hs.runLists hl, fun q => ⟨[], (List.append_nil _).symm, List.nil_sublist _⟩⟩
      rwa [List.nil_append] at hp
  · cases hr
    exact hnone (.refl _)

/-! ### Whole runs -/

/-- After a destroy nobody waits on the handle, and each of the receivers has been woken once,
in the order of the FIFO, with `-EIDRM` in `a0` and its other registers as they were. -/
structure Emptied (handle : Word) (k k' : Kernel) : Prop where
  empty : k'.waiters (slotOf handle) = []
  nobody : ∀ t, (k'.tasks t).state = .blockedMessage → (k'.tasks t).stateInfo ≠ handle
  told : ∀ t ∈ k.waiters (slotOf handle), (k'.tasks t).state = .ready ∧
    (k'.tasks t).context = (k.tasks t).context.setX 10 (BitVec.ofInt 64 (-43))
  order : ∀ q, ∃ l, k'.runList q = k.runList q ++ l ∧ l.Sublist (k.waiters (slotOf handle))
  once : ∀ t ∈ k.waiters (slotOf handle), ∃ q, t ∈ k'.runList q ∧ (k'.runList q).Nodup ∧
    ∀ q', t ∈ k'.runList q' → q' = q

theorem emptied_of_destroy {number : Syscall} (hcall : TableCall k h c frame number)
    (hr : Trapped h c frame clock k k') (hq : Quiescent legal k loc)
    (hq' : Quiescent legal k' loc') (hn : number = .endpointDestroy)
    (ha0 : (k'.tasks c).context.x 10 = 0) : Emptied (frame.x 10) k k' := by
  have henter := entered_sameIpc k h c frame
  obtain ⟨code, k1, hdestroy, hf, hrun⟩ := destroyCall_run hcall hr hn
  obtain ⟨w, hi, hmem⟩ := hq.ipcOk
  obtain ⟨r, hr0, -⟩ := hq.inv.queues.run
  obtain ⟨r', hr', happ⟩ := (destroyEndpoint_pushes ((hi.weaken fun _ _ => trivial).same henter)
    ((entered_sameRun k h c frame).runLists hr0) hdestroy).same hrun
  rw [hf.context, setReg_context, if_pos rfl] at ha0
  rcases destroyEndpoint_run (hi.same henter) hdestroy with
    ⟨-, rfl, -⟩ | ⟨hwf, k2, step, k3, hf1, hcase, hend⟩
  · exact absurd ha0 (by simp [TaskContext.setX]; decide)
  cases hcase with
  | stale _ | denied _ _ =>
    cases hend with
    | done _ => exact absurd ha0 (by simp [TaskContext.setX]; decide)
  | dead hlive _ =>
    cases hend with
    | woken hwakes hf2 =>
      have hkilled := (hi.same (henter.trans hf1.sameIpc)).killed hlive.1
      have hinv := (((hwakes.inv hkilled rfl).1.same hf2.sameIpc).same
        (SameIpc.setReg k1 c 0)).same hf.sameIpc
      have hempty : k'.waiters (slotOf (frame.x 10)) = [] := by
        rw [waiters_eq hinv.lists]
        exact update_self ..
      have hnobody : ∀ t, (k'.tasks t).state = .blockedMessage →
          (k'.tasks t).stateInfo ≠ frame.x 10 := fun t hblocked hinfo => by
        obtain ⟨e, he⟩ := (hq'.waitersSound.blocked t).mp hblocked
        have hlinked := he.linked
        rw [he.handle] at hinfo
        rw [← slotOf_handleOf k' e, hinfo, hempty] at hlinked
        exact List.not_mem_nil hlinked
      have htold : ∀ t ∈ k.waiters (slotOf (frame.x 10)), (k'.tasks t).saved =
          ((k.tasks t).context.setX 10 (BitVec.ofInt 64 kErrorIdrm), 0, false) := fun t ht => by
        rw [hq.mem_waiters] at ht
        cases waitEnd hcall hr hq ht with
        | destroyed _ _ hsaved => exact hsaved
        | message hsend _ _ _ => cases hn.symm.trans hsend
        | waits hsaved =>
          -- It would wait on a handle that is gone.
          obtain ⟨-, hinfo, hqueued⟩ := Prod.mk.inj hsaved |>.imp id Prod.mk.inj
          rw [(hq.inv.wait_iff t).mpr ⟨_, ht⟩, ← hq'.blocked_iff] at hqueued
          rw [hq.stateInfo_eq ht rfl hwf ((IsLive.same (henter.trans hf1.sameIpc)).mp hlive)]
            at hinfo
          exact absurd hinfo (hnobody t hqueued)
      have hruns : ∀ t ∈ k.waiters (slotOf (frame.x 10)), ∃ q, loc' t = some (.run q) :=
        fun t ht => woken_runs hcall hr hq (hq.mem_waiters.mp ht) hq' (.inr hn)
          (congrArg (fun saved => saved.2.2) (htold t ht))
      refine ⟨hempty, hnobody, fun t ht => ?_, fun q => ?_, fun t ht => ?_⟩
      · obtain ⟨q, hloc⟩ := hruns t ht
        exact ⟨(hq'.inv.placed t _ hloc).state, congrArg Prod.fst (htold t ht)⟩
      · rw [hr'.runList_eq, hr0.runList_eq, waiters_eq hi.lists]
        exact happ q
      · obtain ⟨q, hloc⟩ := hruns t ht
        refine ⟨q, (hq'.mem_runList q t).mpr hloc, ?_, fun q' ht' => ?_⟩
        · rw [hr'.runList_eq]
          exact (hr'.family.holds q).nodup
        · cases hloc.symm.trans ((hq'.mem_runList q' t).mp ht')
          rfl

/-- What a call on the endpoint table does to a blocked task, in its state and its saved
registers: nothing, or it is made ready by a SEND, or by the destruction of the endpoint. -/
inductive Woken (c : TaskRef) (frame : TrapFrame) (number : Syscall) (k k' : Kernel)
    (t : TaskRef) : Prop
  | waits : (k'.tasks t).state = .blockedMessage →
      (k'.tasks t).stateInfo = (k.tasks t).stateInfo →
      (k'.tasks t).context = (k.tasks t).context → Woken c frame number k k' t
  | message : number = .send → (k.tasks t).stateInfo = frame.x 10 →
      (k.waiters (slotOf (frame.x 10))).head? = some t → (k'.tasks t).state = .ready →
      (k'.tasks t).context = (k.tasks t).context.writeRecv 0 ⟨(k.tasks c).tid, frame.words⟩ →
      Woken c frame number k k' t
  | destroyed : number = .endpointDestroy → (k.tasks t).stateInfo = frame.x 10 →
      (k'.tasks t).state = .ready →
      (k'.tasks t).context = (k.tasks t).context.setX 10 (BitVec.ofInt 64 (-43)) →
      Woken c frame number k k' t

theorem woken_of_blocked {number : Syscall} (hcall : TableCall k h c frame number)
    (hr : Trapped h c frame clock k k') (hq : Quiescent legal k loc)
    (hq' : Quiescent legal k' loc') (hb : (k.tasks t).state = .blockedMessage) :
    Woken c frame number k k' t := by
  rw [hq.blocked_iff, hq.inv.wait_iff] at hb
  obtain ⟨e, ht⟩ := hb
  have hready : (number = .send ∨ number = .endpointDestroy) →
      (k'.tasks t).messageWait.queued = false → (k'.tasks t).state = .ready := fun hn hw => by
    obtain ⟨q, hloc⟩ := woken_runs hcall hr hq ht hq' hn hw
    exact (hq'.inv.placed t _ hloc).state
  cases waitEnd hcall hr hq ht with
  | waits hsaved =>
    have hqueued := congrArg (fun saved => saved.2.2) hsaved
    refine .waits (hq'.blocked_iff t |>.mpr ?_) (congrArg (fun saved => saved.2.1) hsaved)
      (congrArg Prod.fst hsaved)
    exact hqueued.trans ((hq.inv.wait_iff t).mpr ⟨e, ht⟩)
  | message hn hinfo hhead hsaved =>
    exact .message hn hinfo hhead (hready (.inl hn) (congrArg (fun saved => saved.2.2) hsaved))
      (congrArg Prod.fst hsaved)
  | destroyed hn hinfo hsaved =>
    exact .destroyed hn hinfo (hready (.inr hn) (congrArg (fun saved => saved.2.2) hsaved))
      (congrArg Prod.fst hsaved)

/-- **No receiver is lost, and none is woken twice.**  In every state of a run the waiting FIFOs
are sound; a call on the endpoint table leaves a blocked task as it is or wakes it, by a SEND
with the message or by a destroy; and a destroy wakes all receivers of the endpoint. -/
theorem receivers_woken_once {platform : Platform} {count : ℕ}
    (hrun : Run legal platform count k) :
    WaitersSound k ∧ ∀ h c frame clock number k', TableCall k h c frame number →
      Trapped h c frame clock k k' → WaitersSound k' ∧
        (∀ t, (k.tasks t).state = .blockedMessage → Woken c frame number k k' t) ∧
        (number = .endpointDestroy → (k'.tasks c).context.x 10 = 0 →
          Emptied (frame.x 10) k k') := by
  obtain ⟨loc, hq⟩ := hrun.quiescent
  refine ⟨hq.waitersSound, fun h c frame clock number k' hcall hr => ?_⟩
  have hstart : Starts legal h k (dispatch h c (k.tasks c).tid frame clock) :=
    .call ⟨hcall.current, hcall.idle, hcall.isSyscall, by rw [hcall.number_eq]; simp⟩
  obtain ⟨loc', hq'⟩ := (hrun.trap hstart hr).quiescent
  exact ⟨hq'.waitersSound, fun t hb => woken_of_blocked hcall hr hq hq' hb,
    fun hn ha0 => emptied_of_destroy hcall hr hq hq' hn ha0⟩

/-- The child of the initial task waits for a message. -/
def pairWaits : Kernel := Outcome.state ((dispatch 1 3 (pairEndpoint.tasks 3).tid
  (argumentFrame 10 0x100000000) .zero).run (exec 1) pairEndpoint)

/-- The initial task destroys the endpoint its child waits on. -/
theorem receivers_woken_once_pair : WaitersSound pairWaits ∧ pairWaits.waiters 0 = [3] ∧
    ∃ k', Trapped 0 2 (argumentFrame 7 0x100000000) .zero pairWaits k' ∧
      Emptied 0x100000000 pairWaits k' := by
  have hrun : Run True .sample 2 pairWaits :=
    pairEndpoint_run.trap (.call (by decide +kernel)) (Outcome.eq_ok (by decide +kernel))
  have htrap : Trapped 0 2 (argumentFrame 7 0x100000000) .zero pairWaits _ :=
    Outcome.eq_ok (by decide +kernel)
  obtain ⟨hsound, hcalls⟩ := receivers_woken_once hrun
  refine ⟨hsound, by decide +kernel, _, htrap, ?_⟩
  have hcall : TableCall pairWaits 0 2 (argumentFrame 7 0x100000000) .endpointDestroy :=
    ⟨by decide +kernel, by decide +kernel, by decide, by decide, .inr rfl⟩
  exact (hcalls 0 2 _ .zero _ _ hcall htrap).2.2 rfl (by decide +kernel)

end Jixia
