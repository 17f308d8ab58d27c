/-
Messages and receivers are paired in order.

A run of SEND, RECV and TRY_RECV system calls on one endpoint, from its creation on.  Accepted
sends and claims are numbered in the order of the calls; a claim is a RECV that delivers or
blocks, or a TRY_RECV that succeeds.

* `sendCall_run`, `recvCall_run`, `tryRecvCall_run` — the traps with these calls;
* `Turn.sent`, `Turn.claim`, `Turn.served` — what can be seen of a call in the registers;
* `Turn.effect` — the queue and the waiting FIFO after a call;
* `messages_paired` — the claim with a number obtains the message with that number.
-/
import Jixia.EndpointTraps
import Jixia.HandleHistory

namespace Jixia

open Proc KProc Function Kernel

variable {h : HartIndex} {k k' k0 : Kernel} {c t : TaskRef} {frame : TrapFrame} {clock : Clock}
  {w : EndpointRef → List TaskRef} {dying : EndpointRef → Prop}

/-! ### The traps -/

/-- The four words a sender passes in its registers. -/
def TrapFrame.words (frame : TrapFrame) : Fin 4 → Word :=
  ![frame.x 11, frame.x 12, frame.x 13, frame.x 14]

theorem entered_payload (k : Kernel) (h : HartIndex) (c : TaskRef) (frame : TrapFrame) :
    payload ((k.entered h c frame).tasks c).context = frame.words := by
  rw [payload, entered_reg k h c frame (by decide), entered_reg k h c frame (by decide),
    entered_reg k h c frame (by decide), entered_reg k h c frame (by decide)]
  rfl

theorem entered_tid (k : Kernel) (h : HartIndex) (c : TaskRef) (frame : TrapFrame) :
    ((k.entered h c frame).tasks c).tid = (k.tasks c).tid := by
  simp only [entered, saved, modifyTask_tasks, update_self]
  rfl

section Traps

variable (hcur : (k.harts h).currentTask = some c) (hsys : frame.isSyscall = true)
  (hr : Trapped h c frame clock k k')

include hcur hsys hr

/-- A trap is the handler of its number, and scheduling. -/
theorem Trapped.body {number : Syscall} (hn : Syscall.ofNumber (frame.x 17) = some number) :
    ∃ b k1, (syscallBody h c (k.tasks c).tid clock (some number)).run (exec h)
      (k.entered h c frame) = .ok b k1 ∧ SchedFrame k1 k' := by
  rw [Trapped, dispatch_eq hcur hsys, hn] at hr
  obtain ⟨b, k1, hbody, hafter⟩ := run_bind_inv hr
  exact ⟨b, k1, hbody, afterCall_schedFrame hafter⟩

theorem sendCall_run (hn : Syscall.ofNumber (frame.x 17) = some .send) :
    ∃ code k1, (send (k.tasks c).tid (frame.x 10) frame.words).run (exec h)
      (k.entered h c frame) = .ok code k1 ∧
      SchedFrame (k1.setReg c 10 (if code < 0 then errorValue code else 0)) k' := by
  obtain ⟨b, k1, hbody, hf⟩ := hr.body hcur hsys hn
  obtain ⟨task, k2, hload, hbody⟩ := run_perform_inv hbody
  cases hload
  rw [entered_reg k h c frame (by decide), entered_payload, entered_tid] at hbody
  obtain ⟨code, k3, hsend, hbody⟩ := run_bind_inv hbody
  obtain ⟨_, k4, hset, hbody⟩ := run_perform_inv hbody
  cases hset
  cases hbody
  exact ⟨code, k3, hsend, hf⟩

theorem recvCall_run (hn : Syscall.ofNumber (frame.x 17) = some .recv) :
    ∃ status k1, (recv h c (frame.x 10) clock).run (exec h) (k.entered h c frame) =
      .ok status k1 ∧ SchedFrame k1 k' := by
  obtain ⟨b, k1, hbody, hf⟩ := hr.body hcur hsys hn
  obtain ⟨task, k2, hload, hbody⟩ := run_perform_inv hbody
  cases hload
  rw [entered_reg k h c frame (by decide)] at hbody
  obtain ⟨status, k3, hrecv, hbody⟩ := run_bind_inv hbody
  cases hbody
  exact ⟨status, _, hrecv, hf⟩

theorem tryRecvCall_run (hn : Syscall.ofNumber (frame.x 17) = some .tryRecv) :
    ∃ result k1, (tryRecv (frame.x 10)).run (exec h) (k.entered h c frame) = .ok result k1 ∧
      SchedFrame (result.elim (fun error => k1.setReg c 10 (errorValue error))
        (k1.writeRecvRegisters c 0)) k' := by
  obtain ⟨b, k1, hbody, hf⟩ := hr.body hcur hsys hn
  obtain ⟨task, k2, hload, hbody⟩ := run_perform_inv hbody
  cases hload
  rw [entered_reg k h c frame (by decide)] at hbody
  obtain ⟨result, k3, hrecv, hbody⟩ := run_bind_inv hbody
  refine ⟨result, k3, hrecv, ?_⟩
  cases result with
  | inl error =>
    obtain ⟨_, k4, hset, hbody⟩ := run_perform_inv hbody
    cases hset
    cases hbody
    exact hf
  | inr message =>
    obtain ⟨_, k4, hset, hbody⟩ := run_perform_inv hbody
    cases hset
    cases hbody
    exact hf

end Traps

/-! ### What can be seen of a call -/

/-- One system call of a task, with the states before and after the trap. -/
structure Turn where
  hart : HartIndex
  caller : TaskRef
  frame : TrapFrame
  clock : Clock
  before : Kernel
  after : Kernel

/-- A message as it is passed in `a1`..`a5`. -/
def Message.wire (message : Message) : Fin 5 → Word :=
  ![message.words 0, message.words 1, message.words 2, message.words 3,
    message.sender]

/-- The saved `a1`..`a5`. -/
def TaskContext.received (context : TaskContext) : Fin 5 → Word :=
  ![context.x 11, context.x 12, context.x 13, context.x 14, context.x 15]

namespace Turn

variable (x : Turn)

def number : Option Syscall := Syscall.ofNumber (x.frame.x 17)

/-- The saved `a0` of the caller after the call. -/
def result : Word := (x.after.tasks x.caller).context.x 10

/-- An accepted send: what the sender had in `a1`..`a4` at its trap, and its id. -/
def sent : Option (Fin 5 → Word) :=
  if x.number = some .send ∧ x.result = 0 then
    some (Message.wire ⟨(x.before.tasks x.caller).tid, x.frame.words⟩)
  else none

/-- The task waits in the FIFO of an endpoint afterwards. -/
def waits (t : TaskRef) : Bool := (x.after.tasks t).messageWait.queued

/-- A claim: a RECV that delivers or blocks, or a TRY_RECV that succeeds. -/
def claim : Option TaskRef :=
  if x.number = some .recv ∧ (x.waits x.caller = true ∨ x.result = 0) ∨
      x.number = some .tryRecv ∧ x.result = 0 then some x.caller
  else none

/-- The claim of the task is met in this call: it is the claim of the caller, who goes on, or
the task has waited and does not wait any more. -/
def serves (t : TaskRef) : Bool :=
  !x.waits t && (x.claim == some t || (x.before.tasks t).messageWait.queued)

/-- The tasks whose claim is met, with their saved `a0` and `a1`..`a5`. -/
def served : List (TaskRef × Word × (Fin 5 → Word)) :=
  ((List.finRange kMaxTasks).filter x.serves).map fun t =>
    (t, (x.after.tasks t).context.x 10, (x.after.tasks t).context.received)

/-- The call was made on the handle by a running task, and it returned. -/
structure On (handle : Word) : Prop where
  current : (x.before.harts x.hart).currentTask = some x.caller
  running : (x.before.tasks x.caller).messageWait.queued = false
  isSyscall : x.frame.isSyscall = true
  number : x.number = some .send ∨ x.number = some .recv ∨ x.number = some .tryRecv
  handle : x.frame.x 10 = handle
  trapped : Trapped x.hart x.caller x.frame x.clock x.before x.after

end Turn

/-- The messages in the queue of an endpoint. -/
def Endpoint.pending (endpoint : Endpoint) : List Message :=
  RingBuffer.contents endpoint.queue endpoint.head endpoint.count

/-- What a call does to the waiting FIFO and the queue of its endpoint, as it can be seen. -/
inductive TurnEffect (x : Turn) (l l' : List TaskRef) (q q' : List Message) : Prop
  | nothing : x.sent = none → x.claim = none → x.served = [] → l' = l → q' = q →
      TurnEffect x l l' q q'
  | queued {m : Message} : x.sent = some m.wire → x.claim = none → x.served = [] → l = [] →
      l' = [] → q' = q ++ [m] → TurnEffect x l l' q q'
  | handed {m : Message} {t : TaskRef} : x.sent = some m.wire → x.claim = none →
      x.served = [(t, 0, m.wire)] → l = t :: l' → q = [] → q' = [] → TurnEffect x l l' q q'
  | taken {m : Message} : x.sent = none → x.claim = some x.caller →
      x.served = [(x.caller, 0, m.wire)] → l = [] → l' = [] → q = m :: q' → TurnEffect x l l' q q'
  | blocked : x.sent = none → x.claim = some x.caller → x.served = [] →
      l' = l ++ [x.caller] → q = [] → q' = [] → TurnEffect x l l' q q'

theorem writeRecv_result (context : TaskContext) (m : Message) :
    (context.writeRecv 0 m).x 10 = 0 ∧ (context.writeRecv 0 m).received = m.wire := ⟨rfl, rfl⟩

namespace Turn

variable {x : Turn} {w' : EndpointRef → List TaskRef}

theorem serves_iff (hi : IpcOk x.before w) (hi' : IpcOk x.after w') :
    x.serves t = true ↔ (∀ e, t ∉ w' e) ∧ (x.claim = some t ∨ ∃ e, t ∈ w e) := by
  rw [serves, Bool.and_eq_true, Bool.or_eq_true, Bool.not_eq_true', ← Bool.not_eq_true, waits,
    hi'.lists.queued, hi.lists.queued, not_exists, beq_iff_eq]

theorem served_nil (h : ∀ t, x.serves t = true → False) : x.served = [] := by
  rw [served, List.filter_eq_nil_iff.mpr fun t _ => h t, List.map_nil]

theorem served_single {context : TaskContext} {m : Message} (h : ∀ u, x.serves u = true ↔ u = t)
    (hctx : (x.after.tasks t).context = context.writeRecv 0 m) : x.served = [(t, 0, m.wire)] := by
  have hfilter : (List.finRange kMaxTasks).filter x.serves = [t] := by
    rw [List.filter_congr (q := (· == t)) fun u _ => ?_, List.filter_beq,
      List.count_eq_one_of_mem (List.nodup_finRange _) (List.mem_finRange t), List.replicate_one]
    rw [Bool.eq_iff_iff, h u, beq_iff_eq]
  obtain ⟨ha0, hmessage⟩ := writeRecv_result context m
  rw [served, hfilter, List.map_singleton, hctx, ha0, hmessage]

/-- A call that moves nothing serves nobody. -/
theorem served_same (hi : IpcOk x.before w) (hi' : IpcOk x.after w) (hc : x.claim = none) :
    x.served = [] := by
  refine served_nil fun t ht => ?_
  obtain ⟨hnot, hclaim | ⟨e, he⟩⟩ := (serves_iff hi hi').mp ht
  · rw [hc] at hclaim
    cases hclaim
  · exact hnot e he

/-- A send makes no claim, and a receive sends nothing. -/
theorem claim_of_send (hn : x.number = some .send) : x.claim = none := by
  rw [claim, hn]
  exact if_neg (by rintro (⟨h, -⟩ | ⟨h, -⟩) <;> cases h)

theorem sent_of_recv (hn : x.number = some .recv ∨ x.number = some .tryRecv) : x.sent = none := by
  refine if_neg ?_
  rintro ⟨hs, -⟩
  rcases hn with hn | hn <;> cases hs.symm.trans hn

end Turn

/-! ### One call -/

section Effects

variable {x : Turn} {handle : Word}

/-- The context of a task is not touched by scheduling. -/
theorem SchedFrame.context (hf : SchedFrame k k') (t : TaskRef) :
    (k'.tasks t).context = (k.tasks t).context := by rw [hf.task t]

theorem setReg_context (k : Kernel) (c : TaskRef) (v : Word) (t : TaskRef) :
    ((k.setReg c 10 v).tasks t).context =
      if t = c then (k.tasks t).context.setX 10 v else (k.tasks t).context := by
  rw [setReg, modifyTask_tasks]
  split
  · rename_i ht
    rw [ht, update_self]
  · rename_i ht
    rw [update_of_ne ht]

theorem SameIpc.setReg (k : Kernel) (c : TaskRef) (v : Word) : SameIpc k (k.setReg c 10 v) :=
  (SameIpc.refl k).modifyTask c fun _ => rfl

theorem SameIpc.writeRecv (k : Kernel) (c : TaskRef) (a0 : ℤ) (m : Message) :
    SameIpc k (k.writeRecvRegisters c a0 m) := (SameIpc.refl k).modifyTask c fun _ => rfl

/-- The handle is live, and the endpoint table is well formed. -/
structure Serving (handle : Word) (k : Kernel) (w : EndpointRef → List TaskRef) : Prop where
  ok : IpcOk k w
  wellFormed : (EndpointHandle.fromRaw handle).wellFormed = true
  live : k.IsLive (.fromRaw handle)

theorem Serving.same (hs : Serving handle k w) (hf : SameIpc k k') : Serving handle k' w :=
  ⟨hs.ok.same hf, hs.wellFormed, (IsLive.same hf).mpr hs.live⟩

/-- The messages that are pending on the handle. -/
def Kernel.pendingOn (k : Kernel) (handle : Word) : List Message :=
  (k.endpoints (slotOf handle)).pending

theorem SameIpc.pendingOn (hf : SameIpc k k') (handle : Word) :
    k'.pendingOn handle = k.pendingOn handle := by
  rw [Kernel.pendingOn, hf.endpoints, Kernel.pendingOn]

/-- The effect of a call in the states before and after. -/
def Turn.HasEffect (x : Turn) (handle : Word) (w : EndpointRef → List TaskRef) : Prop :=
  ∃ w', Serving handle x.after w' ∧ TurnEffect x (w (slotOf handle)) (w' (slotOf handle))
    (x.before.pendingOn handle) (x.after.pendingOn handle)

/-- With receivers waiting there is no message, and the other way round. -/
theorem Serving.pending_nil (hs : Serving handle k w) (hw : w (slotOf handle) ≠ []) :
    k.pendingOn handle = [] := by
  have hcount := (hs.ok.slots (slotOf handle)).exclusive.resolve_right hw
  rw [pendingOn, Endpoint.pending, hcount]
  rfl

/-- The oldest message is taken out. -/
theorem pendingOn_dequeue (hcount : 0 < (k.endpoints (slotOf handle)).count)
    (hle : (k.endpoints (slotOf handle)).count ≤ kEndpointQueueDepth) :
    k.pendingOn handle = (k.endpoints (slotOf handle)).front ::
      (k.modifyEndpoint (slotOf handle) Endpoint.dequeue).pendingOn handle := by
  obtain ⟨n, hn⟩ : ∃ n, (k.endpoints (slotOf handle)).count = n + 1 :=
    ⟨_, (Nat.sub_add_cancel hcount).symm⟩
  rw [pendingOn, pendingOn, modifyEndpoint_endpoints, update_self,
    Endpoint.pending, Endpoint.pending, Endpoint.dequeue, hn,
    RingBuffer.contents_pop _ _ (by omega) ({} : Message)]
  rfl

theorem pendingOn_enqueue (hcount : (k.endpoints (slotOf handle)).count < kEndpointQueueDepth)
    (m : Message) :
    (k.modifyEndpoint (slotOf handle) fun endpoint => endpoint.enqueue m).pendingOn handle =
      k.pendingOn handle ++ [m] := by
  rw [pendingOn, pendingOn, modifyEndpoint_endpoints, update_self,
    Endpoint.pending, Endpoint.enqueue, RingBuffer.contents_push _ _ hcount]
  rfl

/-- A running task waits in no FIFO. -/
theorem Turn.On.not_mem (hx : x.On handle) (hi : IpcOk x.before w) (e : EndpointRef) :
    x.caller ∉ w e := by
  intro hmem
  have hqueued := (hi.lists.queued x.caller).mpr ⟨e, hmem⟩
  rw [hx.running] at hqueued
  cases hqueued

theorem handedOver_context (k : Kernel) (e : EndpointRef) (t : TaskRef) (rest : List TaskRef)
    (m : Message) :
    ((handedOver k e t rest m).tasks t).context = (k.tasks t).context.writeRecv 0 m := by
  simp only [handedOver, writeRecvRegisters, modifyTask_tasks, update_self]
  rfl

/-- The waiting lists do not matter to the handle and the messages. -/
theorem SameSlots.serving (hs : SameSlots k k') (hl : k.IsLive (.fromRaw handle)) :
    k'.IsLive (.fromRaw handle) ∧ k'.pendingOn handle = k.pendingOn handle := by
  rw [Kernel.IsLive, pendingOn, slotOf, hs.endpoint]
  exact ⟨hl, rfl⟩

theorem sameSlots_handedOver (k : Kernel) (e : EndpointRef) (t : TaskRef) (rest : List TaskRef)
    (m : Message) : SameSlots k (handedOver k e t rest m) :=
  ⟨rfl, (sameSlots_popped k e t rest).endpoint⟩

theorem sameSlots_blockedOn (k : Kernel) (e : EndpointRef) (c : TaskRef) (l : List TaskRef)
    (handle : Word) : SameSlots k (blockedOn k e c l handle) := by
  refine ⟨rfl, fun e' => ?_⟩
  by_cases he : e' = e
  · subst he
    simp [blockedOn, WaitLists.pushed, withWaitNodes]
  · simp [blockedOn, WaitLists.pushed, withWaitNodes, he]

/-- A dequeued endpoint is the same endpoint. -/
theorem dequeue_isLive (hl : k.IsLive (.fromRaw handle)) :
    (k.modifyEndpoint (slotOf handle) Endpoint.dequeue).IsLive (.fromRaw handle) := by
  rw [Kernel.IsLive, modifyEndpoint_endpoints, slotOf, update_self]
  exact hl

/-- Taking the first receiver off a FIFO. -/
theorem served_iff_of_pop (hi : IpcOk k w) {e : EndpointRef} {rest : List TaskRef}
    (hw : w e = t :: rest) {u : TaskRef} :
    ((∀ e', u ∉ update w e rest e') ∧ ((none : Option TaskRef) = some u ∨
      ∃ e', u ∈ w e')) ↔ u = t := by
  have hnodup := (hi.lists.holds e).nodup
  rw [hw, List.nodup_cons] at hnodup
  constructor
  · rintro ⟨hnot, hclaim | ⟨e', he'⟩⟩
    · cases hclaim
    · have hn := hnot e'
      by_cases hee : e' = e
      · rw [hee, update_self] at hn
        rw [hee, hw] at he'
        exact (List.mem_cons.mp he').resolve_right hn
      · rw [update_of_ne hee] at hn
        exact absurd he' hn
  · rintro rfl
    have hmem : u ∈ w e := hw ▸ List.mem_cons_self
    refine ⟨fun e' he' => ?_, .inr ⟨e, hmem⟩⟩
    by_cases hee : e' = e
    · rw [hee, update_self] at he'
      exact hnodup.1 he'
    · rw [update_of_ne hee] at he'
      exact hee (hi.lists.family.disjoint he' hmem)

/-- **SEND.** -/
theorem Turn.effect_send (hx : x.On handle) (hn : x.number = some .send)
    (hs : Serving handle x.before w) : x.HasEffect handle w := by
  obtain ⟨code, k1, hsend, hlast⟩ := sendCall_run hx.current hx.isSyscall hx.trapped hn
  have henter := entered_sameIpc x.before x.hart x.caller x.frame
  have hclaim := Turn.claim_of_send hn
  have hresult : x.result = if code < 0 then errorValue code else 0 := by
    rw [Turn.result, hlast.context, setReg_context, if_pos rfl]
    rfl
  rw [hx.handle] at hsend
  rcases send_run (hs.same henter).ok hsend with
    ⟨hwf, -, -⟩ | ⟨-, k2, step, k3, hf, hcase, hf', hcode⟩
  · exact absurd hs.wellFormed (Bool.eq_false_iff.mp hwf)
  have hsame := henter.trans hf.sameIpc
  have hs2 := hs.same hsame
  have hend : SameIpc k3 x.after :=
    hf'.sameIpc.trans ((SameIpc.setReg k1 x.caller _).trans hlast.sameIpc)
  have hsent : step.code = 0 →
      x.sent = some (Message.wire ⟨(x.before.tasks x.caller).tid, x.frame.words⟩) := by
    intro hzero
    refine if_pos ⟨hn, ?_⟩
    rw [hresult, hcode, hzero]
    rfl
  cases hc : hcase with
  | stale hstale => exact absurd hs2.live hstale
  | full _ _ _ =>
    have hafter := hs2.same hend
    have hrefused : x.sent = none := by
      refine if_neg ?_
      rintro ⟨-, hzero⟩
      rw [hresult, hcode] at hzero
      exact absurd hzero (by decide)
    exact ⟨w, hafter, .nothing hrefused hclaim (Turn.served_same hs.ok hafter.ok hclaim) rfl
      ((hend.pendingOn handle).trans (hsame.pendingOn handle))⟩
  | queued hlive hw hcount =>
    have hafter : Serving handle x.after w :=
      ⟨((SendCase.queued hlive hw hcount).inv hs2.ok).same hend, hs.wellFormed, by
        rw [IsLive.same hend, Kernel.IsLive, modifyEndpoint_endpoints, update_self]
        exact hlive⟩
    exact ⟨w, hafter, .queued (hsent rfl) hclaim (Turn.served_same hs.ok hafter.ok hclaim) hw hw
      (by rw [hend.pendingOn, ← hsame.pendingOn]; exact pendingOn_enqueue hcount _)⟩
  | @wake t rest hlive hw =>
    have hok : IpcOk x.after (update w (slotOf handle) rest) := by
      have hinv := hcase.inv hs2.ok
      rw [SendStep.waiters, hw] at hinv
      exact hinv.same hend
    have hlist : w (slotOf handle) = t :: rest := hw
    have hne : t ≠ x.caller := fun heq =>
      hx.not_mem hs.ok (slotOf handle) (hlist ▸ heq ▸ List.mem_cons_self)
    have hctx : (x.after.tasks t).context = (k2.tasks t).context.writeRecv 0
        ⟨(x.before.tasks x.caller).tid, x.frame.words⟩ := by
      rw [hlast.context, setReg_context, if_neg hne, hf'.context, handedOver_context]
    have hnil : x.before.pendingOn handle = [] := by
      refine hs.pending_nil ?_
      rw [hlist]
      exact List.cons_ne_nil t rest
    have hserved := Turn.served_single (fun u => ?_) hctx
    · refine ⟨_, ⟨hok, hs.wellFormed, (IsLive.same hend).mpr ?_⟩,
        .handed (hsent rfl) hclaim hserved ?_ hnil ?_⟩
      · exact ((sameSlots_handedOver ..).serving hlive).1
      · rw [hlist, update_self]
      · rw [hend.pendingOn, ((sameSlots_handedOver ..).serving hlive).2, hsame.pendingOn, hnil]
    · rw [Turn.serves_iff hs.ok hok, hclaim]
      exact served_iff_of_pop hs.ok hlist

/-- A claim that is met at once. -/
theorem Turn.On.taken (hx : x.On handle) (hs : Serving handle x.before w) {k2 : Kernel}
    (hsame : SameIpc x.before k2) (hcount : 0 < (k2.endpoints (slotOf handle)).count)
    (hend : SameIpc (k2.modifyEndpoint (slotOf handle) Endpoint.dequeue) x.after)
    (hok : IpcOk x.after w) (hsent : x.sent = none) (hclaim : x.claim = some x.caller)
    {context : TaskContext} (hctx : (x.after.tasks x.caller).context =
      context.writeRecv 0 (k2.endpoints (slotOf handle)).front) : x.HasEffect handle w := by
  have hs2 := hs.same hsame
  have hslot := hs2.ok.slots (slotOf handle)
  have hafter : Serving handle x.after w :=
    ⟨hok, hs.wellFormed, (IsLive.same hend).mpr (dequeue_isLive hs2.live)⟩
  have hw : w (slotOf handle) = [] := hslot.exclusive.resolve_left hcount.ne'
  refine ⟨w, hafter, .taken hsent hclaim (Turn.served_single (fun u => ?_) hctx) hw hw ?_⟩
  swap
  · rw [hend.pendingOn, ← hsame.pendingOn]
    exact pendingOn_dequeue hcount hslot.count_le
  rw [Turn.serves_iff hs.ok hafter.ok, hclaim, Option.some.injEq]
  constructor
  · rintro ⟨hnot, hu | ⟨e, he⟩⟩
    · exact hu.symm
    · exact absurd he (hnot e)
  · rintro rfl
    exact ⟨hx.not_mem hs.ok, .inl rfl⟩

/-- **TRY_RECV.** -/
theorem Turn.effect_tryRecv (hx : x.On handle) (hn : x.number = some .tryRecv)
    (hs : Serving handle x.before w) : x.HasEffect handle w := by
  obtain ⟨result, k1, hrecv, hlast⟩ := tryRecvCall_run hx.current hx.isSyscall hx.trapped hn
  have henter := entered_sameIpc x.before x.hart x.caller x.frame
  have hsent := Turn.sent_of_recv (.inr hn)
  rw [hx.handle] at hrecv
  rcases tryRecv_run hrecv with ⟨hwf, -, -⟩ | ⟨-, k2, k3, hf, hcase, hf'⟩
  · exact absurd hs.wellFormed (Bool.eq_false_iff.mp hwf)
  have hsame := henter.trans hf.sameIpc
  have hs2 := hs.same hsame
  cases hc : hcase with
  | stale hstale => exact absurd hs2.live hstale
  | empty _ _ =>
    have hend : SameIpc k2 x.after :=
      hf'.sameIpc.trans ((SameIpc.setReg k1 x.caller _).trans hlast.sameIpc)
    have hafter := hs2.same hend
    have hclaim : x.claim = none := by
      refine if_neg ?_
      have hresult : x.result = errorValue kErrorAgain := by
        rw [Turn.result, hlast.context]
        show ((k1.setReg x.caller 10 _).tasks x.caller).context.x 10 = _
        rw [setReg_context, if_pos rfl]
        rfl
      rw [hn, hresult]
      rintro (⟨h, -⟩ | ⟨-, h⟩)
      · cases h
      · exact absurd h (by decide)
    exact ⟨w, hafter, .nothing hsent hclaim (Turn.served_same hs.ok hafter.ok hclaim) rfl
      ((hend.pendingOn handle).trans (hsame.pendingOn handle))⟩
  | message _ hcount =>
    have hend : SameIpc (k2.modifyEndpoint (slotOf handle) Endpoint.dequeue) x.after :=
      hf'.sameIpc.trans ((SameIpc.writeRecv k1 x.caller 0 _).trans hlast.sameIpc)
    have hctx : (x.after.tasks x.caller).context = (k1.tasks x.caller).context.writeRecv 0
        (k2.endpoints (slotOf handle)).front := by
      rw [hlast.context]
      show ((k1.writeRecvRegisters x.caller 0 _).tasks x.caller).context = _
      rw [writeRecvRegisters, modifyTask_tasks, update_self]
    refine hx.taken hs hsame hcount hend ((hcase.inv hs2.ok).same hend) hsent ?_ hctx
    refine if_pos (.inr ⟨hn, ?_⟩)
    rw [Turn.result, hctx]
    exact (writeRecv_result _ _).1

/-- **RECV.** -/
theorem Turn.effect_recv (hx : x.On handle) (hn : x.number = some .recv)
    (hs : Serving handle x.before w) : x.HasEffect handle w := by
  obtain ⟨status, k1, hrecv, hlast⟩ := recvCall_run hx.current hx.isSyscall hx.trapped hn
  have henter := entered_sameIpc x.before x.hart x.caller x.frame
  have hsent := Turn.sent_of_recv (.inl hn)
  rw [hx.handle] at hrecv
  obtain ⟨hrunning, ⟨hwf, -, -⟩ | ⟨-, k2, k3, hf, hcase, hf'⟩⟩ :=
    recv_run (hs.same henter).ok hrecv
  · exact absurd hs.wellFormed (Bool.eq_false_iff.mp hwf)
  have hsame := henter.trans hf.sameIpc
  have hs2 := hs.same hsame
  have hend := hf'.sameIpc.trans hlast.sameIpc
  have hok := (hcase.inv hs2.ok (by rw [hf.sameIpc.node]; exact hrunning)).same hend
  cases hcase with
  | stale hstale => exact absurd hs2.live hstale
  | message _ hcount =>
    have hctx : (x.after.tasks x.caller).context = (k2.tasks x.caller).context.writeRecv 0
        (k2.endpoints (slotOf handle)).front := by
      rw [hlast.context, hf'.context, writeRecvRegisters, modifyTask_tasks,
        update_self]
      rfl
    refine hx.taken hs hsame hcount ((SameIpc.writeRecv ..).trans hend) hok hsent ?_ hctx
    refine if_pos (.inl ⟨hn, .inr ?_⟩)
    rw [Turn.result, hctx]
    exact (writeRecv_result _ _).1
  | block hlive hcount =>
    have hself : x.caller ∈ update w (slotOf handle) (w (slotOf handle) ++ [x.caller])
        (slotOf handle) := by
      rw [update_self]
      exact List.mem_append_right _ (List.mem_singleton_self _)
    have hclaim : x.claim = some x.caller :=
      if_pos (.inl ⟨hn, .inl ((hok.lists.queued x.caller).mpr ⟨_, hself⟩)⟩)
    have hnil : k2.pendingOn handle = [] := by
      rw [pendingOn, Endpoint.pending, slotOf, hcount]
      rfl
    refine ⟨_, ⟨hok, hs.wellFormed, ?_⟩, .blocked hsent hclaim (Turn.served_nil fun t ht => ?_)
      (update_self ..) ((hsame.pendingOn handle).symm.trans hnil) ?_⟩
    · exact (IsLive.same hend).mpr ((sameSlots_blockedOn ..).serving hlive).1
    · -- The caller waits now, and the others have not moved.
      obtain ⟨hnot, hu | ⟨e, he⟩⟩ := (Turn.serves_iff hs.ok hok).mp ht
      · cases hclaim.symm.trans hu
        exact hnot _ hself
      · refine hnot e ?_
        show t ∈ update w (slotOf handle) (w (slotOf handle) ++ [x.caller]) e
        by_cases hee : e = slotOf handle
        · rw [hee, update_self]
          exact List.mem_append_left _ (hee ▸ he)
        · rwa [update_of_ne hee]
    · rw [hend.pendingOn, ((sameSlots_blockedOn ..).serving hlive).2, hnil]

end Effects

/-- **One call on a live handle.** -/
theorem Turn.effect {x : Turn} {handle : Word} (hx : x.On handle)
    (hs : Serving handle x.before w) : x.HasEffect handle w := by
  rcases hx.number with hn | hn | hn
  · exact Turn.effect_send hx hn hs
  · exact Turn.effect_recv hx hn hs
  · exact Turn.effect_tryRecv hx hn hs

/-! ### Runs -/

/-- A run of calls on the handle, between which the executive may do anything that leaves the
endpoint of the handle alone, calls on other endpoints included. -/
inductive Exchange (handle : Word) (k0 : Kernel) : List Turn → Kernel → Prop
  | nil : Exchange handle k0 [] k0
  | turn {turns : List Turn} {x : Turn} : Exchange handle k0 turns x.before → x.On handle →
      Exchange handle k0 (turns ++ [x]) x.after
  | other {turns : List Turn} {k k' : Kernel} : Exchange handle k0 turns k → IpcStep k k' →
      abstraction k' (slotOf handle) = abstraction k (slotOf handle) → Exchange handle k0 turns k'

/-- The accepted sends, in order. -/
def sends (turns : List Turn) : List (Fin 5 → Word) := turns.filterMap Turn.sent

/-- The claims, in order. -/
def claims (turns : List Turn) : List TaskRef := turns.filterMap Turn.claim

/-- The claims that have been met, with the registers of their tasks. -/
def meetings (turns : List Turn) : List (TaskRef × Word × (Fin 5 → Word)) :=
  turns.flatMap Turn.served

/-- The claims that are open wait in the FIFO, and the messages that nobody has claimed are
in the queue. -/
structure Paired (turns : List Turn) (l : List TaskRef) (q : List Message) : Prop where
  claims : claims turns = (meetings turns).map Prod.fst ++ l
  sends : sends turns = (meetings turns).map (fun g => g.2.2) ++ q.map Message.wire
  result : ∀ g ∈ meetings turns, g.2.1 = 0

theorem Paired.step {turns : List Turn} {x : Turn} {l l' : List TaskRef} {q q' : List Message}
    (hp : Paired turns l q) (he : TurnEffect x l l' q q') : Paired (turns ++ [x]) l' q' := by
  obtain ⟨hclaims, hsends, hresult⟩ := hp
  have hc : Jixia.claims (turns ++ [x]) = Jixia.claims turns ++ x.claim.toList := by
    rw [Jixia.claims, List.filterMap_append, Jixia.claims]
    cases hx : x.claim <;> simp [hx]
  have hs : Jixia.sends (turns ++ [x]) = Jixia.sends turns ++ x.sent.toList := by
    rw [Jixia.sends, List.filterMap_append, Jixia.sends]
    cases hx : x.sent <;> simp [hx]
  have hm : meetings (turns ++ [x]) = meetings turns ++ x.served := by
    rw [meetings, List.flatMap_append, meetings]
    simp
  refine ⟨?_, ?_, fun g hg => ?_⟩
  · rw [hc, hm, hclaims]
    cases he <;> simp_all
  · rw [hs, hm, hsends]
    cases he <;> simp_all
  · rw [hm, List.mem_append] at hg
    refine hg.elim (hresult g) fun hg => ?_
    cases he <;> simp_all

/-- A new endpoint: nobody waits and no message is pending. -/
theorem created_serving {owner : TaskId} {handle : Word} (hr : IpcReachable k)
    (hc : (createEndpoint owner).run (exec h) k = .ok (.inr handle) k0) :
    ∃ w, Serving handle k0 w ∧ w (slotOf handle) = [] ∧ k0.pendingOn handle = [] := by
  obtain ⟨w, hi⟩ := hr.ok
  have hprogram : ((IpcCall.create owner).program h).run (exec h) k = .ok (.handle handle) k0 := by
    rw [IpcCall.program, Proc.run_bind, hc]
    rfl
  have hwf := (create_handle hi hprogram).1
  rcases createEndpoint_run hc with ⟨-, hr, -⟩ | ⟨e, k1, hfree, hf, hresult, hf'⟩
  · cases hr
  obtain ⟨hal, -, -⟩ := findFreeEndpoint_some hfree
  have hnil : w e = [] := hi.free_empty id hal
  have hok : IpcOk k0 w := ((hi.same hf.sameIpc).create hnil owner).same hf'.sameIpc
  obtain rfl := Sum.inr.inj hresult
  rw [createEndpointLocked_handle] at hwf ⊢
  have hparsed := EndpointHandle.fromRaw_raw
    ⟨BitVec.ofNat 32 e.val, bornGeneration (k1.endpoints e)⟩
  have hslot := EndpointHandle.slot_mk e (bornGeneration (k1.endpoints e))
  have hborn : k0.endpoints e = bornEndpoint (k1.endpoints e) owner := by
    rw [hf'.sameIpc.endpoints, createEndpointLocked_state]
    exact update_self ..
  refine ⟨w, ⟨hok, hwf, ?_⟩, ?_, ?_⟩
  · rw [hparsed, Kernel.IsLive, hslot, hborn]
    exact ⟨rfl, rfl⟩
  · rw [slotOf, hparsed, hslot, hnil]
  · rw [pendingOn, slotOf, hparsed, hslot, hborn]
    rfl

/-- A step that leaves the endpoint alone. -/
theorem Serving.elsewhere {handle : Word} (hs : Serving handle k w) (hstep : IpcStep k k')
    (hsame : abstraction k' (slotOf handle) = abstraction k (slotOf handle)) :
    ∃ w', Serving handle k' w' ∧ w' (slotOf handle) = w (slotOf handle) ∧
      k'.pendingOn handle = k.pendingOn handle := by
  obtain ⟨⟨w', hi'⟩, -⟩ := hstep.simulates hs.ok
  rw [abstraction_apply hi'.lists, abstraction_apply hs.ok.lists, modelEndpoint, modelEndpoint,
    IpcModel.Endpoint.mk.injEq] at hsame
  obtain ⟨-, hactive, -, hgen, -, hqueue, hwaiters, -⟩ := hsame
  refine ⟨w', ⟨hi', hs.wellFormed, ?_⟩, hwaiters, ?_⟩
  · obtain ⟨ha, hg⟩ := hs.live
    exact ⟨hactive.trans ha, (BitVec.eq_of_toNat_eq hgen).trans hg⟩
  · refine List.map_injective_iff.mpr ?_ hqueue
    rintro ⟨s, m⟩ ⟨s', m'⟩ hm
    obtain ⟨rfl, rfl⟩ := Prod.mk.inj hm
    rfl

theorem Exchange.paired {owner : TaskId} {handle : Word} {turns : List Turn}
    (hr : IpcReachable k) (hc : (createEndpoint owner).run (exec h) k = .ok (.inr handle) k0)
    (hx : Exchange handle k0 turns k') :
    ∃ w, Serving handle k' w ∧ Paired turns (w (slotOf handle)) (k'.pendingOn handle) := by
  induction hx with
  | nil =>
    obtain ⟨w, hs, hl, hq⟩ := created_serving hr hc
    refine ⟨w, hs, ?_⟩
    rw [hl, hq]
    exact ⟨rfl, rfl, fun g hg => absurd hg List.not_mem_nil⟩
  | turn _ hon ih =>
    obtain ⟨w, hs, hp⟩ := ih
    obtain ⟨w', hs', heffect⟩ := Turn.effect hon hs
    exact ⟨w', hs', hp.step heffect⟩
  | other _ hstep hsame ih =>
    obtain ⟨w, hs, hp⟩ := ih
    obtain ⟨w', hs', hl, hq⟩ := hs.elsewhere hstep hsame
    refine ⟨w', hs', ?_⟩
    rw [hl, hq]
    exact hp

/-- **Exactly-once pairing, in order.**  In every run of calls on one handle, from the creation
of the endpoint on, the claims that have been met are the first ones, in their order, and each
has obtained the accepted message with the same number: its task has `a0 = 0` and the words and
the id of the sender in `a1`..`a5`. -/
theorem messages_paired {owner : TaskId} {handle : Word} {turns : List Turn}
    (hr : IpcReachable k) (hc : (createEndpoint owner).run (exec h) k = .ok (.inr handle) k0)
    (hx : Exchange handle k0 turns k') :
    meetings turns = ((claims turns).zip (sends turns)).map fun p => (p.1, 0, p.2) := by
  obtain ⟨w, hs, hclaims, hsends, hresult⟩ := hx.paired hr hc
  -- Open claims and unclaimed messages are not there at the same time.
  have hopen : (w (slotOf handle)).zip ((k'.pendingOn handle).map Message.wire) = [] := by
    by_cases hl : w (slotOf handle) = []
    · rw [hl, List.zip_nil_left]
    · rw [hs.pending_nil hl, List.map_nil, List.zip_nil_right]
  rw [hclaims, hsends, List.zip_append (by rw [List.length_map, List.length_map]), hopen,
    List.append_nil, List.zip_map', List.map_map]
  refine ((List.map_congr_left fun g hg => ?_).trans (List.map_id _)).symm
  exact Prod.ext rfl (Prod.ext (hresult g hg).symm rfl)

/-- The tasks 0 and 1, with the ids 5 and 6, run on the harts 0 and 1; the task 2 idles. -/
def pairTasks : Kernel :=
  { platform := .sample
    harts := fun h => { currentTask := if h = 0 then some 0 else some 1, scheduler := true,
                        delayList := some h, idleTask := some 2 }
    tasks := fun t => { tid := if t = 0 then 5 else 6, state := .running,
                        cpu := if t = 0 then some 0 else some 1, idle := t == 2 } }

/-- A call on the first handle, with a different number in each argument register. -/
def messageFrame (number : Word) (base : ℕ) : TrapFrame :=
  { x := fun r => if r = 17 then number else if r = 10 then 0x100000000 else
      BitVec.ofNat 64 (base + r.val)
    mcause := 8 }

/-- The call of a task, in the state before. -/
def Turn.make (h : HartIndex) (c : TaskRef) (frame : TrapFrame) (k : Kernel) : Turn where
  hart := h
  caller := c
  frame := frame
  clock := .zero
  before := k
  after := Outcome.state ((dispatch h c (k.tasks c).tid frame .zero).run (exec h) k)

/-- The task 0 has made an endpoint. -/
def pairCreated : Kernel := Outcome.state ((createEndpoint 5).run (exec 0) pairTasks)

/-- It sends a message, which the task 1 takes out of the queue. -/
def firstSend : Turn := .make 0 0 (messageFrame 8 0) pairCreated

def firstTake : Turn := .make 1 1 (messageFrame 11 0) firstSend.after

/-- The task 1 blocks, the next message is handed over, and a third one stays in the queue. -/
def blockingRecv : Turn := .make 1 1 (messageFrame 10 0) firstTake.after

def handingSend : Turn := .make 0 0 (messageFrame 8 100) blockingRecv.after

def lastSend : Turn := .make 0 0 (messageFrame 8 200) handingSend.after

def pairTurns : List Turn := [firstSend, firstTake, blockingRecv, handingSend, lastSend]

theorem messages_paired_blocking : claims pairTurns = [1, 1] ∧
    sends pairTurns = [![11, 12, 13, 14, 5], ![111, 112, 113, 114, 5], ![211, 212, 213, 214, 5]] ∧
    meetings pairTurns =
      ((claims pairTurns).zip (sends pairTurns)).map fun p => (p.1, 0, p.2) := by
  have hz : ZeroTable pairTasks := ⟨rfl, rfl, fun _ => rfl⟩
  have hcreate : (createEndpoint 5).run (exec 0) pairTasks = .ok (.inr 0x100000000) pairCreated :=
    Outcome.eq_ok (by decide +kernel)
  have h1 : firstSend.On 0x100000000 :=
    ⟨by decide +kernel, by decide +kernel, by decide, .inl (by decide), rfl,
      Outcome.eq_ok (by decide +kernel)⟩
  have h2 : firstTake.On 0x100000000 :=
    ⟨by decide +kernel, by decide +kernel, by decide, .inr (.inr (by decide)), rfl,
      Outcome.eq_ok (by decide +kernel)⟩
  have h3 : blockingRecv.On 0x100000000 :=
    ⟨by decide +kernel, by decide +kernel, by decide, .inr (.inl (by decide)), rfl,
      Outcome.eq_ok (by decide +kernel)⟩
  have h4 : handingSend.On 0x100000000 :=
    ⟨by decide +kernel, by decide +kernel, by decide, .inl (by decide), rfl,
      Outcome.eq_ok (by decide +kernel)⟩
  have h5 : lastSend.On 0x100000000 :=
    ⟨by decide +kernel, by decide +kernel, by decide, .inl (by decide), rfl,
      Outcome.eq_ok (by decide +kernel)⟩
  have hx : Exchange 0x100000000 pairCreated pairTurns lastSend.after :=
    .turn (.turn (.turn (.turn (.turn .nil h1) h2) h3) h4) h5
  exact ⟨by decide +kernel, by decide +kernel, messages_paired ⟨_, hz, .refl⟩ hcreate hx⟩

end Jixia
