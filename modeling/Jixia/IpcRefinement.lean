/-
The endpoint manager refines the endpoint model.

* `abstraction` — the model state a kernel stands for: per slot its flags,
  generation and owner, the pending messages in ring order, the receivers found
  by following the waiting links;
* `IpcStep` — the endpoint manager as a transition system: one call on some hart,
  or anything that leaves the endpoint table alone;
* `call_refines` — a call that succeeds or blocks is the transition of the model
  that `IpcCall.transition` names, and a call that fails is none;
* **`endpointManager_refines_model`** — hence along every run from the zeroed
  table, at the constants of the source.
-/
import Jixia.IpcCalls
import Jixia.IpcModel
import Mathlib.Order.Interval.Finset.Nat
import Mathlib.Data.Fintype.Pi

namespace Jixia

open Proc KProc WaitLists Function Kernel

/-! ### The abstraction -/

/-- The bounds of the model at the constants of the source. -/
abbrev ipcBounds : IpcModel.Bounds :=
  ⟨kMaxEndpoints, kEndpointQueueDepth, kMaxGeneration.toNat⟩

abbrev ModelState := IpcModel.State ipcBounds TaskId TaskRef (Fin 4 → Word)

abbrev ModelTransition := IpcModel.Transition ipcBounds TaskId TaskRef (Fin 4 → Word)

/-- One slot of the table as the model sees it.  A slot issues its generations in
order, so the issued ones are those up to the current one if it is allocated. -/
def modelEndpoint (allocated : Bool) (endpoint : Endpoint) (waiters : List TaskRef) :
    IpcModel.Endpoint TaskId TaskRef (Fin 4 → Word) where
  allocated := allocated
  active := endpoint.active
  retired := endpoint.retired
  generation := endpoint.generation.toNat
  owner := endpoint.owner
  queue := (RingBuffer.contents endpoint.queue endpoint.head endpoint.count).map fun message =>
    (message.sender, message.words)
  waiters := waiters
  issuedGenerations := Finset.Icc 1
    (if allocated then endpoint.generation.toNat else endpoint.generation.toNat - 1)

/-- The receivers of an endpoint, found by following the links. -/
def Kernel.waiters (k : Kernel) (e : EndpointRef) : List TaskRef :=
  LinkedList.walk k.waitNext kMaxTasks (k.endpoints e).waitingHead

/-- The state of the model that a kernel stands for. -/
def abstraction (k : Kernel) : ModelState := fun e =>
  modelEndpoint (k.slotAllocated e) (k.endpoints e) (k.waiters e)

variable {h : HartIndex} {k k' : Kernel} {w w' : EndpointRef → List TaskRef}
  {dying : EndpointRef → Prop} {e : EndpointRef}

/-- In a well-formed table the links lead through the whole list. -/
theorem waiters_eq (hl : WaitLists k w) (e : EndpointRef) : k.waiters e = w e := by
  refine (hl.holds e).walk_eq ?_
  exact (hl.holds e).nodup.length_le_card

theorem abstraction_apply (hl : WaitLists k w) (e : EndpointRef) :
    abstraction k e = modelEndpoint (k.slotAllocated e) (k.endpoints e) (w e) := by
  rw [abstraction, waiters_eq hl]

theorem abstraction_eq (hl : WaitLists k w) :
    abstraction k = fun e => modelEndpoint (k.slotAllocated e) (k.endpoints e) (w e) :=
  funext (abstraction_apply hl)

/-- Only one slot of the table differs. -/
theorem abstraction_update (hl : WaitLists k w) (hl' : WaitLists k' w')
    {endpoint : IpcModel.Endpoint TaskId TaskRef (Fin 4 → Word)}
    (hself : modelEndpoint (k'.slotAllocated e) (k'.endpoints e) (w' e) = endpoint)
    (hother : ∀ e', e' ≠ e → modelEndpoint (k'.slotAllocated e') (k'.endpoints e') (w' e') =
      modelEndpoint (k.slotAllocated e') (k.endpoints e') (w e')) :
    abstraction k' = update (abstraction k) e endpoint := by
  rw [abstraction_eq hl, abstraction_eq hl']
  funext e'
  by_cases he : e' = e
  · subst he
    rw [update_self, hself]
  · rw [update_of_ne he, hother e' he]

theorem abstraction_same (hl : WaitLists k w) (hs : SameIpc k k') :
    abstraction k' = abstraction k := by
  have hl' : WaitLists k' w :=
    hl.congr (fun e => by rw [hs.endpoints]; exact ⟨rfl, rfl, rfl⟩) hs.node
  rw [abstraction_eq hl, abstraction_eq hl', hs.endpoints, hs.slotAllocated]

/-! ### The calls -/

/-- The calls of the endpoint manager. -/
inductive IpcCall
  | create (owner : TaskId)
  | destroy (caller : TaskId) (handle : Word)
  | send (sender : TaskId) (handle : Word) (words : Fin 4 → Word)
  | tryRecv (handle : Word)
  | recv (caller : TaskRef) (handle : Word) (clock : Clock)

/-- What a call returns: a new handle, a return code, a message, or the outcome of
a blocking receive. -/
inductive IpcAnswer
  | handle (value : Word)
  | code (value : ℤ)
  | message (value : Message)
  | status (value : RecvStatus)
  deriving DecidableEq

/-- The program of a call on the hart `h`. -/
def IpcCall.program (h : HartIndex) : IpcCall → KProc IpcAnswer
  | .create owner => do
    let result ← createEndpoint owner
    return result.elim .code .handle
  | .destroy caller handle => do
    let result ← destroyEndpoint caller handle
    return .code result
  | .send sender handle words => do
    let result ← Jixia.send sender handle words
    return .code result
  | .tryRecv handle => do
    let result ← Jixia.tryRecv handle
    return result.elim .code .message
  | .recv caller handle clock => do
    let result ← Jixia.recv h caller handle clock
    return .status result

/-- The slot a handle names. -/
abbrev slotOf (handle : Word) : EndpointRef := (EndpointHandle.fromRaw handle).slot

/-- The transition of the model that a call with a given answer stands for; none
for a call that failed. -/
def IpcCall.transition (k : Kernel) : IpcCall → IpcAnswer → Option ModelTransition
  | .create owner, .handle value => some (.create (slotOf value) owner)
  | .destroy _ handle, .code value => if value = 0 then some (.destroy (slotOf handle)) else none
  | .send sender handle words, .code value =>
    if value = 0 then
      match k.waiters (slotOf handle) with
      | [] => some (.send (slotOf handle) sender words)
      | receiver :: _ => some (.sendWake (slotOf handle) sender words receiver)
    else none
  | .tryRecv handle, .message message => some (.recv (slotOf handle) message.sender message.words)
  | .recv _ handle _, .status .delivered =>
    some (.recv (slotOf handle) (k.endpoints (slotOf handle)).front.sender
      (k.endpoints (slotOf handle)).front.words)
  | .recv caller handle _, .status .blocked => some (.recvBlock (slotOf handle) caller)
  | _, _ => none

/-- A step of the endpoint manager or of the rest of the executive. -/
inductive IpcStep : Kernel → Kernel → Prop
  | call {k k' : Kernel} (h : HartIndex) (c : IpcCall) {answer : IpcAnswer} :
      (c.program h).run (exec h) k = .ok answer k' → IpcStep k k'
  | other {k k' : Kernel} : SameIpc k k' → IpcStep k k'

/-- The zeroed table, with nobody waiting. -/
structure ZeroTable (k : Kernel) : Prop where
  endpoints : k.endpoints = fun _ => {}
  slotAllocated : k.slotAllocated = fun _ => false
  node : ∀ t, (k.tasks t).messageWait.queued = false

theorem ZeroTable.inv (hz : ZeroTable k) : IpcInv k (fun _ => []) fun _ => False := by
  refine ⟨⟨⟨fun e => ?_, fun t => ?_, fun ht => nomatch ht⟩, fun e => ?_⟩, fun e => ?_,
    fun _ _ _ => rfl⟩
  · rw [hz.endpoints]
    exact .nil
  · simp [hz.node t]
  · rw [hz.endpoints]
    rfl
  · rw [hz.endpoints, hz.slotAllocated]
    exact ⟨rfl, by simp, Nat.zero_le _, .inl rfl, show (0 : BitVec 32) ≤ kMaxGeneration by decide,
      by simp, fun _ => ⟨rfl, rfl⟩, by simp⟩

/-! ### One slot -/

variable {endpoint : Endpoint} {waiters : List TaskRef} {allocated : Bool}

theorem nextGeneration_model :
    IpcModel.nextGeneration (modelEndpoint allocated endpoint waiters) =
      (bornGeneration endpoint).toNat := by
  change (if endpoint.generation.toNat = 0 then 1 else endpoint.generation.toNat) = _
  rw [bornGeneration]
  by_cases hg : endpoint.generation = 0
  · simp [hg]
  · have hne : endpoint.generation.toNat ≠ 0 := fun h0 => hg (BitVec.eq_of_toNat_eq h0)
    rw [if_neg hne, if_neg (by simpa using hg)]

/-- A slot that is allocated becomes an endpoint of the model. -/
theorem modelEndpoint_born (hret : endpoint.retired = false) (owner : TaskId) :
    modelEndpoint true (bornEndpoint endpoint owner) [] =
      (modelEndpoint false endpoint waiters).create owner := by
  apply IpcModel.Endpoint.ext
  · rfl
  · rfl
  · exact hret.symm
  · exact nextGeneration_model.symm
  · rfl
  · rfl
  · rfl
  · rw [IpcModel.Endpoint.create, nextGeneration_model]
    -- The generations up to the last issued one, and the new one.
    simp only [modelEndpoint, bornEndpoint, if_true, Bool.false_eq_true, if_false]
    have hb : (bornGeneration endpoint).toNat =
        if endpoint.generation.toNat = 0 then 1 else endpoint.generation.toNat :=
      (@nextGeneration_model endpoint [] false).symm
    ext g
    rw [Finset.mem_insert, Finset.mem_Icc, Finset.mem_Icc, hb]
    split <;> omega

/-- The generation of a free slot has not been issued. -/
theorem nextGeneration_fresh : IpcModel.nextGeneration (modelEndpoint false endpoint waiters) ∉
    (modelEndpoint false endpoint waiters).issuedGenerations := by
  simp only [IpcModel.nextGeneration, modelEndpoint, Bool.false_eq_true, if_false,
    Finset.mem_Icc]
  split <;> omega

/-- A destroyed slot. -/
theorem modelEndpoint_dead (hs : SlotOk true endpoint waiters) :
    modelEndpoint (if kMaxGeneration ≤ endpoint.generation then true else false)
        (deadEndpoint endpoint) [] =
      (modelEndpoint true endpoint waiters).destroy kMaxGeneration.toNat 0 := by
  have hle : endpoint.generation.toNat ≤ kMaxGeneration.toNat := hs.generation_le
  by_cases hmax : kMaxGeneration ≤ endpoint.generation
  · have hmax' : kMaxGeneration.toNat ≤ endpoint.generation.toNat := hmax
    have heq : endpoint.generation.toNat = kMaxGeneration.toNat := le_antisymm hle hmax'
    simp only [modelEndpoint, deadEndpoint, IpcModel.Endpoint.destroy, if_pos hmax, if_pos heq,
      RingBuffer.contents_zero, List.map_nil, if_true]
  · have hne : ¬ endpoint.generation.toNat = kMaxGeneration.toNat := fun heq =>
      hmax (show kMaxGeneration.toNat ≤ endpoint.generation.toNat from heq.symm.le)
    have hm : kMaxGeneration.toNat = 0x7FFFFFFF := rfl
    have hadd : (endpoint.generation + 1).toNat = endpoint.generation.toNat + 1 := by
      rw [BitVec.toNat_add, Nat.mod_eq_of_lt]
      · rfl
      · show endpoint.generation.toNat + 1 < 2 ^ 32
        omega
    simp only [modelEndpoint, deadEndpoint, IpcModel.Endpoint.destroy, if_neg hmax, if_neg hne,
      RingBuffer.contents_zero, List.map_nil, Bool.false_eq_true, if_false, if_true, hadd,
      Nat.add_sub_cancel]

theorem modelEndpoint_enqueue (hc : endpoint.count < kEndpointQueueDepth) (message : Message) :
    modelEndpoint allocated (endpoint.enqueue message) waiters =
      { modelEndpoint allocated endpoint waiters with
        queue := (modelEndpoint allocated endpoint waiters).queue ++
          [(message.sender, message.words)] } := by
  simp only [modelEndpoint, Endpoint.enqueue, RingBuffer.contents_push _ _ hc, List.map_append,
    List.map_singleton]

/-- The oldest message is the front of the queue of the model. -/
theorem modelEndpoint_dequeue (hc : 0 < endpoint.count)
    (hle : endpoint.count ≤ kEndpointQueueDepth) :
    (modelEndpoint allocated endpoint waiters).queue =
      (endpoint.front.sender, endpoint.front.words) ::
        (modelEndpoint allocated endpoint.dequeue waiters).queue := by
  obtain ⟨n, hn⟩ : ∃ n, endpoint.count = n + 1 := ⟨endpoint.count - 1, by omega⟩
  simp only [modelEndpoint, Endpoint.dequeue, hn, Nat.add_sub_cancel]
  rw [RingBuffer.contents_pop _ _ (show n < kEndpointQueueDepth by omega) ({} : Message),
    List.map_cons]
  rfl

/-! ### One call -/

/-- The table is well formed and no endpoint is being destroyed. -/
abbrev IpcOk (k : Kernel) (w : EndpointRef → List TaskRef) : Prop := IpcInv k w fun _ => False

/-- A call either failed and changed nothing, or it is a transition of the
model. -/
def Refines (k k' : Kernel) : Option ModelTransition → Prop
  | none => abstraction k' = abstraction k
  | some tr => IpcModel.step 0 (abstraction k) tr = some (abstraction k')

theorem freeSlot_abstraction (k : Kernel) :
    IpcModel.freeSlot (abstraction k) = k.findFreeEndpoint := by
  simp only [IpcModel.freeSlot, findFreeEndpoint, Bool.not_or]
  rfl

theorem create_refines {owner : TaskId} {result : ℤ ⊕ Word} (hi : IpcOk k w)
    (hr : (createEndpoint owner).run (exec h) k = .ok result k') :
    IpcOk k' w ∧
      Refines k k' ((IpcCall.create owner).transition k (result.elim .code .handle)) := by
  rcases createEndpoint_run hr with ⟨_, rfl, hf⟩ | ⟨e, k0, hfree, hf0, rfl, hf⟩
  · exact ⟨hi.same hf.sameIpc, abstraction_same hi.lists hf.sameIpc⟩
  · obtain ⟨hal, hret, _⟩ := findFreeEndpoint_some hfree
    have hs0 := hf0.sameIpc
    have hi0 := hi.same hs0
    have hw := hi.free_empty not_false hal
    have hi1 := hi0.create hw owner
    refine ⟨hi1.same hf.sameIpc, ?_⟩
    have hslot : slotOf (k0.createEndpointLocked e owner).1 = e := by
      rw [createEndpointLocked_handle, slotOf, EndpointHandle.fromRaw_raw,
        EndpointHandle.slot_mk]
    have hself : abstraction k e = modelEndpoint false (k.endpoints e) (w e) := by
      rw [abstraction_apply hi.lists, hal]
    simp only [Sum.elim_inr, IpcCall.transition, Refines, hslot, IpcModel.step]
    rw [if_pos ⟨by rw [freeSlot_abstraction, hfree], by
      rw [hself]; exact nextGeneration_fresh⟩]
    rw [abstraction_same hi1.lists hf.sameIpc, createEndpointLocked_state]
    refine congrArg some (abstraction_update hi.lists hi1.lists ?_ fun e' he => ?_).symm
    · rw [hself, createEndpointLocked_state, hw]
      simp only [update_self]
      rw [hs0.endpoints]
      exact modelEndpoint_born hret owner
    · rw [createEndpointLocked_state]
      simp only [update_of_ne he]
      rw [hs0.endpoints, hs0.slotAllocated]

theorem destroy_refines {caller : TaskId} {handle : Word} {code : ℤ} (hi : IpcOk k w)
    (hr : (destroyEndpoint caller handle).run (exec h) k = .ok code k') :
    (∃ w', IpcOk k' w') ∧
      Refines k k' ((IpcCall.destroy caller handle).transition k (.code code)) := by
  rcases destroyEndpoint_run hi hr with ⟨_, rfl, rfl⟩ | ⟨_, k0, step, k1, hf0, hcase, hend⟩
  · exact ⟨⟨w, hi⟩, rfl⟩
  · have hs0 := hf0.sameIpc
    have hi0 := hi.same hs0
    cases hcase with
    | stale _ =>
      cases hend with
      | done hf =>
        have hs := (hf0.trans hf).sameIpc
        exact ⟨⟨w, hi.same hs⟩, abstraction_same hi.lists hs⟩
    | denied _ _ =>
      cases hend with
      | done hf =>
        have hs := (hf0.trans hf).sameIpc
        exact ⟨⟨w, hi.same hs⟩, abstraction_same hi.lists hs⟩
    | dead hlive _ =>
      cases hend with
      | @woken _ k2 _ hwakes hf =>
        have hi1 := hi0.killed hlive.1
        obtain ⟨hi2, hs2⟩ := hwakes.inv hi1 rfl
        -- The list of the destroyed slot is empty, so it is not being destroyed any more.
        have hi3 : IpcOk k2 (update w (slotOf handle) []) := by
          refine ⟨hi2.lists, hi2.slots, fun e _ ha => ?_⟩
          by_cases he : e = slotOf handle
          · subst he
            rw [update_self]
          · exact hi2.quiet e (by simp [he]) ha
        refine ⟨⟨_, hi3.same hf.sameIpc⟩, ?_⟩
        have hlive' := hlive
        rw [Kernel.IsLive, hs0.endpoints] at hlive'
        have hal : k.slotAllocated (slotOf handle) = true := by
          rw [(hi.slots _).allocated_eq, hlive'.1]
          rfl
        have hself : abstraction k (slotOf handle) =
            modelEndpoint true (k.endpoints (slotOf handle)) (w (slotOf handle)) := by
          rw [abstraction_apply hi.lists, hal]
        simp only [IpcCall.transition, if_true, Refines, IpcModel.step]
        rw [if_pos (show (abstraction k (slotOf handle)).active = true from hlive'.1),
          abstraction_same hi3.lists hf.sameIpc]
        refine congrArg some (abstraction_update hi.lists hi3.lists ?_ fun e' he => ?_).symm
        · have hslot := hi.slots (slotOf handle)
          rw [hal] at hslot
          rw [hself, ← modelEndpoint_dead hslot, hs2.slotAllocated, hs2.endpoint,
            update_self]
          simp only [killed, update_self, hs0.endpoints, hs0.slotAllocated]
          by_cases hmax : kMaxGeneration ≤ (k.endpoints (slotOf handle)).generation
          · rw [if_pos hmax, if_pos hmax, hal]
            rfl
          · rw [if_neg hmax, if_neg hmax, update_self]
            rfl
        · rw [hs2.slotAllocated, hs2.endpoint, update_of_ne he]
          simp only [killed, update_of_ne he, hs0.endpoints, hs0.slotAllocated]
          split
          · rfl
          · rw [update_of_ne he]
            rfl

/-- A call that changes the record of one live slot only. -/
theorem refines_modify {k0 k1 : Kernel} {f : Endpoint → Endpoint}
    {endpoint : IpcModel.Endpoint TaskId TaskRef (Fin 4 → Word)} (hi : IpcOk k w)
    (hs0 : SameIpc k k0) (hi1 : IpcOk (k0.modifyEndpoint e f) w)
    (hs : SameIpc (k0.modifyEndpoint e f) k1)
    (hself : modelEndpoint (k.slotAllocated e) (f (k.endpoints e)) (w e) = endpoint) :
    abstraction k1 = update (abstraction k) e endpoint := by
  rw [abstraction_same hi1.lists hs]
  refine abstraction_update hi.lists hi1.lists ?_ fun e' he => ?_
  · rw [modifyEndpoint_endpoints, update_self, hs0.endpoints]
    exact (congrArg (fun a => modelEndpoint (a e) _ _) hs0.slotAllocated).trans hself
  · rw [modifyEndpoint_endpoints, update_of_ne he, hs0.endpoints]
    exact congrArg (fun a => modelEndpoint (a e') _ _) hs0.slotAllocated

theorem recv_step (hi : IpcOk k w) {k0 k1 : Kernel} (hs0 : SameIpc k k0)
    (hactive : (k.endpoints e).active = true) (hcount : 0 < (k.endpoints e).count)
    (hs : SameIpc (k0.modifyEndpoint e Endpoint.dequeue) k1) :
    IpcModel.step 0 (abstraction k)
      (.recv e (k.endpoints e).front.sender (k.endpoints e).front.words) =
        some (abstraction k1) := by
  have hi1 := (hi.same hs0).dequeue (e := e) (by rw [hs0.endpoints]; exact hactive)
    (by rw [hs0.endpoints]; exact hcount)
  have hq := @modelEndpoint_dequeue _ (w e) (k.slotAllocated e) hcount
    (hi.slots e).count_le
  simp only [IpcModel.step]
  rw [abstraction_apply hi.lists e, hq]
  simp only
  rw [if_pos ⟨hactive, trivial⟩]
  exact congrArg some (refines_modify hi hs0 hi1 hs rfl).symm

theorem tryRecv_refines {handle : Word} {result : ℤ ⊕ Message} (hi : IpcOk k w)
    (hr : (tryRecv handle).run (exec h) k = .ok result k') :
    IpcOk k' w ∧
      Refines k k' ((IpcCall.tryRecv handle).transition k (result.elim .code .message)) := by
  rcases tryRecv_run hr with ⟨_, rfl, rfl⟩ | ⟨_, k0, k1, hf0, hcase, hf⟩
  · exact ⟨hi, rfl⟩
  · have hs0 := hf0.sameIpc
    refine ⟨(hcase.inv (hi.same hs0)).same hf.sameIpc, ?_⟩
    cases hcase with
    | stale _ => exact abstraction_same hi.lists (hf0.trans hf).sameIpc
    | empty _ _ => exact abstraction_same hi.lists (hf0.trans hf).sameIpc
    | message hlive hcount =>
      rw [Kernel.IsLive, hs0.endpoints] at hlive
      rw [hs0.endpoints] at hcount
      have hstep := recv_step hi hs0 hlive.1 hcount hf.sameIpc
      simp only [Sum.elim_inr, IpcCall.transition, Refines, hs0.endpoints]
      exact hstep

theorem recv_refines {caller : TaskRef} {handle : Word} {clock : Clock} {status : RecvStatus}
    (hi : IpcOk k w) (hr : (recv h caller handle clock).run (exec h) k = .ok status k') :
    (∃ w', IpcOk k' w') ∧
      Refines k k' ((IpcCall.recv caller handle clock).transition k (.status status)) := by
  obtain ⟨hq, hcases⟩ := recv_run hi hr
  rcases hcases with ⟨_, rfl, rfl⟩ | ⟨_, k0, k1, hf0, hcase, hf⟩
  · have hs := (SameIpc.refl k).modifyTask caller (f := fun task =>
      { task with context := task.context.setX 10 (BitVec.ofInt 64 kErrorInvalidArgument) })
      fun _ => rfl
    exact ⟨⟨w, hi.same hs⟩, abstraction_same hi.lists hs⟩
  · have hs0 := hf0.sameIpc
    have hi0 := hi.same hs0
    have hq0 : (k0.tasks caller).messageWait.queued = false := by rw [hs0.node, hq]
    have hi1 := hcase.inv hi0 hq0
    refine ⟨⟨_, hi1.same hf.sameIpc⟩, ?_⟩
    cases hcase with
    | stale _ =>
      refine abstraction_same hi.lists ((hs0.modifyTask caller ?_).trans hf.sameIpc)
      exact fun _ => rfl
    | message hlive hcount =>
      rw [Kernel.IsLive, hs0.endpoints] at hlive
      rw [hs0.endpoints] at hcount
      refine recv_step hi hs0 hlive.1 hcount
        (SameIpc.trans (SameIpc.modifyTask (.refl _) caller ?_) hf.sameIpc)
      exact fun _ => rfl
    | block hlive hcount =>
      rw [Kernel.IsLive, hs0.endpoints] at hlive
      rw [hs0.endpoints] at hcount
      have hfree : ∀ i, caller ∉ (abstraction k i).waiters := by
        intro i hmem
        rw [abstraction_apply hi.lists] at hmem
        have := (hi.lists.queued caller).mpr ⟨i, hmem⟩
        rw [hq] at this
        cases this
      have hqueue : (abstraction k (slotOf handle)).queue = [] := by
        rw [abstraction_apply hi.lists, modelEndpoint, hcount]
        rfl
      simp only [IpcCall.transition, Refines, IpcModel.step]
      rw [if_pos ⟨hlive.1, hqueue, hfree⟩, abstraction_same hi1.lists hf.sameIpc]
      refine congrArg some (abstraction_update hi.lists hi1.lists ?_ fun e' he => ?_).symm
      · rw [abstraction_apply hi.lists, RecvStatus.waiters, update_self]
        simp only [blockedOn, pushed, modifyTask, modifyEndpoint,
          withWaitNodes, update_self, hs0.endpoints, hs0.slotAllocated]
        rfl
      · rw [RecvStatus.waiters, update_of_ne he]
        simp only [blockedOn, pushed, modifyTask, modifyEndpoint,
          withWaitNodes, update_of_ne he, hs0.endpoints, hs0.slotAllocated]

theorem send_refines {sender : TaskId} {handle : Word} {words : Fin 4 → Word} {code : ℤ}
    (hi : IpcOk k w) (hr : (send sender handle words).run (exec h) k = .ok code k') :
    (∃ w', IpcOk k' w') ∧
      Refines k k' ((IpcCall.send sender handle words).transition k (.code code)) := by
  rcases send_run hi hr with ⟨_, rfl, rfl⟩ | ⟨_, k0, step, k1, hf0, hcase, hf, rfl⟩
  · exact ⟨⟨w, hi⟩, rfl⟩
  · have hs0 := hf0.sameIpc
    have hi1 := hcase.inv (hi.same hs0)
    refine ⟨⟨_, hi1.same hf.sameIpc⟩, ?_⟩
    have hwaiters : k.waiters (slotOf handle) = w (slotOf handle) := waiters_eq hi.lists _
    cases hcase with
    | stale _ => exact abstraction_same hi.lists (hf0.trans hf).sameIpc
    | full _ _ _ => exact abstraction_same hi.lists (hf0.trans hf).sameIpc
    | @wake t rest hlive hw =>
      rw [Kernel.IsLive, hs0.endpoints] at hlive
      simp only [SendStep.code, IpcCall.transition, if_true, hwaiters, hw, Refines,
        IpcModel.step]
      rw [abstraction_apply hi.lists (slotOf handle), modelEndpoint, hw]
      simp only
      rw [if_pos ⟨hlive.1, trivial⟩, abstraction_same hi1.lists hf.sameIpc]
      refine congrArg some (abstraction_update hi.lists hi1.lists ?_ fun e' he => ?_).symm
      · rw [SendStep.waiters, update_self, hw, List.tail_cons]
        simp only [handedOver, popped, writeRecvRegisters, modifyTask,
          modifyEndpoint, withWaitNodes, update_self, hs0.endpoints,
          hs0.slotAllocated]
        rfl
      · rw [SendStep.waiters, update_of_ne he]
        simp only [handedOver, popped, writeRecvRegisters, modifyTask,
          modifyEndpoint, withWaitNodes, update_of_ne he, hs0.endpoints,
          hs0.slotAllocated]
    | queued hlive hw hcount =>
      rw [Kernel.IsLive, hs0.endpoints] at hlive
      rw [hs0.endpoints] at hcount
      simp only [SendStep.code, IpcCall.transition, if_true, hwaiters, hw, Refines,
        IpcModel.step]
      have hguard : (abstraction k (slotOf handle)).active = true ∧
          (abstraction k (slotOf handle)).waiters = [] ∧
          (abstraction k (slotOf handle)).queue.length < kEndpointQueueDepth := by
        rw [abstraction_apply hi.lists, modelEndpoint, hw]
        simp only [List.length_map, RingBuffer.contents_length]
        exact ⟨hlive.1, trivial, hcount⟩
      rw [if_pos hguard]
      refine congrArg some (refines_modify hi hs0 hi1 hf.sameIpc ?_).symm
      rw [abstraction_apply hi.lists]
      exact modelEndpoint_enqueue hcount ⟨sender, words⟩

/-- **One call is one transition of the model, or fails without effect.** -/
theorem call_refines (hi : IpcOk k w) {c : IpcCall} {answer : IpcAnswer}
    (hr : (c.program h).run (exec h) k = .ok answer k') :
    (∃ w', IpcOk k' w') ∧ Refines k k' (c.transition k answer) := by
  cases c with
  | create owner =>
    obtain ⟨result, k1, hr, hret⟩ := run_bind_inv hr
    cases hret
    exact ⟨⟨w, (create_refines hi hr).1⟩, (create_refines hi hr).2⟩
  | destroy caller handle =>
    obtain ⟨result, k1, hr, hret⟩ := run_bind_inv hr
    cases hret
    exact destroy_refines hi hr
  | send sender handle words =>
    obtain ⟨result, k1, hr, hret⟩ := run_bind_inv hr
    cases hret
    exact send_refines hi hr
  | tryRecv handle =>
    obtain ⟨result, k1, hr, hret⟩ := run_bind_inv hr
    cases hret
    exact ⟨⟨w, (tryRecv_refines hi hr).1⟩, (tryRecv_refines hi hr).2⟩
  | recv caller handle clock =>
    obtain ⟨result, k1, hr, hret⟩ := run_bind_inv hr
    cases hret
    exact recv_refines hi hr

/-! ### Every run -/

/-- The transitions of the model, at the constants of the source. -/
def ModelStep (s s' : ModelState) : Prop := ∃ tr, IpcModel.step 0 s tr = some s'

/-- A step of the implementation is a step of the model or none. -/
theorem IpcStep.simulates (hi : IpcOk k w) (hs : IpcStep k k') :
    (∃ w', IpcOk k' w') ∧
      (abstraction k' = abstraction k ∨ ModelStep (abstraction k) (abstraction k')) := by
  cases hs with
  | other hs => exact ⟨⟨w, hi.same hs⟩, .inl (abstraction_same hi.lists hs)⟩
  | @call h c answer hr =>
    obtain ⟨hi', href⟩ := call_refines hi hr
    refine ⟨hi', ?_⟩
    cases htr : c.transition k answer with
    | none =>
      rw [htr] at href
      exact .inl href
    | some tr =>
      rw [htr] at href
      exact .inr ⟨tr, href⟩

/-- The states the endpoint manager can reach from the zeroed table. -/
def IpcReachable (k : Kernel) : Prop := ∃ k0, ZeroTable k0 ∧ Relation.ReflTransGen IpcStep k0 k

theorem IpcReachable.ok (hr : IpcReachable k) : ∃ w, IpcOk k w := by
  obtain ⟨k0, hz, hrun⟩ := hr
  induction hrun with
  | refl => exact ⟨_, hz.inv⟩
  | tail _ hstep ih =>
    obtain ⟨w, hi⟩ := ih
    exact (hstep.simulates hi).1

theorem ZeroTable.abstraction_eq (hz : ZeroTable k) : abstraction k = fun _ => { owner := 0 } := by
  rw [Jixia.abstraction_eq hz.inv.lists, hz.endpoints, hz.slotAllocated]
  rfl

/-- Every reachable state stands for a reachable state of the model. -/
theorem IpcReachable.model (hr : IpcReachable k) :
    Relation.ReflTransGen ModelStep (fun _ => { owner := 0 }) (abstraction k) := by
  obtain ⟨k0, hz, hrun⟩ := hr
  induction hrun with
  | refl => rw [hz.abstraction_eq]
  | @tail k1 k2 hrun hstep ih =>
    obtain ⟨w, hi⟩ := IpcReachable.ok ⟨k0, hz, hrun⟩
    rcases (hstep.simulates hi).2 with heq | hmodel
    · rwa [heq]
    · exact ih.tail hmodel

/-- **The endpoint manager refines the model.**  In every state it can reach from
the zeroed table its abstraction is a reachable state of the model and passes the
model's check, and every call that returns is the transition it stands for: a call
that succeeds or blocks commutes with the abstraction, a call that fails leaves it
alone. -/
theorem endpointManager_refines_model (hr : IpcReachable k) :
    Relation.ReflTransGen ModelStep (fun _ => { owner := 0 }) (abstraction k) ∧
      IpcModel.CheckState 0 (abstraction k) ∧
      ∀ (h : HartIndex) (c : IpcCall) (answer : IpcAnswer) (k' : Kernel),
        (c.program h).run (exec h) k = .ok answer k' → Refines k k' (c.transition k answer) := by
  refine ⟨hr.model, IpcModel.check_of_reachable (by decide) hr.model, ?_⟩
  intro h c answer k' hrun
  obtain ⟨w, hi⟩ := hr.ok
  exact (call_refines hi hrun).2

/-- The first `create_endpoint` is a transition of the model. -/
theorem endpointManager_refines_model_create :
    ∃ k' : Kernel, ((IpcCall.create 7).program 0).run (exec 0) { platform := .sample } =
        .ok (.handle 0x100000000) k' ∧
      IpcModel.step 0 (abstraction { platform := .sample }) (.create 0 7) =
        some (abstraction k') := by
  have hz : ZeroTable { platform := .sample } := ⟨rfl, rfl, fun _ => rfl⟩
  refine ⟨_, rfl, ?_⟩
  exact (endpointManager_refines_model ⟨_, hz, .refl⟩).2.2 0 (.create 7) (.handle 0x100000000) _
    rfl

end Jixia
