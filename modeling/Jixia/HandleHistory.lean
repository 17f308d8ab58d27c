/-
Endpoint handles are never reused.

A handle is a table index and a generation.  Every slot issues its generations in
order and destroying an endpoint ends its generation for good, so a handle that
went stale stays stale:

* `IpcTrace` — a run of the endpoint manager with the calls it makes and their
  answers;
* `Outdated` — the generation of a handle has passed, or its slot is retired;
* `stale_returns` — a call on a handle that is not live returns `-EINVAL`;
* **`handles_never_reused`** — handles are pairwise distinct, a destroyed handle
  is refused for ever, a retired slot is never allocated again.
-/
import Jixia.IpcRefinement

namespace Jixia

open Proc KProc Function Kernel EndpointHandle

variable {h : HartIndex} {k0 k k' : Kernel} {w : EndpointRef → List TaskRef}

/-! ### Runs with their calls -/

/-- Runs of the endpoint manager, with the calls made and what they returned. -/
inductive IpcTrace : Kernel → List (IpcCall × IpcAnswer) → Kernel → Prop
  | nil (k : Kernel) : IpcTrace k [] k
  | call {k0 k k' : Kernel} {calls : List (IpcCall × IpcAnswer)} (h : HartIndex) {c : IpcCall}
      {answer : IpcAnswer} : IpcTrace k0 calls k → (c.program h).run (exec h) k = .ok answer k' →
      IpcTrace k0 (calls ++ [(c, answer)]) k'
  | other {k0 k k' : Kernel} {calls : List (IpcCall × IpcAnswer)} : IpcTrace k0 calls k →
      SameIpc k k' → IpcTrace k0 calls k'

theorem IpcTrace.steps {calls : List (IpcCall × IpcAnswer)} (ht : IpcTrace k0 calls k) :
    Relation.ReflTransGen IpcStep k0 k := by
  induction ht with
  | nil => exact .refl
  | call h _ hr ih => exact ih.tail (.call h _ hr)
  | other _ hs ih => exact ih.tail (.other hs)

/-- The handle a successful creation returned. -/
def issuedHandle : IpcCall × IpcAnswer → Option Word
  | (.create _, .handle value) => some value
  | _ => none

theorem issuedHandle_eq_some {c : IpcCall} {answer : IpcAnswer} {v : Word}
    (hv : issuedHandle (c, answer) = some v) :
    ∃ owner, c = .create owner ∧ answer = .handle v := by
  cases c <;> cases answer <;> cases hv
  exact ⟨_, rfl, rfl⟩

/-- The handles issued along a run. -/
def issuedHandles (calls : List (IpcCall × IpcAnswer)) : List Word :=
  calls.filterMap issuedHandle

/-- The handle a call is made on. -/
def IpcCall.handle : IpcCall → Option Word
  | .create _ => none
  | .destroy _ handle | .send _ handle _ | .tryRecv handle | .recv _ handle _ => some handle

/-- The call was refused with `-EINVAL`; `recv` leaves the code in the caller's
`a0`. -/
def IpcCall.Refused (k' : Kernel) : IpcCall → IpcAnswer → Prop
  | .recv caller _ _, answer => answer = .status .rejected ∧
      (k'.tasks caller).context.x 10 = BitVec.ofInt 64 kErrorInvalidArgument
  | _, answer => answer = .code kErrorInvalidArgument

/-! ### Slots move on -/

theorem IpcStep.grows (hi : IpcOk k w) (hs : IpcStep k k') (e : EndpointRef) :
    IpcModel.Grows (abstraction k e) (abstraction k' e) := by
  rcases (hs.simulates hi).2 with heq | ⟨tr, hstep⟩
  · rw [heq]
    exact .refl _
  · exact IpcModel.step_grows hstep e

theorem grows_of_steps (hr : IpcReachable k) (hs : Relation.ReflTransGen IpcStep k k')
    (e : EndpointRef) :
    IpcReachable k' ∧ IpcModel.Grows (abstraction k e) (abstraction k' e) := by
  induction hs with
  | refl => exact ⟨hr, .refl _⟩
  | tail _ hstep ih =>
    obtain ⟨⟨k0, hz, hrun⟩, hg⟩ := ih
    obtain ⟨w, hi⟩ := IpcReachable.ok ⟨k0, hz, hrun⟩
    exact ⟨⟨k0, hz, hrun.tail hstep⟩, hg.trans (hstep.grows hi e)⟩

/-- A new handle is well formed and has the next generation of its slot, which was
never issued before. -/
theorem create_handle (hi : IpcOk k w) {owner : TaskId} {value : Word}
    (hr : ((IpcCall.create owner).program h).run (exec h) k = .ok (.handle value) k') :
    (fromRaw value).wellFormed = true ∧
      (abstraction k (slotOf value)).retired = false ∧
      (fromRaw value).generation.toNat ∉
        (abstraction k (slotOf value)).issuedGenerations ∧
      (fromRaw value).generation.toNat ∈
        (abstraction k' (slotOf value)).issuedGenerations := by
  obtain ⟨_, _, hcreate, hret⟩ := run_bind_inv hr
  have href := (create_refines hi hcreate).2
  rcases createEndpoint_run hcreate with ⟨_, rfl, _⟩ | ⟨e, k1, hfree, hf, rfl, _⟩
  · cases hret
  · cases hret
    obtain ⟨hal, hretired, _⟩ := findFreeEndpoint_some hfree
    rw [createEndpointLocked_handle, hf.sameIpc.endpoints] at href ⊢
    have hslot : slotOf (EndpointHandle.raw ⟨BitVec.ofNat 32 e.val,
        bornGeneration (k.endpoints e)⟩) = e := by
      rw [slotOf, fromRaw_raw, EndpointHandle.slot_mk]
    have hgen : IpcModel.nextGeneration (abstraction k e) =
        (bornGeneration (k.endpoints e)).toNat := nextGeneration_model
    simp only [Sum.elim_inr, IpcCall.transition, Refines, hslot, IpcModel.step] at href
    split at href
    · rename_i hguard
      rw [hslot, fromRaw_raw, ← hgen]
      refine ⟨?_, hretired, hguard.2, ?_⟩
      · simp only [EndpointHandle.wellFormed, Bool.and_eq_true, decide_eq_true_eq, bne_iff_ne]
        refine ⟨⟨?_, bornGeneration_ne_zero _⟩, ?_⟩
        · have he : e.val < 16 := e.isLt
          rw [BitVec.toNat_ofNat, Nat.mod_eq_of_lt (by omega)]
          exact he
        · rw [bornGeneration]
          split
          · decide
          · exact (hi.slots e).generation_le
      · rw [← Option.some_inj.mp href, update_self]
        exact Finset.mem_insert_self ..
    · cases href

/-! ### Handles that are over -/

/-- The generation of the handle has passed, or its slot is retired. -/
def Outdated (k : Kernel) (handle : Word) : Prop :=
  (fromRaw handle).generation.toNat < (abstraction k (slotOf handle)).generation ∨
    (abstraction k (slotOf handle)).retired = true

theorem Outdated.not_live (hi : IpcOk k w) {handle : Word} (ho : Outdated k handle) :
    ¬ k.IsLive (.fromRaw handle) := by
  rintro ⟨hactive, hgen⟩
  rcases ho with hlt | hret
  · have heq : (abstraction k (slotOf handle)).generation =
        (fromRaw handle).generation.toNat := congrArg BitVec.toNat hgen
    omega
  · exact (hi.slots (slotOf handle)).active_or_retired ⟨hactive, hret⟩

theorem Outdated.grows {handle : Word} (ho : Outdated k handle)
    (hg : IpcModel.Grows (abstraction k (slotOf handle)) (abstraction k' (slotOf handle))) :
    Outdated k' handle := by
  rcases ho with hlt | hret
  · exact .inl (lt_of_lt_of_le hlt hg.generation_le)
  · exact .inr (hg.retired hret)

/-- Only a live handle can be destroyed. -/
theorem destroy_live (hi : IpcOk k w) {caller : TaskId} {handle : Word}
    (hr : (destroyEndpoint caller handle).run (exec h) k = .ok 0 k') :
    k.IsLive (.fromRaw handle) := by
  rcases destroyEndpoint_run hi hr with ⟨_, hcode, _⟩ | ⟨_, k1, step, k2, hf, hcase, hend⟩
  · exact absurd hcode (by decide)
  · rw [Kernel.IsLive, ← hf.sameIpc.endpoints]
    cases hcase with
    | stale _ => cases hend
    | denied _ _ => cases hend
    | dead hlive _ => exact hlive

/-- A destroyed handle is over. -/
theorem outdated_of_destroy (hi : IpcOk k w) {caller : TaskId} {handle : Word}
    (hr : ((IpcCall.destroy caller handle).program h).run (exec h) k = .ok (.code 0) k') :
    Outdated k' handle := by
  obtain ⟨_, _, hdestroy, hret⟩ := run_bind_inv hr
  cases hret
  have hgen : (abstraction k (slotOf handle)).generation =
      (fromRaw handle).generation.toNat :=
    congrArg BitVec.toNat (destroy_live hi hdestroy).2
  have href := (destroy_refines hi hdestroy).2
  simp only [IpcCall.transition, if_true, Refines, IpcModel.step] at href
  split at href
  · -- The slot is retired at the ceiling, and moves on to the next epoch below it.
    rw [Outdated, ← Option.some_inj.mp href, update_self, IpcModel.Endpoint.destroy]
    split
    · exact .inr rfl
    · refine .inl ?_
      show _ < (abstraction k (slotOf handle)).generation + 1
      omega
  · cases href

/-! ### Calls on a handle that is not live -/

section Stale

variable {handle : Word}

theorem IsLive.same {parsed : EndpointHandle} (hs : SameIpc k k') :
    k'.IsLive parsed ↔ k.IsLive parsed := by
  rw [Kernel.IsLive, Kernel.IsLive, hs.endpoints]

theorem destroyEndpoint_stale (hfree : ∀ lock, k.locks lock = none)
    (hlive : (fromRaw handle).wellFormed = true → ¬ k.IsLive (.fromRaw handle))
    (caller : TaskId) :
    (destroyEndpoint caller handle).run (exec h) k = .ok kErrorInvalidArgument k := by
  by_cases hwf : (fromRaw handle).wellFormed = true
  · exact destroyEndpoint_refused hfree hwf fun k1 hs =>
      destroyEndpointLocked_stale ((IsLive.same hs).not.mpr (hlive hwf)) caller
  · rw [destroyEndpoint, if_neg hwf]
    rfl

theorem send_stale (hfree : ∀ lock, k.locks lock = none)
    (hlive : (fromRaw handle).wellFormed = true → ¬ k.IsLive (.fromRaw handle))
    (sender : TaskId) (words : Fin 4 → Word) :
    (send sender handle words).run (exec h) k = .ok kErrorInvalidArgument k := by
  by_cases hwf : (fromRaw handle).wellFormed = true
  · exact send_refused hfree hwf fun k1 hs =>
      sendLocked_stale ((IsLive.same hs).not.mpr (hlive hwf)) sender words
  · rw [send, if_neg hwf]
    rfl

theorem tryRecv_stale (hfree : ∀ lock, k.locks lock = none)
    (hlive : (fromRaw handle).wellFormed = true → ¬ k.IsLive (.fromRaw handle)) :
    (tryRecv handle).run (exec h) k = .ok (.inl kErrorInvalidArgument) k := by
  by_cases hwf : (fromRaw handle).wellFormed = true
  · exact tryRecv_refused hfree hwf fun k1 hs =>
      tryRecvLocked_stale ((IsLive.same hs).not.mpr (hlive hwf))
  · rw [tryRecv, if_neg hwf]
    rfl

theorem recv_stale (hfree : ∀ lock, k.locks lock = none)
    (hlive : (fromRaw handle).wellFormed = true → ¬ k.IsLive (.fromRaw handle))
    {caller : TaskRef} (hq : (k.tasks caller).messageWait.queued = false) (clock : Clock) :
    (recv h caller handle clock).run (exec h) k =
      .ok .rejected (k.setReg caller 10 (BitVec.ofInt 64 kErrorInvalidArgument)) := by
  have hload : exec h (.loadTask caller) k = .ok (k.tasks caller) k := rfl
  rw [recv, perform_bind, run_act_ok hload, hq]
  simp only [Bool.not_false, parkUnless, if_true, pure_eq, ret_bind]
  split
  · rename_i hwf
    have hsec : exec h (.recvLocked caller handle)
        (k.setLock (.endpoint (fromRaw handle).slot) (some h)) = _ :=
      recvLocked_stale (by exact hlive hwf) caller
    refine (locked_ok (hfree _) (run_perform_ok hsec)).trans (congrArg _ ?_)
    exact congrArg (Kernel.setReg · caller 10 _) (setLock_restore (hfree _) (some h))
  · rfl

/-- **A call on a handle that is not live returns `-EINVAL`** as soon as it gets
its locks; `recv` must be called by a task that waits nowhere. -/
theorem stale_returns (hfree : ∀ lock, k.locks lock = none) {c : IpcCall}
    (hc : c.handle = some handle) (hlive : ¬ k.IsLive (.fromRaw handle))
    (hq : ∀ caller clock, c = .recv caller handle clock →
      (k.tasks caller).messageWait.queued = false) :
    ∃ answer k', (c.program h).run (exec h) k = .ok answer k' ∧ c.Refused k' answer := by
  cases c with
  | create owner => cases hc
  | destroy caller v =>
    cases hc
    exact ⟨_, k, run_bind_ok (destroyEndpoint_stale hfree (fun _ => hlive) caller), rfl⟩
  | send sender v words =>
    cases hc
    exact ⟨_, k, run_bind_ok (send_stale hfree (fun _ => hlive) sender words), rfl⟩
  | tryRecv v =>
    cases hc
    exact ⟨_, k, run_bind_ok (tryRecv_stale hfree (fun _ => hlive)), rfl⟩
  | recv caller v clock =>
    cases hc
    exact ⟨_, _, run_bind_ok (recv_stale hfree (fun _ => hlive) (hq caller clock rfl) clock), rfl,
      setReg_x k caller 10 _⟩

/-- A call on a handle that is not live does nothing but return `-EINVAL`. -/
theorem refused_of_stale (hi : IpcOk k w) {c : IpcCall} {answer : IpcAnswer}
    (hc : c.handle = some handle) (hlive : ¬ k.IsLive (.fromRaw handle))
    (hr : (c.program h).run (exec h) k = .ok answer k') : c.Refused k' answer := by
  have hstale : ∀ {k1}, SchedFrame k k1 → ¬ k1.IsLive (.fromRaw handle) := by
    intro k1 hf
    rwa [Kernel.IsLive, hf.sameIpc.endpoints]
  cases c with
  | create owner => cases hc
  | destroy caller v =>
    cases hc
    obtain ⟨code, _, hd, hret⟩ := run_bind_inv hr
    cases hret
    rcases destroyEndpoint_run hi hd with ⟨_, rfl, _⟩ | ⟨_, k1, step, k2, hf, hcase, hend⟩
    · rfl
    · cases hcase with
      | stale _ =>
        cases hend
        rfl
      | denied hl _ => exact absurd hl (hstale hf)
      | dead hl _ => exact absurd hl (hstale hf)
  | send sender v words =>
    cases hc
    obtain ⟨code, _, hs, hret⟩ := run_bind_inv hr
    cases hret
    rcases send_run hi hs with ⟨_, rfl, _⟩ | ⟨_, k1, step, k2, hf, hcase, _, rfl⟩
    · rfl
    · cases hcase with
      | stale _ => rfl
      | wake hl _ => exact absurd hl (hstale hf)
      | full hl _ _ => exact absurd hl (hstale hf)
      | queued hl _ _ => exact absurd hl (hstale hf)
  | tryRecv v =>
    cases hc
    obtain ⟨result, _, ht, hret⟩ := run_bind_inv hr
    cases hret
    rcases tryRecv_run ht with ⟨_, rfl, _⟩ | ⟨_, k1, k2, hf, hcase, _⟩
    · rfl
    · cases hcase with
      | stale _ => rfl
      | empty hl _ => exact absurd hl (hstale hf)
      | message hl _ => exact absurd hl (hstale hf)
  | recv caller v clock =>
    cases hc
    obtain ⟨status, _, hv, hret⟩ := run_bind_inv hr
    cases hret
    rcases (recv_run hi hv).2 with ⟨_, rfl, rfl⟩ | ⟨_, k1, k2, hf, hcase, hf'⟩
    · exact ⟨rfl, setReg_x ..⟩
    · cases hcase with
      | stale _ =>
        refine ⟨rfl, ?_⟩
        rw [hf'.task]
        exact setReg_x ..
      | message hl _ => exact absurd hl (hstale hf)
      | block hl _ => exact absurd hl (hstale hf)

end Stale

/-! ### The history of a run -/

/-- The handles issued so far are pairwise distinct, well formed, and their
generations are among those the slots have issued. -/
theorem issued_history (hz : ZeroTable k0) {calls : List (IpcCall × IpcAnswer)}
    (ht : IpcTrace k0 calls k) :
    (issuedHandles calls).Nodup ∧ ∀ v ∈ issuedHandles calls,
      (fromRaw v).wellFormed = true ∧
        (fromRaw v).generation.toNat ∈
          (abstraction k (slotOf v)).issuedGenerations := by
  induction ht with
  | nil => exact ⟨List.nodup_nil, fun v hv => nomatch hv⟩
  | other ht hs ih =>
    obtain ⟨w, hi⟩ := IpcReachable.ok ⟨_, hz, ht.steps⟩
    rw [abstraction_same hi.lists hs]
    exact ih
  | @call k k' calls h c answer ht hr ih =>
    obtain ⟨hnodup, hissued⟩ := ih
    obtain ⟨w, hi⟩ := IpcReachable.ok ⟨_, hz, ht.steps⟩
    have hgrows := fun e => (IpcStep.call h c hr).grows hi e
    have hlist : issuedHandles (calls ++ [(c, answer)]) =
        issuedHandles calls ++ (issuedHandle (c, answer)).toList := by
      rw [issuedHandles, List.filterMap_append]
      cases hc : issuedHandle (c, answer) <;> simp [hc, issuedHandles]
    have hold : ∀ v ∈ issuedHandles calls, (fromRaw v).wellFormed = true ∧
        (fromRaw v).generation.toNat ∈
          (abstraction k' (slotOf v)).issuedGenerations := fun v hv =>
      ⟨(hissued v hv).1, (hgrows _).issued_subset (hissued v hv).2⟩
    rw [hlist]
    cases hc : issuedHandle (c, answer) with
    | none =>
      rw [Option.toList_none, List.append_nil]
      exact ⟨hnodup, hold⟩
    | some value =>
      -- Only a creation issues a handle, and its generation is a new one.
      obtain ⟨owner, rfl, rfl⟩ := issuedHandle_eq_some hc
      obtain ⟨hwf, _, hfresh, hmem⟩ := create_handle hi hr
      rw [Option.toList_some]
      refine ⟨List.nodup_append.mpr ⟨hnodup, List.nodup_singleton _, ?_⟩, fun v hv => ?_⟩
      · rintro v hv _ hv' rfl
        rw [List.mem_singleton] at hv'
        subst hv'
        exact hfresh (hissued v hv).2
      · rw [List.mem_append, List.mem_singleton] at hv
        rcases hv with hv | rfl
        · exact hold v hv
        · exact ⟨hwf, hmem⟩

/-- A retired slot stays retired and issues no handle. -/
theorem retired_forever (hr : IpcReachable k0) {calls : List (IpcCall × IpcAnswer)}
    (ht : IpcTrace k0 calls k) {e : EndpointRef} (he : (k0.endpoints e).retired = true) :
    (k.endpoints e).retired = true ∧ ∀ v ∈ issuedHandles calls, slotOf v ≠ e := by
  induction ht with
  | nil => exact ⟨he, fun v hv => nomatch hv⟩
  | other ht hs ih =>
    rw [hs.endpoints]
    exact ih
  | @call k k' calls h c answer ht hrun ih =>
    obtain ⟨hret, hne⟩ := ih
    obtain ⟨k1, hz, hsteps⟩ := hr
    obtain ⟨w, hi⟩ := IpcReachable.ok ⟨k1, hz, hsteps.trans ht.steps⟩
    refine ⟨((IpcStep.call h c hrun).grows hi e).retired hret, fun v hv => ?_⟩
    rw [issuedHandles, List.filterMap_append, List.mem_append] at hv
    rcases hv with hv | hv
    · exact hne v hv
    · rintro rfl
      rw [List.mem_filterMap] at hv
      obtain ⟨_, hmem, hv⟩ := hv
      rw [List.mem_singleton] at hmem
      subst hmem
      obtain ⟨owner, rfl, rfl⟩ := issuedHandle_eq_some hv
      have hfree : (k.endpoints (slotOf v)).retired = false := (create_handle hi hrun).2.1
      rw [hret] at hfree
      cases hfree

/-- **Endpoint handles are never reused and never resurrect.**  Along every run from
the zeroed table the handles issued are pairwise distinct, not zero, with a clear
top bit and an index in the table; once a handle is destroyed, every later call on
it is refused with `-EINVAL`, and does return when no lock is held and the caller
of `recv` waits nowhere; a retired slot is never allocated again. -/
theorem handles_never_reused (hz : ZeroTable k0) {calls : List (IpcCall × IpcAnswer)}
    (ht : IpcTrace k0 calls k) :
    ((issuedHandles calls).Nodup ∧ ∀ v ∈ issuedHandles calls,
      v ≠ 0 ∧ v.msb = false ∧ (fromRaw v).index.toNat < kMaxEndpoints) ∧
    (∀ h caller handle k1,
      ((IpcCall.destroy caller handle).program h).run (exec h) k = .ok (.code 0) k1 →
      ∀ later k2, IpcTrace k1 later k2 → ∀ h' c, IpcCall.handle c = some handle →
        (∀ answer k3, (c.program h').run (exec h') k2 = .ok answer k3 → c.Refused k3 answer) ∧
        ((∀ lock, k2.locks lock = none) →
          (∀ caller clock, c = .recv caller handle clock →
            (k2.tasks caller).messageWait.queued = false) →
          ∃ answer k3, (c.program h').run (exec h') k2 = .ok answer k3 ∧ c.Refused k3 answer)) ∧
    (∀ e, (k.endpoints e).retired = true → ∀ later k1, IpcTrace k later k1 →
      (k1.endpoints e).retired = true ∧ ∀ v ∈ issuedHandles later, slotOf v ≠ e) := by
  have hreach : IpcReachable k := ⟨k0, hz, ht.steps⟩
  refine ⟨⟨(issued_history hz ht).1, fun v hv => ?_⟩, ?_, fun e he later k1 hlater => ?_⟩
  · exact EndpointHandle.word_of_wellFormed ((issued_history hz ht).2 v hv).1
  · intro h caller handle k1 hdestroy later k2 hlater h' c hc
    obtain ⟨w, hi⟩ := hreach.ok
    have hreach1 : IpcReachable k1 := ⟨k0, hz, ht.steps.tail (.call h _ hdestroy)⟩
    obtain ⟨hreach2, hgrows⟩ := grows_of_steps hreach1 hlater.steps (slotOf handle)
    obtain ⟨w2, hi2⟩ := hreach2.ok
    have hlive := ((outdated_of_destroy hi hdestroy).grows hgrows).not_live hi2
    exact ⟨fun answer k3 hr => refused_of_stale hi2 hc hlive hr,
      fun hfree hq => stale_returns hfree hc hlive hq⟩
  · exact retired_forever hreach hlater he

/-- The state after the first endpoint was created. -/
def firstCreated : Kernel :=
  Outcome.state (((IpcCall.create 7).program 0).run (exec 0) { platform := .sample })

/-- The state after the first endpoint was destroyed. -/
def firstDestroyed : Kernel :=
  Outcome.state (((IpcCall.destroy 7 0x100000000).program 0).run (exec 0) firstCreated)

/-- The first handle of the table, destroyed by its owner, is refused from then
on. -/
theorem handles_never_reused_first :
    issuedHandles [(.create 7, .handle 0x100000000)] = [0x100000000] ∧
      ∃ k3 : Kernel, ((IpcCall.tryRecv 0x100000000).program 0).run (exec 0) firstDestroyed =
        .ok (.code kErrorInvalidArgument) k3 := by
  have hz : ZeroTable { platform := .sample } := ⟨rfl, rfl, fun _ => rfl⟩
  have hcreate : ((IpcCall.create 7).program 0).run (exec 0) { platform := .sample } =
      .ok (.handle 0x100000000) firstCreated := Outcome.eq_ok (by decide +kernel)
  have hdestroy : ((IpcCall.destroy 7 0x100000000).program 0).run (exec 0) firstCreated =
      .ok (.code 0) firstDestroyed := Outcome.eq_ok (by decide +kernel)
  have hlocks : ∀ lock, firstDestroyed.locks lock = none := by
    rintro (_ | e | _ | (_ | i) | i)
    · decide +kernel
    · revert e
      decide +kernel
    · decide +kernel
    · decide +kernel
    · revert i
      decide +kernel
    · revert i
      decide +kernel
  have ht : IpcTrace { platform := .sample } [(.create 7, .handle 0x100000000)] firstCreated :=
    .call 0 (.nil _) hcreate
  obtain ⟨answer, k3, hr, rfl⟩ := ((handles_never_reused hz ht).2.1 0 7 _ _ hdestroy [] _
    (.nil _) 0 (.tryRecv 0x100000000) rfl).2 hlocks (fun _ _ hc => nomatch hc)
  exact ⟨rfl, k3, hr⟩

end Jixia
