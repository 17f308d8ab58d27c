/-
Whole calls of the endpoint manager.

A call is a program of lock sections and scheduling actions.  When it returns, its
section took one of its branches and everything after it was scheduling; the
lemmas `send_run`, `recv_run`, ... say so, up to `SchedFrame`.  `Wakes` describes
the loop of a destroying call over the receivers that wait.
-/
import Jixia.EndpointSections
import Jixia.SchedulingFrame

namespace Jixia

open EndpointHandle

open Kernel

open Function

open Proc KProc WaitLists

variable {h : HartIndex} {k k' : Kernel} {w : EndpointRef → List TaskRef}
  {dying : EndpointRef → Prop} {e : EndpointRef}

theorem SchedFrame.sameIpc (hf : SchedFrame k k') : SameIpc k k' := by
  refine ⟨?_, ?_, fun t => ?_⟩
  · rw [hf.rest]
  · rw [hf.rest]
  · rw [hf.task t]

/-- Code under a lock ran between taking and dropping it. -/
theorem locked_run {α : Type} {lock : Lock} {body : KProc α} {a : α}
    (hr : (locked lock body).run (exec h) k = .ok a k') :
    ∃ k1, body.run (exec h) (k.setLock lock (some h)) = .ok a k1 ∧
      k' = k1.setLock lock none := by
  obtain ⟨_, k0, hacq, hr⟩ := run_perform_inv hr
  obtain ⟨b, k1, hbody, hr⟩ := run_bind_inv hr
  obtain ⟨_, k2, hrel, hr⟩ := run_perform_inv hr
  cases hrel
  cases hr
  have hk0 : k0 = k.setLock lock (some h) := by
    simp only [exec, acquire] at hacq
    split at hacq <;> cases hacq
    rfl
  exact ⟨k1, hk0 ▸ hbody, rfl⟩

/-- Code under a free lock runs. -/
theorem locked_ok {α : Type} {lock : Lock} {body : KProc α} {a : α} {k1 : Kernel}
    (hl : k.locks lock = none)
    (hb : body.run (exec h) (k.setLock lock (some h)) = .ok a k1) :
    (locked lock body).run (exec h) k = .ok a (k1.setLock lock none) := by
  have hacq : exec h (.acquire lock) k = .ok () (k.setLock lock (some h)) := by
    simp only [exec, acquire, hl]
  rw [locked, perform_bind, run_act_ok hacq, run_bind_ok hb]
  rfl

theorem parkUnless_run {condition : Bool} {site : ParkSite} {u : Unit}
    (hr : (parkUnless condition site).run (exec h) k = .ok u k') : condition = true ∧ k' = k := by
  rw [parkUnless] at hr
  split at hr
  · rename_i hc
    cases hr
    exact ⟨hc, rfl⟩
  · cases hr

/-! ### send -/

/-- The return code a section of `send` leads to. -/
def SendStep.code : SendStep → ℤ
  | .done code => code
  | .wake _ => 0

/-- A returning `send`. -/
theorem send_run {sender : TaskId} {handle : Word} {words : Fin 4 → Word} {code : ℤ}
    (hi : IpcInv k w dying) (hr : (send sender handle words).run (exec h) k = .ok code k') :
    ((fromRaw handle).wellFormed = false ∧ code = kErrorInvalidArgument ∧
      k' = k) ∨
    ((fromRaw handle).wellFormed = true ∧ ∃ k0 step k1, SchedFrame k k0 ∧
      SendCase k0 w (.fromRaw handle) ⟨sender, words⟩ step k1 ∧ SchedFrame k1 k' ∧
      code = step.code) := by
  rw [send] at hr
  split at hr
  · rename_i hwf
    obtain ⟨k2, hbody, rfl⟩ := locked_run hr
    have hf0 := (SchedFrame.refl k).setLock (.endpoint (fromRaw handle).slot)
      (some h)
    obtain ⟨step, k1, hsec, hcase⟩ :=
      sendLocked_cases (hi.same hf0.sameIpc) sender (.fromRaw handle) words
    obtain ⟨step', k1', hx, hr⟩ := run_perform_inv hbody
    simp only [exec] at hx
    rw [hsec] at hx
    cases hx
    refine .inr ⟨hwf, _, step, k1, hf0, hcase, ?_⟩
    cases step with
    | done c =>
      cases hr
      exact ⟨(SchedFrame.refl _).setLock .., rfl⟩
    | wake t =>
      refine ⟨.setLock (schedFrame_of_run ?_ hr) .., ?_⟩
      · exact ⟨rfl, fun _ => ((addTask_all t).imp scheduling_of_adding).bind fun _ =>
          (parkUnless_all rfl).bind fun _ => trivial⟩
      · obtain ⟨_, _, _, hr⟩ := run_perform_inv hr
        obtain ⟨_, _, _, hr⟩ := run_bind_inv hr
        obtain ⟨_, _, _, hr⟩ := run_bind_inv hr
        cases hr
        rfl
  · rename_i hwf
    cases hr
    exact .inl ⟨by simpa using hwf, rfl, rfl⟩

/-! ### try_recv and recv -/

/-- A returning `try_recv`. -/
theorem tryRecv_run {handle : Word} {result : ℤ ⊕ Message}
    (hr : (tryRecv handle).run (exec h) k = .ok result k') :
    ((fromRaw handle).wellFormed = false ∧ result = .inl kErrorInvalidArgument ∧
      k' = k) ∨
    ((fromRaw handle).wellFormed = true ∧ ∃ k0 k1, SchedFrame k k0 ∧
      TryRecvCase k0 (.fromRaw handle) result k1 ∧ SchedFrame k1 k') := by
  rw [tryRecv] at hr
  split at hr
  · rename_i hwf
    obtain ⟨k1, hbody, rfl⟩ := locked_run hr
    have hcase := tryRecvLocked_cases
      (k.setLock (.endpoint (fromRaw handle).slot) (some h)) (.fromRaw handle)
    cases hbody
    exact .inr ⟨hwf, _, _, (SchedFrame.refl k).setLock .., hcase,
      (SchedFrame.refl _).setLock ..⟩
  · rename_i hwf
    cases hr
    exact .inl ⟨by simpa using hwf, rfl, rfl⟩

/-- A returning `recv`. -/
theorem recv_run {caller : TaskRef} {handle : Word} {clock : Clock} {status : RecvStatus}
    (hi : IpcInv k w dying) (hr : (recv h caller handle clock).run (exec h) k = .ok status k') :
    (k.tasks caller).messageWait.queued = false ∧
    (((fromRaw handle).wellFormed = false ∧ status = .rejected ∧
      k' = k.setReg caller 10 (BitVec.ofInt 64 kErrorInvalidArgument)) ∨
    ((fromRaw handle).wellFormed = true ∧ ∃ k0 k1, SchedFrame k k0 ∧
      RecvCase k0 w caller handle status k1 ∧ SchedFrame k1 k')) := by
  rw [recv] at hr
  obtain ⟨task, k1, hload, hr1⟩ := run_perform_inv hr
  cases hload
  obtain ⟨_, k2, hpark, hr2⟩ := run_bind_inv hr1
  obtain ⟨hq, hk2⟩ := parkUnless_run hpark
  rw [Bool.not_eq_true'] at hq
  rw [hk2] at hr2
  clear hr hr1 hpark hk2
  refine ⟨hq, ?_⟩
  simp only at hr2
  split at hr2
  · rename_i hwf
    obtain ⟨k2, hbody, rfl⟩ := locked_run hr2
    have hf0 := (SchedFrame.refl k).setLock (.endpoint (fromRaw handle).slot)
      (some h)
    obtain ⟨status', k1, hsec, hcase⟩ := recvLocked_cases (hi.same hf0.sameIpc)
      (show ((k.setLock _ _).tasks caller).messageWait.queued = false from hq) handle
    obtain ⟨_, _, hx, hr⟩ := run_perform_inv hbody
    simp only [exec] at hx
    rw [hsec] at hx
    cases hx
    refine .inr ⟨hwf, _, k1, hf0, ?_⟩
    cases status' with
    | blocked =>
      have hf := schedFrame_of_run (p := (do
          perform (.scheduler caller)
          let _ ← setNextRunnable h clock
          return RecvStatus.blocked : KProc RecvStatus))
        ⟨rfl, fun _ => ((setNextRunnable_all h clock).imp scheduling_of_dispatch).bind
          fun _ => trivial⟩ hr
      obtain ⟨_, _, _, hr⟩ := run_perform_inv hr
      obtain ⟨_, _, _, hr⟩ := run_bind_inv hr
      cases hr
      exact ⟨hcase, hf.setLock ..⟩
    | delivered =>
      cases hr
      exact ⟨hcase, (SchedFrame.refl _).setLock ..⟩
    | rejected =>
      cases hr
      exact ⟨hcase, (SchedFrame.refl _).setLock ..⟩
  · rename_i hwf
    obtain ⟨_, _, hx, hr3⟩ := run_perform_inv hr2
    cases hx
    cases hr3
    exact .inl ⟨by simpa using hwf, rfl, rfl⟩

/-! ### create_endpoint -/

/-- A returning `create_endpoint`. -/
theorem createEndpoint_run {owner : TaskId} {result : ℤ ⊕ Word}
    (hr : (createEndpoint owner).run (exec h) k = .ok result k') :
    (k.findFreeEndpoint = none ∧ result = .inl kErrorNoSpace ∧ SchedFrame k k') ∨
    (∃ e k0, k.findFreeEndpoint = some e ∧ SchedFrame k k0 ∧
      result = .inr (k0.createEndpointLocked e owner).1 ∧
      SchedFrame (k0.createEndpointLocked e owner).2 k') := by
  obtain ⟨k1, hbody, rfl⟩ := locked_run hr
  obtain ⟨_, _, hx, hr1⟩ := run_perform_inv hbody
  cases hx
  have hfree : (k.setLock .table (some h)).findFreeEndpoint = k.findFreeEndpoint := rfl
  rw [hfree] at hr1
  split at hr1
  · rename_i hnone
    cases hr1
    exact .inl ⟨hnone, rfl, ((SchedFrame.refl k).setLock ..).setLock ..⟩
  · rename_i e hsome
    obtain ⟨k2, hbody1, rfl⟩ := locked_run hr1
    obtain ⟨_, _, hx, hr2⟩ := run_perform_inv hbody1
    cases hx
    cases hr2
    exact .inr ⟨e, _, hsome, ((SchedFrame.refl k).setLock ..).setLock .., rfl,
      ((SchedFrame.refl _).setLock ..).setLock ..⟩

/-! ### destroy_endpoint -/

/-- The receivers of a list are woken one after the other, each in a pop section
followed by scheduling. -/
inductive Wakes (e : EndpointRef) : List TaskRef → Kernel → Kernel → Prop
  | done {k k' : Kernel} : SchedFrame k k' → Wakes e [] k k'
  | wake {t : TaskRef} {rest : List TaskRef} {k k1 k' : Kernel} :
      SchedFrame (revoked k e t rest) k1 → Wakes e rest k1 k' → Wakes e (t :: rest) k k'

/-- The wake loop wakes everybody who waits. -/
theorem wakeAll_run {fuel : ℕ} (hi : IpcInv k w dying)
    (hr : (wakeAll e fuel).run (exec h) k = .ok () k') : Wakes e (w e) k k' := by
  induction fuel generalizing k w with
  | zero =>
    obtain ⟨_, _, hx, _⟩ := run_act_inv hr
    cases hx
  | succ fuel ih =>
    rw [wakeAll] at hr
    obtain ⟨receiver, k1, hx, hr⟩ := run_perform_inv hr
    simp only [exec] at hx
    cases hw : w e with
    | nil =>
      rw [destroyPop_nil hi.lists hw] at hx
      cases hx
      cases hr
      exact .done (.refl _)
    | cons t rest =>
      rw [destroyPop_cons hi.lists hw] at hx
      cases hx
      obtain ⟨_, _, hx, hr1⟩ := run_perform_inv hr
      have hf1 := exec_schedFrame rfl hx
      obtain ⟨_, _, hadd, hr2⟩ := run_bind_inv hr1
      have hf2 := schedFrame_of_run ((addTask_all t).imp scheduling_of_adding) hadd
      obtain ⟨_, k4, hpark, hr3⟩ := run_bind_inv hr2
      rw [(parkUnless_run hpark).2] at hr3
      have hf := hf1.trans hf2
      have hrest := ih ((hi.revoked hw).same hf.sameIpc) hr3
      rw [update_self] at hrest
      exact .wake hf hrest

/-- The table is the same up to the waiting lists. -/
structure SameSlots (k k' : Kernel) : Prop where
  slotAllocated : k'.slotAllocated = k.slotAllocated
  endpoint : ∀ e, k'.endpoints e = { k.endpoints e with
    waitingHead := (k'.endpoints e).waitingHead, waitingTail := (k'.endpoints e).waitingTail,
    waitingCount := (k'.endpoints e).waitingCount }

theorem SameIpc.sameSlots (hs : SameIpc k k') : SameSlots k k' :=
  ⟨hs.slotAllocated, fun e => by rw [hs.endpoints]⟩

theorem SameSlots.trans {k'' : Kernel} (hs : SameSlots k k') (hs' : SameSlots k' k'') :
    SameSlots k k'' :=
  ⟨hs'.slotAllocated.trans hs.slotAllocated, fun e => by rw [hs'.endpoint e, hs.endpoint e]⟩

theorem sameSlots_popped (k : Kernel) (e : EndpointRef) (t : TaskRef) (rest : List TaskRef) :
    SameSlots k (popped k e t rest) := by
  refine ⟨rfl, fun e' => ?_⟩
  by_cases he : e' = e
  · subst he
    simp [popped, withWaitNodes]
  · simp [popped, withWaitNodes, he]

/-- Waking the receivers of an endpoint empties its list and touches nothing else
of the table. -/
theorem Wakes.inv {l : List TaskRef} (hw : Wakes e l k k') (hi : IpcInv k w dying)
    (he : w e = l) : IpcInv k' (update w e []) dying ∧ SameSlots k k' := by
  induction hw generalizing w with
  | done hf =>
    refine ⟨?_, hf.sameIpc.sameSlots⟩
    have hupd : update w e [] = w := by rw [← he, update_eq_self]
    rw [hupd]
    exact hi.same hf.sameIpc
  | @wake t rest k k1 k' hf _ ih =>
    have hi1 := (hi.revoked he).same hf.sameIpc
    obtain ⟨hi', hs'⟩ := ih hi1 (update_self ..)
    rw [update_idem] at hi'
    exact ⟨hi', (sameSlots_popped k e t rest).trans
      ((revoked_same k e t rest).sameSlots.trans (hf.sameIpc.sameSlots.trans hs'))⟩

/-- How `destroy_endpoint` goes on after its section. -/
inductive DestroyEnd (e : EndpointRef) (waiters : List TaskRef) : DestroyStep → ℤ → Kernel →
    Kernel → Prop
  | done {code : ℤ} {k k' : Kernel} : SchedFrame k k' → DestroyEnd e waiters (.done code) code k k'
  | woken {k k1 k' : Kernel} : Wakes e waiters k k1 → SchedFrame k1 k' →
      DestroyEnd e waiters .wakeAll 0 k k'

/-- A returning `destroy_endpoint`. -/
theorem destroyEndpoint_run {caller : TaskId} {handle : Word} {code : ℤ}
    (hi : IpcInv k w dying)
    (hr : (destroyEndpoint caller handle).run (exec h) k = .ok code k') :
    ((fromRaw handle).wellFormed = false ∧ code = kErrorInvalidArgument ∧
      k' = k) ∨
    ((fromRaw handle).wellFormed = true ∧ ∃ k0 step k1, SchedFrame k k0 ∧
      DestroyCase k0 caller (.fromRaw handle) step k1 ∧
      DestroyEnd (fromRaw handle).slot
        (w (fromRaw handle).slot) step code k1 k') := by
  rw [destroyEndpoint] at hr
  split at hr
  · rename_i hwf
    obtain ⟨k1, hr1, rfl⟩ := locked_run hr
    obtain ⟨k2, hbody, rfl⟩ := locked_run hr1
    have hf0 := ((SchedFrame.refl k).setLock .table (some h)).setLock
      (.endpoint (fromRaw handle).slot) (some h)
    have hi0 := hi.same hf0.sameIpc
    have hcase := destroyEndpointLocked_cases hi0 caller (.fromRaw handle)
    obtain ⟨step, k3, hx, hr2⟩ := run_perform_inv hbody
    cases hx
    refine .inr ⟨hwf, _, _, _, hf0, hcase, ?_⟩
    have hend : ∀ k : Kernel, SchedFrame k
        ((k.setLock (.endpoint (fromRaw handle).slot) none).setLock .table none) :=
      fun k => ((SchedFrame.refl k).setLock ..).setLock ..
    generalize (destroyEndpointLocked _ caller (fromRaw handle)).1 = step
      at hcase hr2 ⊢
    generalize (destroyEndpointLocked _ caller (fromRaw handle)).2 = k4
      at hcase hr2 ⊢
    cases hcase with
    | stale _ =>
      cases hr2
      exact .done (hend _)
    | denied _ _ =>
      cases hr2
      exact .done (hend _)
    | dead hlive _ =>
      obtain ⟨_, k5, hwake, hr3⟩ := run_bind_inv hr2
      cases hr3
      exact .woken (wakeAll_run (hi0.killed hlive.1) hwake) (hend _)
  · rename_i hwf
    cases hr
    exact .inl ⟨by simpa using hwf, rfl, rfl⟩

/-! ### Refused calls -/

section Refused

variable {handle : Word} {parsed : EndpointHandle}

theorem setLock_restore {lock : Lock} (hl : k.locks lock = none) (holder : Option HartIndex) :
    (k.setLock lock holder).setLock lock none = k := by
  rw [setLock, setLock, update_idem, ← hl, update_eq_self]

/-- A section that leaves the state leaves it, with its lock free again. -/
theorem locked_same {α : Type} {lock : Lock} {body : KProc α} {a : α} (hl : k.locks lock = none)
    (hb : body.run (exec h) (k.setLock lock (some h)) = .ok a (k.setLock lock (some h))) :
    (locked lock body).run (exec h) k = .ok a k := by
  rw [locked_ok hl hb, setLock_restore hl]

theorem destroyEndpointLocked_stale (hlive : ¬ k.IsLive parsed) (caller : TaskId) :
    k.destroyEndpointLocked caller parsed = (.done kErrorInvalidArgument, k) := by
  simp only [destroyEndpointLocked, Bool.or_assoc, stale_iff.mpr hlive, Bool.or_true,
    if_true]

theorem sendLocked_stale (hlive : ¬ k.IsLive parsed) (sender : TaskId) (words : Fin 4 → Word) :
    k.sendLocked sender parsed words = .ok (.done kErrorInvalidArgument) k := by
  simp only [sendLocked, stale_iff.mpr hlive, if_true]

theorem tryRecvLocked_stale (hlive : ¬ k.IsLive parsed) :
    k.tryRecvLocked parsed = (.inl kErrorInvalidArgument, k) := by
  simp only [tryRecvLocked, stale_iff.mpr hlive, if_true]

theorem recvLocked_stale (hlive : ¬ k.IsLive (.fromRaw handle)) (caller : TaskRef) :
    k.recvLocked caller handle =
      .ok .rejected (k.setReg caller 10 (BitVec.ofInt 64 kErrorInvalidArgument)) := by
  simp only [recvLocked, stale_iff.mpr hlive, if_true]

/-- A `destroy_endpoint` whose section refuses changes nothing. -/
theorem destroyEndpoint_refused {caller : TaskId} {code : ℤ}
    (hfree : ∀ lock, k.locks lock = none)
    (hwf : (fromRaw handle).wellFormed = true)
    (hsec : ∀ k1, SameIpc k k1 →
      k1.destroyEndpointLocked caller (.fromRaw handle) = (.done code, k1)) :
    (destroyEndpoint caller handle).run (exec h) k = .ok code k := by
  have hx : ∀ k1, SameIpc k k1 →
      exec h (.destroyEndpointLocked caller (.fromRaw handle)) k1 = .ok (.done code) k1 := by
    intro k1 hs
    rw [exec, hsec k1 hs]
    rfl
  rw [destroyEndpoint, if_pos hwf]
  exact locked_same (hfree _) (locked_same (hfree _)
    (run_perform_ok (hx ((k.setLock _ _).setLock _ _) ⟨rfl, rfl, fun _ => rfl⟩)))

/-- A `send` whose section refuses changes nothing. -/
theorem send_refused {sender : TaskId} {words : Fin 4 → Word} {code : ℤ}
    (hfree : ∀ lock, k.locks lock = none)
    (hwf : (fromRaw handle).wellFormed = true)
    (hsec : ∀ k1, SameIpc k k1 →
      k1.sendLocked sender (.fromRaw handle) words = .ok (.done code) k1) :
    (send sender handle words).run (exec h) k = .ok code k := by
  have hx : ∀ k1, SameIpc k k1 →
      exec h (.sendLocked sender (.fromRaw handle) words) k1 = .ok (.done code) k1 := hsec
  rw [send, if_pos hwf]
  exact locked_same (hfree _)
    (run_perform_ok (hx (k.setLock _ _) ⟨rfl, rfl, fun _ => rfl⟩))

/-- A `try_recv` whose section refuses changes nothing. -/
theorem tryRecv_refused {code : ℤ} (hfree : ∀ lock, k.locks lock = none)
    (hwf : (fromRaw handle).wellFormed = true)
    (hsec : ∀ k1, SameIpc k k1 → k1.tryRecvLocked (.fromRaw handle) = (.inl code, k1)) :
    (tryRecv handle).run (exec h) k = .ok (.inl code) k := by
  have hx : ∀ k1, SameIpc k k1 →
      exec h (.tryRecvLocked (.fromRaw handle)) k1 = .ok (.inl code) k1 := by
    intro k1 hs
    rw [exec, hsec k1 hs]
    rfl
  rw [tryRecv, if_pos hwf]
  exact locked_same (hfree _) (run_act_ok (hx (k.setLock _ _) ⟨rfl, rfl, fun _ => rfl⟩))

end Refused

end Jixia
