/-
Calls on different endpoints commute.

Two tasks that run on different harts each make one of the calls `send`, `try_recv`,
`recv` and `destroy_endpoint`, on handles with different slot indices.  In either order
the calls return the same, write the same registers, wake the same tasks and leave the
same endpoint table.

* `footprint` — the cells a call touches;
* `endpointCall_local` — a trap with one of the four calls is local to its footprint;
* `madeReady_iff`, `CallFrame.state` — the states of the tasks after a call;
* `CallEnd.queueAfter` — the order of a run queue after a call;
* `endpoint_calls_commute` — the two orders.
-/
import Jixia.EndpointWakes

namespace Jixia

open Footprint Proc KProc Machine Kernel EndpointHandle

variable {h : HartIndex} {k k' x y x' y' : Kernel} {t : TaskRef} {tid : TaskId}
  {frame : TrapFrame} {clock : Clock}

/-! ### The footprint of a call -/

/-- The cells a call with this handle touches, when the receivers `waiters` wait on the
endpoint: the record of the caller and, for a well-formed handle, the slot and the records
of the receivers. -/
def footprint (t : TaskRef) (handle : Word) (waiters : List TaskRef) : Set Cell :=
  {c | c = .task t ∨ (fromRaw handle).wellFormed = true ∧
    (c = .endpoint (slotOf handle) ∨ ∃ u ∈ waiters, c = .task u)}

section Calls

variable {handle : Word} {l : List TaskRef} {w w' : EndpointRef → List TaskRef}
  {dying dying' : EndpointRef → Prop}

theorem caller_mem_footprint : .task t ∈ footprint t handle l := .inl rfl

theorem slot_mem_footprint (hwf : (fromRaw handle).wellFormed = true) :
    .endpoint (slotOf handle) ∈ footprint t handle l := .inr ⟨hwf, .inl rfl⟩

theorem waiter_mem_footprint (hwf : (fromRaw handle).wellFormed = true)
    {u : TaskRef} (hu : u ∈ l) : .task u ∈ footprint t handle l := .inr ⟨hwf, .inr ⟨u, hu, rfl⟩⟩

/-- The endpoint table is well formed, and `l` waits on the endpoint of the handle. -/
def Awaited (handle : Word) (l : List TaskRef) (x : Kernel) : Prop :=
  ∃ w, IpcInv x w (fun _ => True) ∧
    ((fromRaw handle).wellFormed = true → w (slotOf handle) = l)

theorem Awaited.same (ha : Awaited handle l x) (hs : SameIpc x x') : Awaited handle l x' := by
  obtain ⟨w, hi, hw⟩ := ha
  exact ⟨w, hi.same hs, hw⟩

theorem agree_sched {S : Set Cell} (h0 : Agree cell S x y) (hx : SchedFrame x x')
    (hy : SchedFrame y y') : Agree cell S x' y' := fun c hc => by
  rw [hx.cell, hy.cell, h0 c hc]

/-- Two calls with one handle both find it well formed or both reject it. -/
theorem wellFormed_cases {A A' B B' : Prop} {b : Bool} (hx : b = false ∧ A ∨ b = true ∧ B)
    (hy : b = false ∧ A' ∨ b = true ∧ B') : A ∧ A' ∨ b = true ∧ B ∧ B' := by
  cases b
  · exact .inl ⟨(hx.resolve_right (by simp)).2, (hy.resolve_right (by simp)).2⟩
  · exact .inr ⟨rfl, (hx.resolve_left (by simp)).2, (hy.resolve_left (by simp)).2⟩

/-- A returning `send`, from two kernels. -/
theorem send_twin {sender : TaskId} {words : Fin 4 → Word} {code code' : ℤ}
    (hx : Awaited handle l x) (hy : Awaited handle l y)
    (h0 : Agree cell (footprint t handle l) x y)
    (hrx : (send sender handle words).run (exec h) x = .ok code x')
    (hry : (send sender handle words).run (exec h) y = .ok code' y') :
    code' = code ∧ Twin cell (footprint t handle l) x y x' y' := by
  obtain ⟨w, hi, hw⟩ := hx
  obtain ⟨w', hi', hw'⟩ := hy
  rcases wellFormed_cases (send_run hi hrx) (send_run hi' hry) with ⟨⟨rfl, rfl⟩, rfl, rfl⟩ |
    ⟨hwf, ⟨x0, step, x1, hf, hc, hf1, rfl⟩, y0, step', y1, hf', hc', hf1', rfl⟩
  · exact ⟨rfl, .start h0⟩
  · have hl := hw hwf
    obtain ⟨rfl, htwin⟩ := SendCase.twin (agree_sched h0 hf hf') (slot_mem_footprint hwf)
      (hi.same hf.sameIpc).lists (hi'.same hf'.sameIpc).lists ((hw' hwf).trans hl.symm)
      (fun u hu => waiter_mem_footprint hwf (hl ▸ hu)) hc hc'
    exact ⟨rfl, (htwin.congr hf1.cell hf1'.cell).congr_start hf.cell hf'.cell⟩

/-- A returning `try_recv`, from two kernels. -/
theorem tryRecv_twin {result result' : ℤ ⊕ Message}
    (h0 : Agree cell (footprint t handle l) x y)
    (hrx : (tryRecv handle).run (exec h) x = .ok result x')
    (hry : (tryRecv handle).run (exec h) y = .ok result' y') :
    result' = result ∧ Twin cell (footprint t handle l) x y x' y' := by
  rcases wellFormed_cases (tryRecv_run hrx) (tryRecv_run hry) with ⟨⟨rfl, rfl⟩, rfl, rfl⟩ |
    ⟨hwf, ⟨x0, x1, hf, hc, hf1⟩, y0, y1, hf', hc', hf1'⟩
  · exact ⟨rfl, .start h0⟩
  · obtain ⟨rfl, htwin⟩ := TryRecvCase.twin (agree_sched h0 hf hf') (slot_mem_footprint hwf)
      hc hc'
    exact ⟨rfl, (htwin.congr hf1.cell hf1'.cell).congr_start hf.cell hf'.cell⟩

/-- A returning `recv`, from two kernels. -/
theorem recv_twin {status status' : RecvStatus} (hx : Awaited handle l x)
    (hy : Awaited handle l y) (h0 : Agree cell (footprint t handle l) x y)
    (hrx : (recv h t handle clock).run (exec h) x = .ok status x')
    (hry : (recv h t handle clock).run (exec h) y = .ok status' y') :
    status' = status ∧ Twin cell (footprint t handle l) x y x' y' := by
  obtain ⟨w, hi, hw⟩ := hx
  obtain ⟨w', hi', hw'⟩ := hy
  rcases wellFormed_cases (recv_run hi hrx).2 (recv_run hi' hry).2 with
    ⟨⟨rfl, rfl⟩, rfl, rfl⟩ | ⟨hwf, ⟨x0, x1, hf, hc, hf1⟩, y0, y1, hf', hc', hf1'⟩
  · exact ⟨rfl, twin_setReg (.start h0) caller_mem_footprint ..⟩
  · have hl := hw hwf
    obtain ⟨rfl, htwin⟩ := RecvCase.twin (agree_sched h0 hf hf') (slot_mem_footprint hwf)
      caller_mem_footprint ((hw' hwf).trans hl.symm)
      (fun u hu => waiter_mem_footprint hwf (hl ▸ hu)) hc hc'
    exact ⟨rfl, (htwin.congr hf1.cell hf1'.cell).congr_start hf.cell hf'.cell⟩

/-- The part of `destroy_endpoint` after its section, from two kernels. -/
theorem DestroyEnd.twin {S : Set Cell} {e : EndpointRef} {step : DestroyStep} {code code' : ℤ}
    (hx : DestroyEnd e l step code x x') (hy : DestroyEnd e l step code' y y')
    (h0 : Agree cell S x y) (he : .endpoint e ∈ S) (hi : IpcInv x w dying)
    (hi' : IpcInv y w' dying') (hw : w e = l) (hw' : w' e = l)
    (hmem : ∀ u ∈ l, .task u ∈ S) : code' = code ∧ Twin cell S x y x' y' := by
  cases hx with
  | done hf =>
    cases hy with
    | done hf' => exact ⟨rfl, (Twin.start h0).congr hf.cell hf'.cell⟩
  | woken hwakes hf =>
    cases hy with
    | woken hwakes' hf' =>
      exact ⟨rfl, (hwakes.twin hwakes' h0 he hi hi' hw hw' hmem).congr hf.cell hf'.cell⟩

theorem DestroyCase.ipcInv {caller : TaskId} {parsed : EndpointHandle} {step : DestroyStep}
    (hi : IpcInv x w fun _ => True) (hc : DestroyCase x caller parsed step x') :
    IpcInv x' w fun _ => True := by
  cases hc with
  | stale _ | denied _ _ => exact hi
  | dead hl _ => exact (hi.killed hl.1).weaken fun _ _ => trivial

/-- A returning `destroy_endpoint`, from two kernels. -/
theorem destroyEndpoint_twin {caller : TaskId} {code code' : ℤ} (hx : Awaited handle l x)
    (hy : Awaited handle l y) (h0 : Agree cell (footprint t handle l) x y)
    (hrx : (destroyEndpoint caller handle).run (exec h) x = .ok code x')
    (hry : (destroyEndpoint caller handle).run (exec h) y = .ok code' y') :
    code' = code ∧ Twin cell (footprint t handle l) x y x' y' := by
  obtain ⟨w, hi, hw⟩ := hx
  obtain ⟨w', hi', hw'⟩ := hy
  rcases wellFormed_cases (destroyEndpoint_run hi hrx) (destroyEndpoint_run hi' hry) with
    ⟨⟨rfl, rfl⟩, rfl, rfl⟩ |
    ⟨hwf, ⟨x0, step, x1, hf, hc, hend⟩, y0, step', y1, hf', hc', hend'⟩
  · exact ⟨rfl, .start h0⟩
  · obtain ⟨rfl, htwin⟩ := DestroyCase.twin (agree_sched h0 hf hf') (slot_mem_footprint hwf)
      hc hc'
    rw [hw hwf] at hend
    rw [hw' hwf] at hend'
    obtain ⟨rfl, hrest⟩ := hend.twin hend' htwin.same (slot_mem_footprint hwf)
      (hc.ipcInv (hi.same hf.sameIpc)) (hc'.ipcInv (hi'.same hf'.sameIpc)) (hw hwf) (hw' hwf)
      fun u hu => waiter_mem_footprint hwf hu
    exact ⟨rfl, (htwin.trans hrest).congr_start hf.cell hf'.cell⟩

/-! ### The handlers -/

theorem agree_task {S : Set Cell} (h0 : Agree cell S x y) (ht : .task t ∈ S) :
    (y.tasks t).tid = (x.tasks t).tid ∧ (y.tasks t).context = (x.tasks t).context := by
  have hdata := agree_data h0 ht
  simp only [Task.data, Task.mk.injEq] at hdata
  exact ⟨hdata.2.2.2.1, hdata.2.1⟩

/-- The handler of one of the four calls, from two kernels. -/
theorem syscallBody_twin {number : Syscall} (hcall : number.onEndpoint = true) {tid' : TaskId}
    {b b' : Bool} (hhandle : (x.tasks t).context.x 10 = handle) (hx : Awaited handle l x)
    (hy : Awaited handle l y) (h0 : Agree cell (footprint t handle l) x y)
    (hrx : (syscallBody h t tid clock (some number)).run (exec h) x = .ok b x')
    (hry : (syscallBody h t tid' clock (some number)).run (exec h) y = .ok b' y') :
    b' = b ∧ Twin cell (footprint t handle l) x y x' y' := by
  obtain ⟨htid, hcontext⟩ := agree_task h0 (caller_mem_footprint (t := t))
  cases number <;> first | cases hcall; done | skip
  all_goals
    obtain ⟨_, _, hload, hrx⟩ := run_perform_inv hrx
    obtain ⟨_, _, hload', hry⟩ := run_perform_inv hry
    cases hload
    cases hload'
    simp only [htid, hcontext, hhandle] at hrx hry
    obtain ⟨result, x1, hmade, hrx⟩ := run_bind_inv hrx
    obtain ⟨result', y1, hmade', hry⟩ := run_bind_inv hry
  case endpointDestroy =>
    obtain ⟨rfl, htwin⟩ := destroyEndpoint_twin hx hy h0 hmade hmade'
    cases hrx
    cases hry
    exact ⟨rfl, twin_setReg htwin caller_mem_footprint ..⟩
  case send =>
    obtain ⟨rfl, htwin⟩ := send_twin hx hy h0 hmade hmade'
    cases hrx
    cases hry
    exact ⟨rfl, twin_setReg htwin caller_mem_footprint ..⟩
  case recv =>
    obtain ⟨rfl, htwin⟩ := recv_twin hx hy h0 hmade hmade'
    cases hrx
    cases hry
    exact ⟨rfl, htwin⟩
  case tryRecv =>
    obtain ⟨rfl, htwin⟩ := tryRecv_twin h0 hmade hmade'
    cases result' with
    | inl code =>
      cases hrx
      cases hry
      exact ⟨rfl, twin_setReg htwin caller_mem_footprint ..⟩
    | inr message =>
      cases hrx
      cases hry
      exact ⟨rfl, twin_writeRecvRegisters htwin caller_mem_footprint ..⟩

/-- What a hart and its caller need for the call: the caller runs, and the receivers `l`
wait on the endpoint it names. -/
structure Caller (h : HartIndex) (t : TaskRef) (satp : Word) (handle : Word) (l : List TaskRef)
    (x : Kernel) : Prop where
  current : (x.harts h).currentTask = some t
  satp_eq : (x.harts h).satp = satp
  awaited : Awaited handle l x

/-- **A trap with one of the four calls is local to its footprint.** -/
theorem endpointCall_local {number : Syscall} {satp : Word} (hsys : frame.isSyscall = true)
    (hnumber : Syscall.ofNumber (frame.x 17) = some number) (hcall : number.onEndpoint = true)
    (t : TaskRef) (clock : Clock) (l : List TaskRef) :
    Local cell (Caller h t satp (frame.x 10) l) (footprint t (frame.x 10) l)
      (Trapped h t frame clock) := by
  intro x y x' y' hx hy h0 hrx hry
  rw [Trapped, dispatch_eq hx.current hsys, hnumber] at hrx
  rw [Trapped, dispatch_eq hy.current hsys, hnumber] at hry
  obtain ⟨b, x1, hbody, hrx⟩ := run_bind_inv hrx
  obtain ⟨b', y1, hbody', hry⟩ := run_bind_inv hry
  have henter : Twin cell (footprint t (frame.x 10) l) x y (x.entered h t frame)
      (y.entered h t frame) := by
    rw [entered, entered, saved, saved, hx.satp_eq, hy.satp_eq]
    refine twin_modifyTask (twin_modifyTask ?_ caller_mem_footprint fun _ => rfl)
      caller_mem_footprint fun _ => rfl
    exact (Twin.start h0).congr ((SchedFrame.refl x).modifyHart ..).cell
      ((SchedFrame.refl y).modifyHart ..).cell
  obtain ⟨-, htwin⟩ := syscallBody_twin hcall (entered_reg x h t frame (by decide))
    (hx.awaited.same (entered_sameIpc ..)) (hy.awaited.same (entered_sameIpc ..)) henter.same
    hbody hbody'
  exact (henter.trans htwin).congr (afterCall_schedFrame hrx).cell (afterCall_schedFrame hry).cell

/-- Kernels that agree on the footprint have the same receivers. -/
theorem awaited_of_agree (ha : Awaited handle l x) (hi : IpcInv y w fun _ => True)
    (h0 : Agree cell (footprint t handle l) x y) : Awaited handle l y := by
  obtain ⟨w0, hi0, hw0⟩ := ha
  refine ⟨w, hi, fun hwf => ?_⟩
  have hl := hw0 hwf
  have hslot := (agree_endpoint h0 (slot_mem_footprint hwf)).1
  have hnode : ∀ u ∈ w0 (slotOf handle), (y.tasks u).messageWait = (x.tasks u).messageWait :=
    fun u hu => agree_node h0 (waiter_mem_footprint hwf (hl ▸ hu))
  have hlist : LinkedList.Holds y.waitNext y.waitPrev (x.endpoints (slotOf handle)).waitingHead
      (x.endpoints (slotOf handle)).waitingTail (w0 (slotOf handle)) :=
    (hi0.lists.holds _).congr (fun u hu => waitNext_congr (hnode u hu))
      fun u hu => waitPrev_congr (hnode u hu)
  calc w (slotOf handle) = y.waiters (slotOf handle) := (waiters_eq hi.lists _).symm
    _ = w0 (slotOf handle) := by
      rw [waiters, hslot]
      exact hlist.walk_eq hlist.nodup.length_le_card
    _ = l := hl

end Calls

/-! ### Blocked and woken tasks -/

section States

variable {legal legal' : Prop} {loc loc' : Loc}

/-- A task that a hart holds between two traps is running or ready. -/
theorem Quiescent.own_state (hq : Quiescent legal k loc) (ht : loc t = some (.own h)) :
    (k.tasks t).state = .running ∨ (k.tasks t).state = .ready := by
  rcases (hq.rest h).held ht with hcur | hidle
  · obtain ⟨i, ⟨hrun, -⟩, -⟩ := (hq.rest h).caller hcur
    exact .inl hrun
  · exact ((hq.inv.hart h).idle t hidle).2.2.2.symm

/-- Between two traps the tasks that wait for a message are those in a waiting FIFO. -/
theorem Quiescent.blocked_iff (hq : Quiescent legal k loc) (t : TaskRef) :
    (k.tasks t).state = .blockedMessage ↔ (k.tasks t).messageWait.queued = true := by
  rw [hq.inv.wait_iff]
  constructor
  · intro hs
    cases hp : loc t with
    | none =>
      rw [hq.inv.zero t hp] at hs
      cases hs
    | some p =>
      have hplaced := (hq.inv.placed t p hp).state
      cases p with
      | wait e => exact ⟨e, rfl⟩
      | own h =>
        rcases hq.own_state hp with hrun | hready
        · cases hs.symm.trans hrun
        · cases hs.symm.trans hready
      | reaped h => cases hs.symm.trans hplaced
      | run q => cases hs.symm.trans hplaced
      | delay q => cases hs.symm.trans hplaced
      | join => cases hs.symm.trans hplaced
  · rintro ⟨e, he⟩
    exact (hq.inv.placed t _ he).state.1

/-- The task has been made ready: it waited for a message, and now it is ready or, if a hart
has taken it up already, running. -/
def MadeReady (k k' : Kernel) (t : TaskRef) : Prop :=
  (k.tasks t).state = .blockedMessage ∧
    ((k'.tasks t).state = .ready ∨ (k'.tasks t).state = .running)

/-! ### Where the calls leave a task -/

theorem CallFrame.symm (hf : CallFrame k k') : CallFrame k' k :=
  ⟨fun t => (hf.task t).symm, hf.rest.symm⟩

theorem CallFrame.fixed (hf : CallFrame k k') (t : TaskRef) :
    (k'.tasks t).delay = (k.tasks t).delay ∧ (k'.tasks t).tracker = (k.tasks t).tracker ∧
      (k'.tasks t).idle = (k.tasks t).idle := by
  have htask := hf.task t
  simp only [Task.fixed, Task.data, Task.mk.injEq] at htask
  tauto

theorem CallFrame.tables (hf : CallFrame k k') :
    k'.taskSlotsUsed = k.taskSlotsUsed ∧ k'.trackerSlotsUsed = k.trackerSlotsUsed ∧
      k'.trackers = k.trackers := by
  have hrest : (_ : Kernel) = _ := hf.rest
  simp only [cell, Kernel.mk.injEq] at hrest
  tauto

/-- The places of a task that runs, is ready or waits for a message. -/
def Place.isOpen : Place → Bool
  | .wait _ | .run _ | .own _ => true
  | .delay _ | .join | .reaped _ => false

def Open (loc : Loc) (t : TaskRef) : Prop := ∃ p, loc t = some p ∧ p.isOpen = true

theorem Quiescent.open_state (hq : Quiescent legal k loc) (ho : Open loc t)
    (hn : (k.tasks t).messageWait.queued = false) :
    (k.tasks t).state = .ready ∨ (k.tasks t).state = .running := by
  obtain ⟨p, hp, ho⟩ := ho
  cases p with
  | wait e => cases hn.symm.trans ((hq.inv.wait_iff t).mpr ⟨e, hp⟩)
  | run q => exact .inl (hq.inv.placed t _ hp).state
  | own h => exact (hq.own_state hp).symm
  | delay | join | reaped => cases ho

section Moves

variable (hf : CallFrame k k') (hq : Quiescent legal k loc) (hq' : Quiescent legal' k' loc')

include hf hq hq'

theorem CallFrame.none (ht : loc t = none) : loc' t = none := by
  have hfree := (hq.inv.used t).not_left.mpr ht
  rw [← hf.tables.1, hq'.inv.used t] at hfree
  exact not_not.mp hfree

theorem CallFrame.delay {q : HartIndex} (ht : loc t = some (.delay q)) :
    ∃ q, loc' t = some (.delay q) := by
  rw [← hq'.inv.delay_iff, (hf.fixed t).1, hq.inv.delay_iff]
  exact ⟨q, ht⟩

theorem CallFrame.live (ht : Live loc t) : Live loc' t := by
  obtain ⟨r, -, hused, htask, -⟩ := hq.inv.tracker.ofTask ht
  obtain ⟨-, hslots, htrackers⟩ := hf.tables
  exact (hq'.inv.tracker.ofTracker (hslots ▸ hused) (htrackers ▸ htask)).1

theorem CallFrame.join (ht : loc t = some .join) : loc' t = some .join := by
  obtain ⟨hlive, hact⟩ := hq.inv.tracker.joins ht
  obtain ⟨r, hr, hused, htask, -⟩ := hq'.inv.tracker.ofTask (hf.live hq hq' hlive)
  have hwait := hact r ((hf.fixed t).2.1 ▸ hr)
  rw [← hf.tables.2.2] at hwait
  obtain ⟨u, hu, hjoin⟩ := hq'.inv.tracker.waiting hused hwait
  cases hu.symm.trans htask
  exact hjoin

theorem CallFrame.reaped (ht : loc t = some (.reaped h)) : ∃ h, loc' t = some (.reaped h) := by
  by_contra hne
  rw [not_exists] at hne
  cases hp : loc' t with
  | none => cases ht.symm.trans (hf.symm.none hq' hq hp)
  | some p =>
    have hlive : Live loc' t := ⟨p, hp, fun j hj => hne j (hj ▸ hp)⟩
    obtain ⟨p', hp', hlive⟩ := hf.symm.live hq' hq hlive
    exact hlive h (Option.some.inj (hp'.symm.trans ht))

theorem CallFrame.stays_open (ht : Open loc t) : Open loc' t := by
  obtain ⟨p, hp, ho⟩ := ht
  cases hp' : loc' t with
  | none => cases hp.symm.trans (hf.symm.none hq' hq hp')
  | some p' =>
    refine ⟨p', hp', ?_⟩
    cases p' with
    | wait | run | own => rfl
    | delay q =>
      obtain ⟨q, hd⟩ := hf.symm.delay hq' hq hp'
      cases hp.symm.trans hd
      cases ho
    | join =>
      cases hp.symm.trans (hf.symm.join hq' hq hp')
      cases ho
    | reaped h =>
      obtain ⟨h, hr⟩ := hf.symm.reaped hq' hq hp'
      cases hp.symm.trans hr
      cases ho

/-- The tasks made ready by the calls are those taken off a waiting FIFO. -/
theorem madeReady_iff (t : TaskRef) :
    MadeReady k k' t ↔ (k.tasks t).messageWait.queued = true ∧
      (k'.tasks t).messageWait.queued = false := by
  rw [MadeReady, hq.blocked_iff]
  refine and_congr_right fun ht => ⟨fun hs => ?_, fun hn => ?_⟩
  · rw [← Bool.not_eq_true, ← hq'.blocked_iff]
    rintro hb
    rcases hs with hs | hs <;> cases hs.symm.trans hb
  · obtain ⟨e, he⟩ := (hq.inv.wait_iff t).mp ht
    exact hq'.open_state (hf.stays_open hq hq' ⟨_, he, rfl⟩) hn

/-- Only running and ready are told apart by the order of the calls. -/
theorem CallFrame.state (hw : (k'.tasks t).messageWait = (k.tasks t).messageWait) :
    (k'.tasks t).state = (k.tasks t).state ∨
      ((k.tasks t).state = .ready ∨ (k.tasks t).state = .running) ∧
        ((k'.tasks t).state = .ready ∨ (k'.tasks t).state = .running) := by
  cases hp : loc t with
  | none =>
    rw [hq.inv.zero t hp, hq'.inv.zero t (hf.none hq hq' hp)]
    exact .inl rfl
  | some p =>
    have hstate := (hq.inv.placed t p hp).state
    cases p with
    | delay q =>
      obtain ⟨q, hd⟩ := hf.delay hq hq' hp
      exact .inl ((hq'.inv.placed t _ hd).state.trans hstate.symm)
    | join => exact .inl ((hq'.inv.placed t _ (hf.join hq hq' hp)).state.trans hstate.symm)
    | reaped h =>
      obtain ⟨h, hr⟩ := hf.reaped hq hq' hp
      exact .inl ((hq'.inv.placed t _ hr).state.trans hstate.symm)
    | wait e =>
      have hqueued := (hq.inv.wait_iff t).mpr ⟨e, hp⟩
      exact .inl (((hq'.blocked_iff t).mpr (hw ▸ hqueued)).trans hstate.1.symm)
    | run q | own h =>
      have hopen : Open loc t := ⟨_, hp, rfl⟩
      have hn : (k.tasks t).messageWait.queued = false := by
        rw [← Bool.not_eq_true, hq.inv.wait_iff, hp]
        rintro ⟨e, he⟩
        cases he
      exact .inr ⟨hq.open_state hopen hn,
        hq'.open_state (hf.stays_open hq hq' hopen) (hw ▸ hn)⟩

end Moves

end States

/-! ### The run queues -/

section Queues

variable {legal legal' : Prop} {loc loc' : Loc}

/-- A run queue after a call: the tasks of before in their order, then tasks the call has
made ready, less what harts have taken off the front. -/
def QueueAfter (k k' : Kernel) (q : RunQueueRef) : Prop :=
  ∃ l n, n ≤ (k.runList q ++ l).length ∧ k'.runList q = (k.runList q ++ l).drop n ∧
    ∀ u ∈ l, MadeReady k k' u

theorem Quiescent.mem_runList (hq : Quiescent legal k loc) (q : RunQueueRef) (t : TaskRef) :
    t ∈ k.runList q ↔ loc t = some (.run q) := by
  obtain ⟨r, hr, hmem⟩ := hq.inv.queues.run
  rw [hr.runList_eq, hmem]

/-- The queues after a trap with one of the calls. -/
theorem CallEnd.queueAfter {r r' : RunQueueRef → List TaskRef} (hend : CallEnd h t frame k r k' r')
    (hf : CallFrame k k') (hq : Quiescent legal k loc) (hq' : Quiescent legal' k' loc')
    (hother : ∀ j, j ≠ h → k'.harts j = k.harts j) (hr : RunLists k r) (hr' : RunLists k' r')
    (q : RunQueueRef) : QueueAfter k k' q := by
  rw [QueueAfter, hr.runList_eq, hr'.runList_eq]
  cases hend with
  | blocks _ hdrop =>
    obtain ⟨n, hn⟩ := hdrop q
    refine ⟨[], min n (r q).length, by simp, ?_, fun u hu => absurd hu List.not_mem_nil⟩
    rw [List.append_nil, hn]
    rcases le_total n (r q).length with hle | hle
    · rw [min_eq_left hle]
    · rw [min_eq_right hle, List.drop_length, List.drop_eq_nil_of_le hle]
  | goesOn hhart happ =>
    obtain ⟨l, hl⟩ := happ q
    refine ⟨l, 0, Nat.zero_le _, hl, fun u hu => ?_⟩
    have hmem' : ∀ q, u ∈ r' q ↔ loc' u = some (.run q) := fun q => by
      rw [← hr'.runList_eq, hq'.mem_runList]
    have hrun : loc' u = some (.run q) := (hmem' q).mp (hl ▸ List.mem_append_right _ hu)
    have hcur : ∀ j, (k'.harts j).currentTask = (k.harts j).currentTask := fun j => by
      by_cases hj : j = h
      · rw [hj, hhart]
      · rw [hother j hj]
    rw [madeReady_iff hf hq hq', hq.inv.wait_iff, ← Bool.not_eq_true, hq'.inv.wait_iff, hrun]
    refine ⟨?_, by rintro ⟨e, he⟩; cases he⟩
    -- Before the call the task was in no run queue, and no hart held it.
    obtain ⟨p, hp, ho⟩ := hf.symm.stays_open hq' hq ⟨_, hrun, rfl⟩
    cases p with
    | delay | join | reaped => cases ho
    | wait e => exact ⟨e, hp⟩
    | run q0 =>
      have hold : u ∈ r q0 := by rwa [← hr.runList_eq, hq.mem_runList]
      obtain ⟨l0, hl0⟩ := happ q0
      cases hrun.symm.trans ((hmem' q0).mp (hl0 ▸ List.mem_append_left _ hold))
      have hnodup := (hr'.family.holds q).nodup
      rw [hl] at hnodup
      exact absurd hu (List.disjoint_of_nodup_append hnodup hold)
    | own j =>
      rcases (hq.rest j).held hp with hcurrent | hidle
      · obtain ⟨i, -, hat⟩ := (hq'.rest j).caller ((hcur j).trans hcurrent)
        cases hrun.symm.trans (hat.owned u _ (Holding.caller_self i u _)).1
      · have htrue := ((hq.inv.hart j).idle u hidle).2.2.1
        rw [← (hf.fixed u).2.2, (hq'.inv.placed u _ hrun).idle rfl] at htrue
        cases htrue

end Queues

/-! ### Two calls -/

section Commute

variable {legal : Prop} {loc : Loc} {h1 h2 : HartIndex} {t1 t2 : TaskRef}
  {frame1 frame2 : TrapFrame} {clock1 clock2 : Clock}

/-- The task runs on the hart and traps there with one of the four calls.  An idle task
only yields. -/
structure Calls (k : Kernel) (h : HartIndex) (t : TaskRef) (frame : TrapFrame) : Prop where
  current : (k.harts h).currentTask = some t
  idle : (k.tasks t).idle = false
  isSyscall : frame.isSyscall = true
  onEndpoint : ∃ number, Syscall.ofNumber (frame.x 17) = some number ∧ number.onEndpoint = true

/-- The handle a call is about. -/
def TrapFrame.handle (frame : TrapFrame) : EndpointHandle := .fromRaw (frame.x 10)

theorem slot_ne {handle handle' : EndpointHandle} (hwf : handle.wellFormed = true)
    (hwf' : handle'.wellFormed = true) (hne : handle.index ≠ handle'.index) :
    handle.slot ≠ handle'.slot := by
  simp only [EndpointHandle.wellFormed, Bool.and_eq_true, decide_eq_true_eq] at hwf hwf'
  intro heq
  have hval := congrArg Fin.val heq
  simp only [EndpointHandle.slot, Fin.ofNat, Nat.mod_eq_of_lt hwf.1.1,
    Nat.mod_eq_of_lt hwf'.1.1] at hval
  exact hne (BitVec.eq_of_toNat_eq hval)

/-- Different running tasks and different slots: the calls have no cell in common. -/
theorem footprint_disjoint {handle handle' : Word} {w : EndpointRef → List TaskRef}
    (hi : IpcInv k w fun _ => True) (hne : t1 ≠ t2)
    (hn1 : (k.tasks t1).messageWait.queued = false)
    (hn2 : (k.tasks t2).messageWait.queued = false)
    (hindex : (fromRaw handle).index ≠ (fromRaw handle').index) :
    ∀ c ∈ footprint t1 handle (w (slotOf handle)),
      c ∉ footprint t2 handle' (w (slotOf handle')) := by
  have hidle : ∀ {t e}, (k.tasks t).messageWait.queued = false → t ∉ w e := fun hn ht =>
    Bool.noConfusion (hn.symm.trans ((hi.lists.queued _).mpr ⟨_, ht⟩))
  rintro c (rfl | ⟨hwf, rfl | ⟨u, hu, rfl⟩⟩) (hc | ⟨hwf', hc | ⟨u', hu', hc⟩⟩) <;>
    first | cases hc; done | skip
  · exact hne (Cell.task.inj hc)
  · cases hc
    exact hidle hn1 hu'
  · exact slot_ne hwf hwf' hindex (Cell.endpoint.inj hc)
  · cases hc
    exact hidle hn2 hu
  · cases hc
    exact slot_ne hwf hwf' hindex (hi.lists.family.disjoint hu hu')

/-- One of the calls has been made and has returned. -/
structure Called (legal : Prop) (h : HartIndex) (t : TaskRef) (frame : TrapFrame) (clock : Clock)
    (k k' : Kernel) (loc' : Loc) : Prop where
  trapped : Trapped h t frame clock k k'
  quiescent : Quiescent legal k' loc'
  callFrame : CallFrame k k'
  otherHarts : ∀ j, j ≠ h → k'.harts j = k.harts j

theorem Calls.returns (hc : Calls k h t frame) (hq : Quiescent legal k loc) (clock : Clock) :
    ∃ k' loc', Called legal h t frame clock k k' loc' := by
  obtain ⟨number, hnumber, hon⟩ := hc.onEndpoint
  obtain ⟨k', loc', htrap, hq', hother⟩ :=
    endpointCall_returns hc.current hc.isSyscall hnumber hon hq hc.idle clock
  exact ⟨k', loc', htrap, hq',
    callFrame_of_trap hc.current hc.isSyscall hnumber hon htrap, hother⟩

/-- The call of another hart does not keep a task from making its own. -/
theorem Called.calls (hc : Calls k h2 t2 frame2) {loc' : Loc}
    (hd : Called legal h1 t1 frame1 clock1 k k' loc') (hne : h2 ≠ h1) :
    Calls k' h2 t2 frame2 where
  current := by rw [hd.otherHarts h2 hne, hc.current]
  idle := by rw [(hd.callFrame.fixed t2).2.2, hc.idle]
  isSyscall := hc.isSyscall
  onEndpoint := hc.onEndpoint

/-- A running task is in no waiting FIFO. -/
theorem Calls.unqueued (hc : Calls k h t frame) (hq : Quiescent legal k loc) :
    (k.tasks t).messageWait.queued = false := by
  obtain ⟨i, ⟨hrun, -⟩, -⟩ := (hq.rest h).caller hc.current
  rw [← Bool.not_eq_true, ← hq.blocked_iff, hrun]
  exact fun hb => TaskState.noConfusion hb

/-- The hart of a caller that goes on. -/
theorem Called.hart (hc : Calls k h t frame) (hq : Quiescent legal k loc) {loc' : Loc}
    (hd : Called legal h t frame clock k k' loc')
    (hgo : (k'.tasks t).messageWait.queued = false) :
    k'.harts h = { k.harts h with
      frame := restoreToTrap (k'.tasks t).context frame, mstatus := frame.mstatus
      satp := (k'.tasks t).context.satp } := by
  obtain ⟨number, hnumber, hon⟩ := hc.onEndpoint
  obtain ⟨w, hw, -⟩ := hq.inv.queues.wait
  obtain ⟨r, hr, -⟩ := hq.inv.queues.run
  obtain ⟨r', -, hend⟩ :=
    endpointCall_ends hc.current hc.isSyscall hnumber hon hw hr hd.trapped
  cases hend with
  | goesOn hhart _ => exact hhart
  | blocks hqueued _ => cases hgo.symm.trans hqueued

theorem Called.queueAfter (hc : Calls k h t frame) (hq : Quiescent legal k loc) {loc' : Loc}
    (hd : Called legal h t frame clock k k' loc') (q : RunQueueRef) : QueueAfter k k' q := by
  obtain ⟨number, hnumber, hon⟩ := hc.onEndpoint
  obtain ⟨w, hw, -⟩ := hq.inv.queues.wait
  obtain ⟨r, hr, -⟩ := hq.inv.queues.run
  obtain ⟨r', hr', hend⟩ :=
    endpointCall_ends hc.current hc.isSyscall hnumber hon hw hr hd.trapped
  exact hend.queueAfter hd.callFrame hq hd.quiescent hd.otherHarts hr hr' q

theorem QueueAfter.trans {k'' : Kernel} {q : RunQueueRef} (ha : QueueAfter k k' q)
    (hb : QueueAfter k' k'' q) (hready : ∀ u, MadeReady k k' u → MadeReady k k'' u)
    (hready' : ∀ u, MadeReady k' k'' u → MadeReady k k'' u) : QueueAfter k k'' q := by
  obtain ⟨l, n, hn, hl, hwoken⟩ := ha
  obtain ⟨l', n', hn', hl', hwoken'⟩ := hb
  rw [hl, ← List.drop_append_of_le_length hn, List.length_drop, List.append_assoc] at hn'
  refine ⟨l ++ l', n + n', ?_, ?_, fun u hu => ?_⟩
  · have : n ≤ (k.runList q ++ (l ++ l')).length := by
      rw [← List.append_assoc, List.length_append]
      exact hn.trans (Nat.le_add_right ..)
    omega
  · rw [hl', hl, ← List.drop_append_of_le_length hn, List.drop_drop, List.append_assoc]
  · rcases List.mem_append.mp hu with hu | hu
    · exact hready u (hwoken u hu)
    · exact hready' u (hwoken' u hu)

section Orders

variable {S : Set Cell} {k1 k2 k12 k21 : Kernel} {loc1 loc2 loc12 loc21 : Loc}
  (hq : Quiescent legal k loc) (hc1 : Calls k h1 t1 frame1) (hc2 : Calls k h2 t2 frame2)
  (hne : h1 ≠ h2) (hd1 : Called legal h1 t1 frame1 clock1 k k1 loc1)
  (hd12 : Called legal h2 t2 frame2 clock2 k1 k12 loc12)
  (hd2 : Called legal h2 t2 frame2 clock2 k k2 loc2)
  (hd21 : Called legal h1 t1 frame1 clock1 k2 k21 loc21)
  (hs : Square cell S k k1 k2 k12 k21)

include hq hd1 hd2 hd21 hs in
/-- The first call wakes the same tasks before and after the second. -/
theorem woken_iff (u : TaskRef) : MadeReady k k1 u ↔ MadeReady k2 k21 u := by
  rw [madeReady_iff hd1.callFrame hq hd1.quiescent,
    madeReady_iff hd21.callFrame hd2.quiescent hd21.quiescent]
  by_cases hu : Cell.task u ∈ S
  · obtain ⟨h0, -, h1⟩ := hs.inside _ hu
    rw [(node_of_cell h0).1, (node_of_cell h1).1]
  · -- Outside of its footprint the call wakes nobody.
    obtain ⟨h0, -, h1⟩ := hs.outside _ hu
    rw [← (node_of_cell h0).1, ← (node_of_cell h1).1]
    simp only [and_not_self_iff, ← Bool.not_eq_true]

include hq hd1 hd12 hs in
/-- What either call wakes is awake in the end. -/
theorem woken_both (u : TaskRef) :
    MadeReady k k1 u ∨ MadeReady k1 k12 u → MadeReady k k12 u := by
  rw [madeReady_iff hd1.callFrame hq hd1.quiescent,
    madeReady_iff hd12.callFrame hd1.quiescent hd12.quiescent,
    madeReady_iff (hd1.callFrame.trans hd12.callFrame) hq hd12.quiescent]
  by_cases hu : Cell.task u ∈ S
  · obtain ⟨-, h1, -⟩ := hs.inside _ hu
    rw [(node_of_cell h1).1]
    rintro (hfirst | ⟨hbefore, hafter⟩)
    · exact hfirst
    · cases hafter.symm.trans hbefore
  · obtain ⟨h0, -, -⟩ := hs.outside _ hu
    rw [(node_of_cell h0).1]
    rintro (⟨hbefore, hafter⟩ | hsecond)
    · cases hafter.symm.trans hbefore
    · exact hsecond

include hq hc1 hc2 hne hd1 hd12 hs in
/-- The queues after both calls. -/
theorem queues_both (q : RunQueueRef) : QueueAfter k k12 q := by
  have hboth := woken_both hq hd1 hd12 hs
  exact (hd1.queueAfter hc1 hq q).trans
    (hd12.queueAfter (hd1.calls hc2 hne.symm) hd1.quiescent q)
    (fun u hu => hboth u (.inl hu)) fun u hu => hboth u (.inr hu)

include hq hc1 hne hd1 hd12 hd2 hd21 hs in
/-- A first caller that goes on finds its hart the same in either order. -/
theorem resumed_same (ht : Cell.task t1 ∈ S) (hgo : (k12.tasks t1).messageWait.queued = false) :
    k12.harts h1 = k21.harts h1 := by
  obtain ⟨-, h12, h21⟩ := hs.inside _ ht
  obtain ⟨hnode12, -⟩ := node_of_cell h12
  obtain ⟨hnode21, hcontext⟩ := node_of_cell h21
  rw [hnode12] at hgo
  rw [hd12.otherHarts h1 hne, hd1.hart hc1 hq hgo,
    hd21.hart (hd2.calls hc1 hne) hd2.quiescent (hnode21 ▸ hgo), hcontext, hd2.otherHarts h1 hne]

end Orders

/-- What two calls have in common in either order: `k12` is the kernel after the first and then
the second call, with `k1` in between, and `k21` and `k2` those of the other order. -/
structure SameOutcome (h1 h2 : HartIndex) (t1 t2 : TaskRef) (k k1 k12 k2 k21 : Kernel) :
    Prop where
  -- The endpoint table: slots, message queues, generations and allocation bits, and the
  -- links of the waiting FIFOs.
  endpoints : k12.endpoints = k21.endpoints
  slotAllocated : k12.slotAllocated = k21.slotAllocated
  messageWait : ∀ t, (k12.tasks t).messageWait = (k21.tasks t).messageWait
  -- The saved registers of every task, and the hart of a caller that goes on.
  context : ∀ t, (k12.tasks t).context = (k21.tasks t).context
  first : (k12.tasks t1).messageWait.queued = false → k12.harts h1 = k21.harts h1
  second : (k12.tasks t2).messageWait.queued = false → k12.harts h2 = k21.harts h2
  -- The tasks made ready, by each call and by both.
  readyFirst : ∀ t, MadeReady k k1 t ↔ MadeReady k2 k21 t
  readySecond : ∀ t, MadeReady k1 k12 t ↔ MadeReady k k2 t
  ready : ∀ t, MadeReady k k12 t ↔ MadeReady k k21 t
  -- Everything but scheduling is the same; the order of the calls can be told from which tasks
  -- are ready and which are running, and from the order of the woken tasks in the queues.
  rest : SchedFrame k12 k21
  state : ∀ t, (k21.tasks t).state = (k12.tasks t).state ∨
    ((k12.tasks t).state = .ready ∨ (k12.tasks t).state = .running) ∧
      ((k21.tasks t).state = .ready ∨ (k21.tasks t).state = .running)
  queues : ∀ q, QueueAfter k k12 q ∧ QueueAfter k k21 q
  otherHarts : ∀ j, j ≠ h1 → j ≠ h2 → k12.harts j = k.harts j ∧ k21.harts j = k.harts j

/-- The four traps form a square. -/
theorem calls_square (hq : Quiescent legal k loc) (hc1 : Calls k h1 t1 frame1)
    (hc2 : Calls k h2 t2 frame2) (ht : t1 ≠ t2) (hne : h1 ≠ h2)
    (hindex : frame1.handle.index ≠ frame2.handle.index)
    {k1 k2 k12 k21 : Kernel} {loc1 loc2 loc12 loc21 : Loc}
    (hd1 : Called legal h1 t1 frame1 clock1 k k1 loc1)
    (hd12 : Called legal h2 t2 frame2 clock2 k1 k12 loc12)
    (hd2 : Called legal h2 t2 frame2 clock2 k k2 loc2)
    (hd21 : Called legal h1 t1 frame1 clock1 k2 k21 loc21) :
    ∃ S, Square cell S k k1 k2 k12 k21 ∧ Cell.task t1 ∈ S ∧ Cell.task t2 ∉ S := by
  obtain ⟨w, hi, -⟩ := hq.inv.queues.wait
  obtain ⟨w1, hi1, -⟩ := hd1.quiescent.inv.queues.wait
  obtain ⟨w2, hi2, -⟩ := hd2.quiescent.inv.queues.wait
  obtain ⟨number1, hnumber1, hon1⟩ := hc1.onEndpoint
  obtain ⟨number2, hnumber2, hon2⟩ := hc2.onEndpoint
  have hdisjoint := footprint_disjoint hi ht (hc1.unqueued hq) (hc2.unqueued hq) hindex
  have hlocal1 : Local cell
      (Caller h1 t1 (k.harts h1).satp (frame1.x 10) (w (slotOf (frame1.x 10)))) _
      (Trapped h1 t1 frame1 clock1) :=
    endpointCall_local hc1.isSyscall hnumber1 hon1 t1 clock1 _
  have hlocal2 : Local cell
      (Caller h2 t2 (k.harts h2).satp (frame2.x 10) (w (slotOf (frame2.x 10)))) _
      (Trapped h2 t2 frame2 clock2) :=
    endpointCall_local hc2.isSyscall hnumber2 hon2 t2 clock2 _
  have hI : Caller h1 t1 (k.harts h1).satp (frame1.x 10) (w (slotOf (frame1.x 10))) k :=
    ⟨hc1.current, rfl, w, hi, fun _ => rfl⟩
  have hJ : Caller h2 t2 (k.harts h2).satp (frame2.x 10) (w (slotOf (frame2.x 10))) k :=
    ⟨hc2.current, rfl, w, hi, fun _ => rfl⟩
  have hI2 : Caller h1 t1 (k.harts h1).satp (frame1.x 10) (w (slotOf (frame1.x 10))) k2 := by
    refine ⟨(hd2.calls hc1 hne).current, by rw [hd2.otherHarts h1 hne], ?_⟩
    exact awaited_of_agree hI.awaited hi2
      (hlocal2.keeps (fun c hc hc' => hdisjoint c hc' hc) hJ hd2.trapped)
  have hJ1 : Caller h2 t2 (k.harts h2).satp (frame2.x 10) (w (slotOf (frame2.x 10))) k1 := by
    refine ⟨(hd1.calls hc2 hne.symm).current, by rw [hd1.otherHarts h2 hne.symm], ?_⟩
    exact awaited_of_agree hJ.awaited hi1 (hlocal1.keeps hdisjoint hI hd1.trapped)
  exact ⟨_, hlocal1.commute hlocal2 hdisjoint hI hI2 hJ hJ1 hd1.trapped hd12.trapped hd2.trapped
    hd21.trapped, caller_mem_footprint, fun hc => hdisjoint _ hc caller_mem_footprint⟩

/-- **Calls on different endpoints commute.**  In every reachable state, if two different
running tasks call `send`, `try_recv`, `recv` or `destroy_endpoint` with handles of different
slots, then both calls return in either order, with the same outcome. -/
theorem endpoint_calls_commute {platform : Platform} {count : ℕ} (hrun : Run legal platform count k)
    (hc1 : Calls k h1 t1 frame1) (hc2 : Calls k h2 t2 frame2) (ht : t1 ≠ t2)
    (hindex : frame1.handle.index ≠ frame2.handle.index) (clock1 clock2 : Clock) :
    ∃ k1 k12 k2 k21, Trapped h1 t1 frame1 clock1 k k1 ∧ Trapped h2 t2 frame2 clock2 k1 k12 ∧
      Trapped h2 t2 frame2 clock2 k k2 ∧ Trapped h1 t1 frame1 clock1 k2 k21 ∧
      SameOutcome h1 h2 t1 t2 k k1 k12 k2 k21 := by
  obtain ⟨loc, hq⟩ := hrun.quiescent
  have hne : h1 ≠ h2 := by
    rintro rfl
    exact ht (Option.some.inj (hc1.current.symm.trans hc2.current))
  obtain ⟨k1, loc1, hd1⟩ := hc1.returns hq clock1
  obtain ⟨k2, loc2, hd2⟩ := hc2.returns hq clock2
  obtain ⟨k12, loc12, hd12⟩ := (hd1.calls hc2 hne.symm).returns hd1.quiescent clock2
  obtain ⟨k21, loc21, hd21⟩ := (hd2.calls hc1 hne).returns hd2.quiescent clock1
  obtain ⟨S, hs, ht1, ht2⟩ := calls_square hq hc1 hc2 ht hne hindex hd1 hd12 hd2 hd21
  have hrest : SchedFrame k21 k12 := schedFrame_of_cell hs.ends
  have hnode := fun t => node_of_cell (hs.ends (.task t))
  refine ⟨k1, k12, k2, k21, hd1.trapped, hd12.trapped, hd2.trapped, hd21.trapped, ?_⟩
  exact {
    endpoints := hrest.sameIpc.endpoints
    slotAllocated := hrest.sameIpc.slotAllocated
    messageWait := fun t => (hnode t).1.symm
    context := fun t => (hnode t).2.symm
    first := resumed_same hq hc1 hne hd1 hd12 hd2 hd21 hs ht1
    second := fun hgo => (resumed_same hq hc2 hne.symm hd2 hd21 hd1 hd12 hs.swap ht2
      ((hnode t2).1 ▸ hgo)).symm
    readyFirst := woken_iff hq hd1 hd2 hd21 hs
    readySecond := fun t => (woken_iff hq hd2 hd1 hd12 hs.swap t).symm
    ready := fun t => by
      rw [madeReady_iff (hd1.callFrame.trans hd12.callFrame) hq hd12.quiescent,
        madeReady_iff (hd2.callFrame.trans hd21.callFrame) hq hd21.quiescent, (hnode t).1]
    rest := schedFrame_of_cell fun c => (hs.ends c).symm
    state := fun t => CallFrame.state (.of_sched (schedFrame_of_cell fun c => (hs.ends c).symm))
      hd12.quiescent hd21.quiescent (hnode t).1
    queues := fun q => ⟨queues_both hq hc1 hc2 hne hd1 hd12 hs q,
      queues_both hq hc2 hc1 hne.symm hd2 hd21 hs.swap q⟩
    otherHarts := fun j hj1 hj2 =>
      ⟨(hd12.otherHarts j hj2).trans (hd1.otherHarts j hj1),
        (hd21.otherHarts j hj1).trans (hd2.otherHarts j hj2)⟩ }

end Commute

/-- The initial task has made an endpoint. -/
def pairEndpoint : Kernel := Outcome.state
  ((dispatch 0 2 (pairStart.tasks 2).tid (argumentFrame 6 0) .zero).run (exec 0) pairStart)

theorem pairEndpoint_run : Run True .sample 2 pairEndpoint :=
  pairStart_run.trap (.call (by decide +kernel)) (Outcome.eq_ok (by decide +kernel))

/-- The initial task waits for a message, and its child destroys an endpoint in the next
slot. -/
theorem endpoint_calls_commute_sample : ∃ k1 k12 k2 k21,
    Trapped 0 2 (argumentFrame 10 0x100000000) .zero pairEndpoint k1 ∧
    Trapped 1 3 (argumentFrame 7 0x100000001) .zero k1 k12 ∧
    Trapped 1 3 (argumentFrame 7 0x100000001) .zero pairEndpoint k2 ∧
    Trapped 0 2 (argumentFrame 10 0x100000000) .zero k2 k21 ∧
    SameOutcome 0 1 2 3 pairEndpoint k1 k12 k2 k21 :=
  endpoint_calls_commute pairEndpoint_run
    ⟨by decide +kernel, by decide +kernel, by decide +kernel, .recv, by decide +kernel, rfl⟩
    ⟨by decide +kernel, by decide +kernel, by decide +kernel, .endpointDestroy, by decide +kernel,
      rfl⟩
    (by decide) (by decide +kernel) .zero .zero

end Jixia
