/-
What the calls of the endpoint manager touch.

A call on an endpoint reads and writes the slot of the endpoint, the record of the caller
and the records of the receivers that wait there; scheduling apart, it leaves all else
alone.  `Kernel.cell` observes the kernel in such cells, without what only scheduling
writes.

* `SchedFrame.cell`, `schedFrame_of_cell` — kernels with the same cells differ in
  scheduling only;
* `SendCase.twin`, `RecvCase.twin`, ... — a lock section taken from two kernels that agree
  on the footprint of a call does the same in both.
-/
import Jixia.Footprint
import Jixia.IpcCalls

namespace Jixia

open Footprint WaitLists LinkedList Function Kernel EndpointHandle

variable {k k' x y x' y' x1 y1 : Kernel} {S : Set Cell} {e : EndpointRef} {t u : TaskRef}

/-! ### Cells -/

/-- The parts of the kernel a call may touch. -/
inductive Cell
  | endpoint (e : EndpointRef)
  | task (t : TaskRef)
  | rest

/-- The task record without what scheduling writes. -/
def Task.data (task : Task) : Task :=
  { task with cpu := none, state := .zero, queued := false, previous := none, next := none }

def Cell.Value : Cell → Type
  | .endpoint _ => Endpoint × Bool
  | .task _ => Task
  | .rest => Kernel

/-- What is in a cell. -/
def Kernel.cell : (c : Cell) → Kernel → c.Value
  | .endpoint e, k => (k.endpoints e, k.slotAllocated e)
  | .task t, k => (k.tasks t).data
  | .rest, k =>
    { k with
      tasks := fun _ => {}, endpoints := fun _ => {}, slotAllocated := fun _ => false
      harts := fun _ => {}, runQueues := fun _ => {}, locks := fun _ => none }

/-- Scheduling cannot be observed. -/
theorem SchedFrame.cell (h : SchedFrame k k') (c : Cell) : k'.cell c = k.cell c := by
  cases c with
  | endpoint e =>
    show (k'.endpoints e, k'.slotAllocated e) = _
    rw [h.rest]
    rfl
  | task t =>
    show (k'.tasks t).data = _
    rw [h.task t]
    rfl
  | rest =>
    rw [h.rest]
    rfl

/-- Kernels that look the same differ in scheduling only. -/
theorem schedFrame_of_cell (h : ∀ c, k'.cell c = k.cell c) : SchedFrame k k' := by
  have hep : k'.endpoints = k.endpoints :=
    funext fun e => congrArg Prod.fst (show (_, _) = (_, _) from h (.endpoint e))
  have hal : k'.slotAllocated = k.slotAllocated :=
    funext fun e => congrArg Prod.snd (show (_, _) = (_, _) from h (.endpoint e))
  have hrest : k' = { k with
      tasks := k'.tasks, endpoints := k'.endpoints, slotAllocated := k'.slotAllocated
      harts := k'.harts, runQueues := k'.runQueues, locks := k'.locks } :=
    congrArg (fun d : Kernel => { d with
      tasks := k'.tasks, endpoints := k'.endpoints, slotAllocated := k'.slotAllocated
      harts := k'.harts, runQueues := k'.runQueues, locks := k'.locks }) (h .rest)
  refine ⟨fun t => ?_, ?_⟩
  · exact congrArg (fun d : Task => { d with
      cpu := (k'.tasks t).cpu, state := (k'.tasks t).state, queued := (k'.tasks t).queued
      previous := (k'.tasks t).previous, next := (k'.tasks t).next }) (h (.task t))
  · rw [hep, hal] at hrest
    exact hrest

/-! ### Writing cells -/

theorem agree_endpoint (h : Agree cell S x y) (he : .endpoint e ∈ S) :
    y.endpoints e = x.endpoints e ∧ y.slotAllocated e = x.slotAllocated e :=
  Prod.mk.inj (h _ he).symm

theorem agree_data (h : Agree cell S x y) (ht : .task t ∈ S) :
    (y.tasks t).data = (x.tasks t).data := (h _ ht).symm

theorem node_of_cell (h : x.cell (.task t) = y.cell (.task t)) :
    (y.tasks t).messageWait = (x.tasks t).messageWait ∧
      (y.tasks t).context = (x.tasks t).context := by
  have hdata : (x.tasks t).data = (y.tasks t).data := h
  simp only [Task.data, Task.mk.injEq] at hdata
  exact ⟨by tauto, by tauto⟩

theorem agree_node (h : Agree cell S x y) (ht : .task t ∈ S) :
    (y.tasks t).messageWait = (x.tasks t).messageWait := (node_of_cell (h _ ht)).1

/-- Write the record of a task in the footprint. -/
theorem twin_modifyTask (h : Twin cell S x y x' y') (ht : .task t ∈ S) {f : Task → Task}
    (hf : ∀ task, (f task).data = (f task.data).data) :
    Twin cell S x y (x'.modifyTask t f) (y'.modifyTask t f) := by
  have hout : ∀ z : Kernel, Agree cell Sᶜ z (z.modifyTask t f) := by
    intro z c hc
    cases c with
    | endpoint e => rfl
    | rest => rfl
    | task u =>
      have hut : u ≠ t := by
        rintro rfl
        exact hc ht
      show (z.tasks u).data = ((z.modifyTask t f).tasks u).data
      rw [modifyTask_tasks, update_of_ne hut]
  refine h.trans ⟨fun c hc => ?_, hout x', hout y'⟩
  cases c with
  | endpoint e => exact h.same _ hc
  | rest => exact h.same _ hc
  | task u =>
    show ((x'.modifyTask t f).tasks u).data = ((y'.modifyTask t f).tasks u).data
    by_cases hut : u = t
    · subst hut
      have hdata : (x'.tasks u).data = (y'.tasks u).data := h.same _ hc
      rw [modifyTask_tasks, modifyTask_tasks, update_self,
        update_self, hf, hdata, ← hf]
    · rw [modifyTask_tasks, modifyTask_tasks, update_of_ne hut,
        update_of_ne hut]
      exact h.same _ hc

/-- Write the slot of an endpoint in the footprint. -/
theorem twin_setSlot (h : Twin cell S x y x' y') (he : .endpoint e ∈ S)
    {f : Endpoint × Bool → Endpoint × Bool}
    (hx : x1 = { x' with
      endpoints := update x'.endpoints e (f (x'.endpoints e, x'.slotAllocated e)).1
      slotAllocated :=
        update x'.slotAllocated e (f (x'.endpoints e, x'.slotAllocated e)).2 })
    (hy : y1 = { y' with
      endpoints := update y'.endpoints e (f (y'.endpoints e, y'.slotAllocated e)).1
      slotAllocated :=
        update y'.slotAllocated e (f (y'.endpoints e, y'.slotAllocated e)).2 }) :
    Twin cell S x y x1 y1 := by
  have hout : ∀ z z1 : Kernel, z1 = { z with
      endpoints := update z.endpoints e (f (z.endpoints e, z.slotAllocated e)).1
      slotAllocated :=
        update z.slotAllocated e (f (z.endpoints e, z.slotAllocated e)).2 } →
      Agree cell Sᶜ z z1 := by
    rintro z z1 rfl c hc
    cases c with
    | task t => rfl
    | rest => rfl
    | endpoint e' =>
      have hne : e' ≠ e := by
        rintro rfl
        exact hc he
      show (z.endpoints e', z.slotAllocated e') =
        (update z.endpoints e _ e', update z.slotAllocated e _ e')
      rw [update_of_ne hne, update_of_ne hne]
  refine h.trans ⟨fun c hc => ?_, hout x' x1 hx, hout y' y1 hy⟩
  subst hx hy
  cases c with
  | task t => exact h.same _ hc
  | rest => exact h.same _ hc
  | endpoint e' =>
    have hslot : (x'.endpoints e', x'.slotAllocated e') = (y'.endpoints e', y'.slotAllocated e') :=
      h.same _ hc
    show (update x'.endpoints e _ e', update x'.slotAllocated e _ e') =
      (update y'.endpoints e _ e', update y'.slotAllocated e _ e')
    by_cases hne : e' = e
    · subst hne
      rw [update_self, update_self, update_self, update_self,
        hslot]
    · rw [update_of_ne hne, update_of_ne hne, update_of_ne hne,
        update_of_ne hne, hslot]

theorem twin_modifyEndpoint (h : Twin cell S x y x' y') (he : .endpoint e ∈ S)
    (f : Endpoint → Endpoint) :
    Twin cell S x y (x'.modifyEndpoint e f) (y'.modifyEndpoint e f) := by
  refine twin_setSlot (f := fun slot => (f slot.1, slot.2)) h he ?_ ?_
  · rw [update_eq_self]
    rfl
  · rw [update_eq_self]
    rfl

/-- Write a register of a task in the footprint. -/
theorem twin_setReg (h : Twin cell S x y x' y') (ht : .task t ∈ S) (i : Fin 32)
    (value : Word) : Twin cell S x y (x'.setReg t i value) (y'.setReg t i value) :=
  twin_modifyTask h ht fun _ => rfl

theorem twin_writeRecvRegisters (h : Twin cell S x y x' y') (ht : .task t ∈ S) (a0 : ℤ)
    (message : Message) : Twin cell S x y (x'.writeRecvRegisters t a0 message)
      (y'.writeRecvRegisters t a0 message) :=
  twin_modifyTask h ht fun _ => rfl

/-! ### The waiting FIFO -/

section Nodes

variable {rest l : List TaskRef} {w w' : EndpointRef → List TaskRef}

/-- New waiting nodes, which are the old ones outside of the footprint. -/
theorem twin_withWaitNodes (h : Agree cell S x y) {node node' : TaskRef → MessageWaitNode}
    (hsame : ∀ u, .task u ∈ S → node u = node' u)
    (hx : ∀ u, .task u ∉ S → node u = (x.tasks u).messageWait)
    (hy : ∀ u, .task u ∉ S → node' u = (y.tasks u).messageWait) :
    Twin cell S x y (x.withWaitNodes node) (y.withWaitNodes node') := by
  have hout : ∀ (z : Kernel) (n : TaskRef → MessageWaitNode),
      (∀ u, .task u ∉ S → n u = (z.tasks u).messageWait) →
      Agree cell Sᶜ z (z.withWaitNodes n) := by
    intro z n hn c hc
    cases c with
    | endpoint e => rfl
    | rest => rfl
    | task u =>
      show (z.tasks u).data = ({ z.tasks u with messageWait := n u } : Task).data
      rw [hn u hc]
  refine ⟨fun c hc => ?_, hout x node hx, hout y node' hy⟩
  cases c with
  | endpoint e => exact h _ hc
  | rest => exact h _ hc
  | task u =>
    have hdata : (x.tasks u).data = (y.tasks u).data := h _ hc
    show ({ (x.tasks u).data with messageWait := node u } : Task) =
      { (y.tasks u).data with messageWait := node' u }
    rw [hdata, hsame u hc]

theorem waitNext_congr (ht : (y.tasks t).messageWait = (x.tasks t).messageWait) :
    y.waitNext t = x.waitNext t := by
  rw [waitNext, ht, waitNext]

theorem waitPrev_congr (ht : (y.tasks t).messageWait = (x.tasks t).messageWait) :
    y.waitPrev t = x.waitPrev t := by
  rw [waitPrev, ht, waitPrev]

theorem popNode_congr (ht : (y.tasks t).messageWait = (x.tasks t).messageWait)
    (hu : (y.tasks u).messageWait = (x.tasks u).messageWait) : popNode x t u = popNode y t u := by
  simp only [popNode, delPrev, delNext]
  rw [waitNext_congr ht, waitPrev_congr ht, waitNext_congr hu, waitPrev_congr hu, hu]

/-- Taking `t` off leaves the nodes of those that are not its neighbours. -/
theorem popNode_of_ne (hut : u ≠ t) (hnext : x.waitNext t ≠ some u)
    (hprev : x.waitPrev t ≠ some u) : popNode x t u = (x.tasks u).messageWait := by
  simp only [popNode, delPrev, delNext, if_neg hut, if_neg hnext, if_neg hprev]
  rfl

theorem pushNode_congr {tail : Option TaskRef}
    (hu : (y.tasks u).messageWait = (x.tasks u).messageWait) :
    pushNode x tail t u = pushNode y tail t u := by
  simp only [pushNode, insPrev, insNext]
  rw [waitNext_congr hu, waitPrev_congr hu, hu]

theorem pushNode_of_ne {tail : Option TaskRef} (hut : u ≠ t) (htail : tail ≠ some u) :
    pushNode x tail t u = (x.tasks u).messageWait := by
  simp only [pushNode, insPrev, insNext, if_neg hut, if_neg htail]
  rfl

/-- Take the first receiver off. -/
theorem twin_popped (h : Agree cell S x y) (he : .endpoint e ∈ S)
    (hx : WaitLists x w) (hy : WaitLists y w') (hw : w e = t :: rest) (hw' : w' e = t :: rest)
    (hmem : ∀ u ∈ w e, .task u ∈ S) :
    Twin cell S x y (popped x e t rest) (popped y e t rest) := by
  have ht : .task t ∈ S := hmem t (by rw [hw]; exact List.mem_cons_self)
  -- The neighbours of `t` wait here too.
  have hother : ∀ (z : Kernel) (v : EndpointRef → List TaskRef), WaitLists z v →
      v e = t :: rest → ∀ u, .task u ∉ S → popNode z t u = (z.tasks u).messageWait := by
    intro z v hz hv u hu
    have hl := hz.holds e
    rw [hv] at hl
    obtain ⟨hnext, hprev⟩ := Holds.neighbours [] hl
    refine popNode_of_ne (fun hut => hu (hut ▸ ht)) (fun hn => hu ?_) fun hp => ?_
    · rw [hnext] at hn
      refine hmem u ?_
      rw [hw]
      exact List.mem_cons_of_mem t (List.mem_of_head? hn)
    · rw [hprev] at hp
      cases hp
  refine twin_modifyEndpoint (twin_withWaitNodes h (fun u hu => ?_) (hother x w hx hw)
    (hother y w' hy hw')) he _
  exact popNode_congr (agree_node h ht) (agree_node h hu)

/-- Put a receiver behind the others. -/
theorem twin_pushed (h : Agree cell S x y) (he : .endpoint e ∈ S) (ht : .task t ∈ S)
    (hmem : ∀ u ∈ l, .task u ∈ S) :
    Twin cell S x y (pushed x e t l) (pushed y e t l) := by
  have hother : ∀ (z : Kernel) u, .task u ∉ S →
      pushNode z l.getLast? t u = (z.tasks u).messageWait := by
    intro z u hu
    refine pushNode_of_ne (fun hut => hu (hut ▸ ht)) fun hlast => hu ?_
    exact hmem u (List.mem_of_getLast? hlast)
  refine twin_modifyEndpoint (twin_withWaitNodes h (fun u hu => ?_) (hother x) (hother y)) he _
  exact pushNode_congr (agree_node h hu)

end Nodes

/-! ### The lock sections -/

section Sections

variable {w w' : EndpointRef → List TaskRef} {dying dying' : EndpointRef → Prop}
  {parsed : EndpointHandle} {rest : List TaskRef}

theorem isLive_congr (he : y.endpoints parsed.slot = x.endpoints parsed.slot) :
    y.IsLive parsed ↔ x.IsLive parsed := by
  rw [Kernel.IsLive, Kernel.IsLive, he]

theorem twin_handedOver (h : Agree cell S x y) (he : .endpoint e ∈ S)
    (hx : WaitLists x w) (hy : WaitLists y w') (hw : w e = t :: rest) (hw' : w' e = t :: rest)
    (hmem : ∀ u ∈ w e, .task u ∈ S) (message : Message) :
    Twin cell S x y (handedOver x e t rest message) (handedOver y e t rest message) := by
  have ht : .task t ∈ S := hmem t (by rw [hw]; exact List.mem_cons_self)
  exact twin_modifyTask
    (twin_writeRecvRegisters (twin_popped h he hx hy hw hw' hmem) ht 0 message) ht fun _ => rfl

/-- The section of `send`. -/
theorem SendCase.twin (h : Agree cell S x y) (he : .endpoint parsed.slot ∈ S)
    (hx : WaitLists x w) (hy : WaitLists y w') (hw : w' parsed.slot = w parsed.slot)
    (hmem : ∀ u ∈ w parsed.slot, .task u ∈ S) {message : Message} {step step' : SendStep}
    (hcx : SendCase x w parsed message step x') (hcy : SendCase y w' parsed message step' y') :
    step' = step ∧ Twin cell S x y x' y' := by
  have hep := (agree_endpoint h he).1
  have hlive := isLive_congr hep
  cases hcx with
  | stale hs =>
    cases hcy with
    | stale _ => exact ⟨rfl, .start h⟩
    | wake hl _ | full hl _ _ | queued hl _ _ => exact absurd (hlive.mp hl) hs
  | @wake t rest hl hwait =>
    cases hcy with
    | stale hs => exact absurd (hlive.mpr hl) hs
    | @wake t' rest' _ hwait' =>
      rw [hw, hwait] at hwait'
      cases hwait'
      exact ⟨rfl, twin_handedOver h he hx hy hwait (hw.trans hwait) hmem message⟩
    | full _ hnone _ | queued _ hnone _ =>
      rw [hw, hwait] at hnone
      cases hnone
  | full hl hnone hfull =>
    cases hcy with
    | stale hs => exact absurd (hlive.mpr hl) hs
    | wake _ hwait =>
      rw [hw, hnone] at hwait
      cases hwait
    | full _ _ _ => exact ⟨rfl, .start h⟩
    | queued _ _ hlt =>
      rw [hep, hfull] at hlt
      exact absurd hlt (lt_irrefl _)
  | queued hl hnone hlt =>
    cases hcy with
    | stale hs => exact absurd (hlive.mpr hl) hs
    | wake _ hwait =>
      rw [hw, hnone] at hwait
      cases hwait
    | full _ _ hfull =>
      rw [hep] at hfull
      exact absurd hfull hlt.ne
    | queued _ _ _ => exact ⟨rfl, twin_modifyEndpoint (.start h) he _⟩

/-- The section of `try_recv`. -/
theorem TryRecvCase.twin (h : Agree cell S x y) (he : .endpoint parsed.slot ∈ S)
    {result result' : ℤ ⊕ Message} (hcx : TryRecvCase x parsed result x')
    (hcy : TryRecvCase y parsed result' y') :
    result' = result ∧ Twin cell S x y x' y' := by
  have hep := (agree_endpoint h he).1
  have hlive := isLive_congr hep
  cases hcx with
  | stale hs =>
    cases hcy with
    | stale _ => exact ⟨rfl, .start h⟩
    | empty hl _ | message hl _ => exact absurd (hlive.mp hl) hs
  | empty hl hzero =>
    cases hcy with
    | stale hs => exact absurd (hlive.mpr hl) hs
    | empty _ _ => exact ⟨rfl, .start h⟩
    | message _ hpos =>
      rw [hep] at hpos
      exact absurd hzero hpos.ne'
  | message hl hpos =>
    cases hcy with
    | stale hs => exact absurd (hlive.mpr hl) hs
    | empty _ hzero =>
      rw [hep] at hzero
      exact absurd hzero hpos.ne'
    | message _ _ =>
      rw [hep]
      exact ⟨rfl, twin_modifyEndpoint (.start h) he _⟩

/-- The section of `recv`. -/
theorem RecvCase.twin {caller : TaskRef} {handle : Word} (h : Agree cell S x y)
    (he : .endpoint (fromRaw handle).slot ∈ S) (hc : .task caller ∈ S)
    (hw : w' (fromRaw handle).slot = w (fromRaw handle).slot)
    (hmem : ∀ u ∈ w (fromRaw handle).slot, .task u ∈ S)
    {status status' : RecvStatus} (hcx : RecvCase x w caller handle status x')
    (hcy : RecvCase y w' caller handle status' y') :
    status' = status ∧ Twin cell S x y x' y' := by
  have hep := (agree_endpoint h he).1
  have hlive := isLive_congr hep
  cases hcx with
  | stale hs =>
    cases hcy with
    | stale _ => exact ⟨rfl, twin_setReg (.start h) hc ..⟩
    | message hl _ | block hl _ => exact absurd (hlive.mp hl) hs
  | message hl hpos =>
    cases hcy with
    | stale hs => exact absurd (hlive.mpr hl) hs
    | message _ _ =>
      rw [hep]
      exact ⟨rfl, twin_writeRecvRegisters (twin_modifyEndpoint (.start h) he _) hc ..⟩
    | block _ hzero =>
      rw [hep] at hzero
      exact absurd hzero hpos.ne'
  | block hl hzero =>
    cases hcy with
    | stale hs => exact absurd (hlive.mpr hl) hs
    | message _ hpos =>
      rw [hep] at hpos
      exact absurd hzero hpos.ne'
    | block _ _ =>
      rw [hw]
      exact ⟨rfl, twin_modifyTask (twin_pushed h he hc hmem) hc fun _ => rfl⟩

theorem twin_killed (h : Agree cell S x y) (he : .endpoint e ∈ S) :
    Twin cell S x y (killed x e) (killed y e) := by
  have hkill : ∀ z : Kernel, killed z e = { z with
      endpoints := update z.endpoints e (deadEndpoint (z.endpoints e))
      slotAllocated := update z.slotAllocated e
        (if kMaxGeneration ≤ (z.endpoints e).generation then z.slotAllocated e else false) } := by
    intro z
    rw [killed]
    split
    · rw [update_eq_self]
    · rfl
  exact twin_setSlot (f := fun slot => (deadEndpoint slot.1,
    if kMaxGeneration ≤ slot.1.generation then slot.2 else false)) (.start h) he (hkill x) (hkill y)

/-- The section of `destroy_endpoint`, up to the wakes. -/
theorem DestroyCase.twin (h : Agree cell S x y) (he : .endpoint parsed.slot ∈ S)
    {caller : TaskId} {step step' : DestroyStep} (hcx : DestroyCase x caller parsed step x')
    (hcy : DestroyCase y caller parsed step' y') :
    step' = step ∧ Twin cell S x y x' y' := by
  have hep := (agree_endpoint h he).1
  have hlive := isLive_congr hep
  cases hcx with
  | stale hs =>
    cases hcy with
    | stale _ => exact ⟨rfl, .start h⟩
    | denied hl _ | dead hl _ => exact absurd (hlive.mp hl) hs
  | denied hl howner =>
    cases hcy with
    | stale hs => exact absurd (hlive.mpr hl) hs
    | denied _ _ => exact ⟨rfl, .start h⟩
    | dead _ howner' =>
      rw [hep] at howner'
      exact absurd howner' howner
  | dead hl howner =>
    cases hcy with
    | stale hs => exact absurd (hlive.mpr hl) hs
    | denied _ howner' =>
      rw [hep] at howner'
      exact absurd howner howner'
    | dead _ _ => exact ⟨rfl, twin_killed h he⟩

/-- The wakes of `destroy_endpoint`, by induction on the receivers that wait. -/
theorem Wakes.twin {l : List TaskRef} (hcx : Wakes e l x x') (hcy : Wakes e l y y')
    (h : Agree cell S x y) (he : .endpoint e ∈ S) (hx : IpcInv x w dying)
    (hy : IpcInv y w' dying') (hw : w e = l) (hw' : w' e = l) (hmem : ∀ u ∈ l, .task u ∈ S) :
    Twin cell S x y x' y' := by
  induction hcx generalizing y w w' with
  | done hf =>
    cases hcy with
    | done hf' => exact (Twin.start h).congr hf.cell hf'.cell
  | @wake t rest k k1 k' hf _ ih =>
    cases hcy with
    | @wake _ _ _ y1 _ hf' hrest' =>
      have ht : .task t ∈ S := hmem t List.mem_cons_self
      have hpop := twin_popped h he hx.lists hy.lists hw hw' (hw ▸ hmem)
      have hrev : Twin cell S k y (revoked k e t rest) (revoked y e t rest) :=
        twin_setReg (twin_modifyTask hpop ht fun _ => rfl) ht ..
      have hstep := hrev.congr hf.cell hf'.cell
      refine hstep.trans (ih hrest' hstep.same ((hx.revoked hw).same hf.sameIpc)
        ((hy.revoked hw').same hf'.sameIpc) (update_self ..) (update_self ..)
        fun u hu => hmem u (List.mem_cons_of_mem t hu))

end Sections

end Jixia
