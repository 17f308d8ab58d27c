/-
The endpoint table as queues.

* `WaitLists k w` — the receivers blocked on the endpoint `e`, read off the links
  of the task records, are the list `w e`;
* `SlotOk` — what holds of one table slot between two lock sections;
* `waiterPop_cons`, `waiterPush_eq` — taking a receiver off the list and putting one onto it;
* `IpcInv` — the lists and all slots are in order.
-/
import Jixia.IpcManager
import Jixia.LinkedList

namespace Jixia

open LinkedList RingBuffer Function Kernel

/-! ### Handles -/

namespace EndpointHandle

/-- Packing and unpacking a handle. -/
theorem fromRaw_raw (handle : EndpointHandle) : fromRaw handle.raw = handle := by
  obtain ⟨i, g⟩ := handle
  simp only [fromRaw, raw, EndpointHandle.mk.injEq]
  constructor
  · ext j hj
    simp
  · ext j hj
    have h1 : 32 + j < 64 := by omega
    have h2 : ¬ 32 + j < 32 := by omega
    simp [h1, h2, BitVec.getLsbD_eq_getElem hj]

theorem raw_fromRaw (value : Word) : (fromRaw value).raw = value := by
  simp only [fromRaw, raw]
  ext j hj
  simp only [BitVec.getElem_or, BitVec.getElem_shiftLeft, BitVec.getElem_setWidth,
    BitVec.getLsbD_setWidth, BitVec.getLsbD_ushiftRight]
  by_cases h : j < 32
  · simp [h, BitVec.getLsbD_eq_getElem hj]
  · have h1 : j - 32 < 32 := by omega
    have h2 : 32 + (j - 32) = j := by omega
    simp [h, h1, h2, BitVec.getLsbD_eq_getElem hj]

/-- The handle of a slot names that slot. -/
theorem slot_mk (e : EndpointRef) (g : BitVec 32) :
    EndpointHandle.slot ⟨BitVec.ofNat 32 e.val, g⟩ = e := by
  apply Fin.ext
  have he : e.val < 16 := e.isLt
  have hmod : e.val % 2 ^ 32 = e.val := Nat.mod_eq_of_lt (by omega)
  simp only [EndpointHandle.slot, Fin.ofNat, BitVec.toNat_ofNat, hmod]
  exact Nat.mod_eq_of_lt he

/-- A well-formed handle is determined by its slot and its generation. -/
theorem eq_mk_of_wellFormed {a : EndpointHandle} (h : a.wellFormed = true) :
    a = ⟨BitVec.ofNat 32 a.slot.val, a.generation⟩ := by
  obtain ⟨i, g⟩ := a
  simp only [wellFormed, Bool.and_eq_true, decide_eq_true_eq, bne_iff_ne] at h
  simp only [EndpointHandle.slot, Fin.ofNat, EndpointHandle.mk.injEq, and_true]
  rw [Nat.mod_eq_of_lt h.1.1, BitVec.ofNat_toNat, BitVec.setWidth_eq]

/-- A well-formed handle is not zero and its top bit is clear. -/
theorem word_of_wellFormed {value : Word} (h : (fromRaw value).wellFormed = true) :
    value ≠ 0 ∧ value.msb = false ∧ (fromRaw value).index.toNat < kMaxEndpoints := by
  simp only [wellFormed, Bool.and_eq_true, decide_eq_true_eq, bne_iff_ne] at h
  obtain ⟨⟨hindex, hne⟩, hle⟩ := h
  refine ⟨?_, ?_, hindex⟩
  · rintro rfl
    exact hne rfl
  · have hbit : value.msb = (fromRaw value).generation.msb := by
      simp [fromRaw, BitVec.msb_eq_getLsbD_last]
    have hm : kMaxGeneration.toNat = 0x7FFFFFFF := rfl
    have hle' : (fromRaw value).generation.toNat ≤ kMaxGeneration.toNat := hle
    rw [hbit, BitVec.msb_eq_decide, decide_eq_false_iff_not]
    omega

end EndpointHandle

/-! ### Blocked receivers -/

namespace Kernel

def waitNext (k : Kernel) (t : TaskRef) : Option TaskRef := (k.tasks t).messageWait.next

def waitPrev (k : Kernel) (t : TaskRef) : Option TaskRef := (k.tasks t).messageWait.previous

/-- The same kernel with other waiting nodes. -/
def withWaitNodes (k : Kernel) (node : TaskRef → MessageWaitNode) : Kernel :=
  { k with tasks := fun t => { k.tasks t with messageWait := node t } }

/-- The handle names a live endpoint. -/
def IsLive (k : Kernel) (parsed : EndpointHandle) : Prop :=
  (k.endpoints parsed.slot).active = true ∧
    (k.endpoints parsed.slot).generation = parsed.generation

instance (k : Kernel) (parsed : EndpointHandle) : Decidable (k.IsLive parsed) :=
  inferInstanceAs (Decidable (_ ∧ _))

end Kernel

/-- The waiting FIFO of every endpoint is the list `w e`. -/
structure WaitLists (k : Kernel) (w : EndpointRef → List TaskRef) : Prop where
  family : Family k.waitNext k.waitPrev (fun t => (k.tasks t).messageWait.queued = true)
    (fun e => (k.endpoints e).waitingHead) (fun e => (k.endpoints e).waitingTail) w
  count : ∀ e, (k.endpoints e).waitingCount = (w e).length

namespace WaitLists

variable {k k' : Kernel} {w : EndpointRef → List TaskRef} {e : EndpointRef}
  {t : TaskRef} {l rest : List TaskRef}

theorem holds (h : WaitLists k w) (e : EndpointRef) :
    Holds k.waitNext k.waitPrev (k.endpoints e).waitingHead (k.endpoints e).waitingTail (w e) :=
  h.family.holds e

theorem queued (h : WaitLists k w) (t : TaskRef) :
    (k.tasks t).messageWait.queued = true ↔ ∃ e, t ∈ w e :=
  h.family.queued_iff t

/-- Only the endpoints and the waiting nodes matter. -/
theorem congr (h : WaitLists k w)
    (he : ∀ e, (k'.endpoints e).waitingHead = (k.endpoints e).waitingHead ∧
      (k'.endpoints e).waitingTail = (k.endpoints e).waitingTail ∧
      (k'.endpoints e).waitingCount = (k.endpoints e).waitingCount)
    (ht : ∀ t, (k'.tasks t).messageWait = (k.tasks t).messageWait) : WaitLists k' w where
  family := by
    refine h.family.congr (fun e t _ => ?_) (fun e t _ => ?_) (fun t => ?_)
      (fun e => (he e).1) fun e => (he e).2.1
    · rw [waitNext, ht t]; rfl
    · rw [waitPrev, ht t]; rfl
    · rw [ht t]
  count e := by rw [(he e).2.2, h.count e]

/-! ### Taking a receiver off, and putting one on -/

/-- The waiting nodes after `t` was taken off. -/
def popNode (k : Kernel) (t u : TaskRef) : MessageWaitNode :=
  { previous := delPrev k.waitNext k.waitPrev t u
    next := delNext k.waitNext k.waitPrev t u
    queued := if u = t then false else (k.tasks u).messageWait.queued }

/-- The waiting nodes after `t` was put behind the receiver `tail`. -/
def pushNode (k : Kernel) (tail : Option TaskRef) (t u : TaskRef) : MessageWaitNode :=
  { previous := insPrev k.waitPrev tail none t u
    next := insNext k.waitNext tail none t u
    queued := if u = t then true else (k.tasks u).messageWait.queued }

/-- The kernel after the receiver `t` was taken off the FIFO of `e`, which then
is `rest`. -/
def popped (k : Kernel) (e : EndpointRef) (t : TaskRef) (rest : List TaskRef) : Kernel :=
  (k.withWaitNodes (popNode k t)).modifyEndpoint e fun endpoint => { endpoint with
    waitingHead := rest.head?, waitingTail := rest.getLast?, waitingCount := rest.length }

/-- The kernel after the receiver `t` was put behind the FIFO `l` of `e`. -/
def pushed (k : Kernel) (e : EndpointRef) (t : TaskRef) (l : List TaskRef) : Kernel :=
  (k.withWaitNodes (pushNode k l.getLast? t)).modifyEndpoint e fun endpoint => { endpoint with
    waitingHead := (l ++ [t]).head?, waitingTail := some t, waitingCount := l.length + 1 }

/-- Writing the successor and the node itself changes all nodes as `popNode`
says. -/
theorem update_eq_popNode {b : Option TaskRef} (hnext : k.waitNext t = b)
    (hprev : k.waitPrev t = none) :
    update
      (b.elim k.tasks fun b => update k.tasks b
        { k.tasks b with messageWait := { (k.tasks b).messageWait with previous := none } }) t
      { k.tasks t with messageWait := {} } = (k.withWaitNodes (popNode k t)).tasks := by
  simp only [waitNext, waitPrev] at hnext hprev
  funext u
  by_cases hu : u = t
  · subst hu
    simp [withWaitNodes, popNode, delNext, delPrev]
  · rw [update_of_ne hu]
    cases b with
    | none =>
      simp [withWaitNodes, popNode, delNext, delPrev, hu, waitNext, hnext,
        waitPrev, hprev]
    | some b =>
      by_cases hb : u = b
      · subst hb
        simp [withWaitNodes, popNode, delNext, delPrev, hu, waitNext, hnext,
          waitPrev, hprev]
      · simp [withWaitNodes, popNode, delNext, delPrev, hu, hb, Ne.symm hb,
          waitNext, hnext, waitPrev, hprev]

theorem waiterPop_nil (h : WaitLists k w) (he : w e = []) : k.waiterPop e = (none, k) := by
  have hh := (h.holds e).head_eq
  rw [he, List.head?_nil] at hh
  rw [waiterPop, hh]

theorem waiterPop_cons (h : WaitLists k w) (he : w e = t :: rest) :
    k.waiterPop e = (some t, popped k e t rest) := by
  have hl := h.holds e
  have hc := h.count e
  rw [he] at hl hc
  obtain ⟨hnext, hprev⟩ := Holds.neighbours [] hl
  have hhead : (k.endpoints e).waitingHead = some t := hl.head_eq
  have hcnt : (k.endpoints e).waitingCount - 1 = rest.length := by
    rw [hc, List.length_cons, Nat.add_sub_cancel]
  have htasks := update_eq_popNode hnext hprev
  rw [waiterPop, hhead]
  simp only [show (k.tasks t).messageWait.next = rest.head? from hnext]
  cases hr : rest.head? with
  | none =>
    have hnil : rest = [] := List.head?_eq_none_iff.mp hr
    subst hnil
    simp only [List.head?_nil, Option.elim_none] at htasks
    simp only [modifyEndpoint, modifyTask, popped, update_self,
      update_idem, htasks, hcnt]
    rfl
  | some b =>
    have hbt : b ≠ t := fun hb =>
      (List.nodup_cons.mp hl.nodup).1 (hb ▸ List.mem_of_head? hr)
    have htail : (k.endpoints e).waitingTail = rest.getLast? := by
      rw [hl.tail_eq]
      cases rest with
      | nil => cases hr
      | cons c l => rw [List.getLast?_cons_cons]
    simp only [hr, Option.elim_some] at htasks
    simp only [modifyEndpoint, modifyTask, popped, update_self,
      update_idem, update_of_ne hbt.symm, htasks, hcnt, htail, hr]
    rfl

/-- Writing the old tail and the node itself changes all nodes as `pushNode`
says. -/
theorem update_eq_pushNode {tail : Option TaskRef} (hne : tail ≠ some t) :
    update
      (tail.elim
        (update k.tasks t { k.tasks t with
          messageWait := { (k.tasks t).messageWait with previous := tail, next := none } })
        fun b => update (update k.tasks t { k.tasks t with
            messageWait := { (k.tasks t).messageWait with previous := tail, next := none } }) b
          { k.tasks b with messageWait := { (k.tasks b).messageWait with next := some t } }) t
      { k.tasks t with messageWait := { previous := tail, next := none, queued := true } } =
    (k.withWaitNodes (pushNode k tail t)).tasks := by
  funext u
  by_cases hu : u = t
  · subst hu
    simp [withWaitNodes, pushNode, insNext, insPrev]
  · rw [update_of_ne hu]
    cases tail with
    | none => simp [withWaitNodes, pushNode, insNext, insPrev, hu, waitNext,
        waitPrev]
    | some b =>
      by_cases hb : u = b
      · subst hb
        simp [withWaitNodes, pushNode, insNext, insPrev, hu, waitPrev]
      · simp [withWaitNodes, pushNode, insNext, insPrev, hu, hb, Ne.symm hb,
          waitNext, waitPrev]

theorem waiterPush_eq (h : WaitLists k w) (ht : t ∉ w e) :
    k.waiterPush e t = pushed k e t (w e) := by
  have htail := (h.holds e).tail_eq
  have hcnt := h.count e
  have hne : (w e).getLast? ≠ some t := fun hh => ht (List.mem_of_getLast? hh)
  have htasks := update_eq_pushNode (k := k) hne
  rw [waiterPush]
  simp only [htail]
  cases hr : (w e).getLast? with
  | none =>
    have hnil : w e = [] := List.getLast?_eq_none_iff.mp hr
    rw [hnil] at hcnt
    simp only [hr, Option.elim_none, update_idem] at htasks
    simp only [modifyEndpoint, modifyTask, pushed, update_self,
      update_idem, htasks, hcnt, hnil]
    rfl
  | some b =>
    have hbt : b ≠ t := fun hb => hne (hb ▸ hr)
    have hhead : (k.endpoints e).waitingHead = (w e ++ [t]).head? := by
      rw [(h.holds e).head_eq]
      cases hw : w e with
      | nil => rw [hw] at hr; cases hr
      | cons c l => rfl
    simp only [hr, Option.elim_some] at htasks
    simp only [modifyEndpoint, modifyTask, pushed, update_self,
      update_idem, update_of_ne hbt.symm, update_of_ne hbt, htasks,
      hcnt, hhead, hr]
    rfl

/-- Taking the first receiver off. -/
theorem pop (h : WaitLists k w) (he : w e = t :: rest) :
    WaitLists (popped k e t rest) (update w e rest) where
  family := by
    have hd := h.family.delete (show w e = [] ++ t :: rest from he)
    refine hd.congr (fun _ _ _ => rfl) (fun _ _ _ => rfl) (fun u => ?_) (fun e' => ?_) fun e' => ?_
    · simp only [popped, modifyEndpoint_tasks, withWaitNodes, popNode]
      by_cases hu : u = t <;> simp [hu]
    · by_cases he' : e' = e
      · subst he'
        simp [popped]
      · simp [popped, he', withWaitNodes]
    · by_cases he' : e' = e
      · subst he'
        simp [popped]
      · simp [popped, he', withWaitNodes]
  count e' := by
    by_cases he' : e' = e
    · subst he'
      simp [popped]
    · simp [popped, he', withWaitNodes, h.count]

/-- Putting a receiver that waits nowhere behind the others. -/
theorem push (h : WaitLists k w) (ht : (k.tasks t).messageWait.queued = false) :
    WaitLists (pushed k e t (w e)) (update w e (w e ++ [t])) where
  family := by
    have hnot : ¬ (k.tasks t).messageWait.queued = true := by simp [ht]
    have hi := h.family.insert (List.append_nil (w e)).symm hnot
    refine hi.congr (fun _ _ _ => rfl) (fun _ _ _ => rfl) (fun u => ?_) (fun e' => ?_) fun e' => ?_
    · simp only [pushed, modifyEndpoint_tasks, withWaitNodes, pushNode]
      by_cases hu : u = t <;> simp [hu]
    · by_cases he' : e' = e
      · subst he'
        simp [pushed]
      · simp [pushed, he', withWaitNodes]
    · by_cases he' : e' = e
      · subst he'
        simp [pushed]
      · simp [pushed, he', withWaitNodes]
  count e' := by
    by_cases he' : e' = e
    · subst he'
      simp [pushed]
    · simp [pushed, he', withWaitNodes, h.count]

end WaitLists

/-! ### Table slots -/

/-- One slot of the table: its allocation bit, its record and its blocked
receivers. -/
structure SlotOk (allocated : Bool) (endpoint : Endpoint) (waiters : List TaskRef) : Prop where
  allocated_eq : allocated = (endpoint.active || endpoint.retired)
  active_or_retired : ¬ (endpoint.active = true ∧ endpoint.retired = true)
  count_le : endpoint.count ≤ kEndpointQueueDepth
  exclusive : endpoint.count = 0 ∨ waiters = []
  generation_le : endpoint.generation ≤ kMaxGeneration
  active_generation : endpoint.active = true → endpoint.generation ≠ 0
  dead : endpoint.active = false → endpoint.owner = 0 ∧ endpoint.count = 0
  retired_generation : endpoint.retired = true → endpoint.generation = kMaxGeneration

/-- The endpoint table is well formed.  A dead endpoint has no blocked receivers,
except while it is being destroyed. -/
structure IpcInv (k : Kernel) (w : EndpointRef → List TaskRef) (dying : EndpointRef → Prop) :
    Prop where
  lists : WaitLists k w
  slots : ∀ e, SlotOk (k.slotAllocated e) (k.endpoints e) (w e)
  quiet : ∀ e, ¬ dying e → (k.endpoints e).active = false → w e = []

/-- The part of the state that belongs to the endpoint manager is the same. -/
structure SameIpc (k k' : Kernel) : Prop where
  endpoints : k'.endpoints = k.endpoints
  slotAllocated : k'.slotAllocated = k.slotAllocated
  node : ∀ t, (k'.tasks t).messageWait = (k.tasks t).messageWait

theorem SameIpc.refl (k : Kernel) : SameIpc k k := ⟨rfl, rfl, fun _ => rfl⟩

theorem SameIpc.trans {k1 k2 k3 : Kernel} (h : SameIpc k1 k2) (h' : SameIpc k2 k3) :
    SameIpc k1 k3 :=
  ⟨h'.endpoints.trans h.endpoints, h'.slotAllocated.trans h.slotAllocated,
    fun t => (h'.node t).trans (h.node t)⟩

variable {k k' : Kernel} {w : EndpointRef → List TaskRef} {dying : EndpointRef → Prop}
  {e : EndpointRef} {t : TaskRef} {rest : List TaskRef}

theorem IpcInv.same (h : IpcInv k w dying) (hs : SameIpc k k') : IpcInv k' w dying where
  lists := h.lists.congr (fun e => by rw [hs.endpoints]; exact ⟨rfl, rfl, rfl⟩) hs.node
  slots e := by rw [hs.endpoints, hs.slotAllocated]; exact h.slots e
  quiet e := by rw [hs.endpoints]; exact h.quiet e

theorem IpcInv.weaken {dying' : EndpointRef → Prop} (h : IpcInv k w dying)
    (hd : ∀ e, dying e → dying' e) : IpcInv k w dying' :=
  ⟨h.lists, h.slots, fun e hn => h.quiet e fun he => hn (hd e he)⟩

end Jixia
