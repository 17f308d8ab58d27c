/-
The lock sections of the endpoint manager, by cases.

For every section there is an inductive relation that lists its branches with
their conditions and the state each one leaves (`SendCase`, `RecvCase`,
`TryRecvCase`, `DestroyCase`), a theorem that the section takes one of them in a
well-formed table, and a theorem that the table stays well formed.
-/
import Jixia.EndpointTable
import Mathlib.Order.Fin.Basic

namespace Jixia

open LinkedList RingBuffer WaitLists Function Kernel EndpointHandle

variable {k : Kernel} {w : EndpointRef → List TaskRef} {dying : EndpointRef → Prop}
  {e : EndpointRef} {t : TaskRef} {rest : List TaskRef} {parsed : EndpointHandle}

/-! ### Keeping the table well formed -/

/-- Change one slot without touching any waiting node. -/
theorem IpcInv.modify (h : IpcInv k w dying) {k' : Kernel} {dying' : EndpointRef → Prop}
    (hnode : ∀ t, (k'.tasks t).messageWait = (k.tasks t).messageWait)
    (hep : ∀ e', e' ≠ e → k'.endpoints e' = k.endpoints e')
    (hal : ∀ e', e' ≠ e → k'.slotAllocated e' = k.slotAllocated e')
    (hhead : (k'.endpoints e).waitingHead = (k.endpoints e).waitingHead)
    (htail : (k'.endpoints e).waitingTail = (k.endpoints e).waitingTail)
    (hcount : (k'.endpoints e).waitingCount = (k.endpoints e).waitingCount)
    (hslot : SlotOk (k'.slotAllocated e) (k'.endpoints e) (w e))
    (hquiet : ¬ dying' e → (k'.endpoints e).active = false → w e = [])
    (hdying : ∀ e', e' ≠ e → dying e' → dying' e') : IpcInv k' w dying' where
  lists := by
    refine h.lists.congr (fun e' => ?_) hnode
    by_cases he : e' = e
    · subst he
      exact ⟨hhead, htail, hcount⟩
    · rw [hep e' he]
      exact ⟨rfl, rfl, rfl⟩
  slots e' := by
    by_cases he : e' = e
    · subst he
      exact hslot
    · rw [hep e' he, hal e' he]
      exact h.slots e'
  quiet e' hd ha := by
    by_cases he : e' = e
    · subst he
      exact hquiet hd ha
    · rw [hep e' he] at ha
      exact h.quiet e' (fun hd' => hd (hdying e' he hd')) ha

/-- Change the FIFO of one slot. -/
theorem IpcInv.relist (h : IpcInv k w dying) {k' : Kernel} {l : List TaskRef}
    (hl : WaitLists k' (update w e l))
    (hep : ∀ e', e' ≠ e → k'.endpoints e' = k.endpoints e')
    (hal : k'.slotAllocated = k.slotAllocated)
    (hslot : SlotOk (k'.slotAllocated e) (k'.endpoints e) l)
    (hquiet : ¬ dying e → (k'.endpoints e).active = false → l = []) :
    IpcInv k' (update w e l) dying where
  lists := hl
  slots e' := by
    by_cases he : e' = e
    · subst he
      rwa [update_self]
    · rw [update_of_ne he, hep e' he, hal]
      exact h.slots e'
  quiet e' hd ha := by
    by_cases he : e' = e
    · subst he
      rw [update_self]
      exact hquiet hd ha
    · rw [hep e' he] at ha
      rw [update_of_ne he]
      exact h.quiet e' hd ha

theorem IpcInv.popped (h : IpcInv k w dying) (he : w e = t :: rest) :
    IpcInv (popped k e t rest) (update w e rest) dying := by
  have hs := h.slots e
  have hcount : (k.endpoints e).count = 0 := by
    rcases hs.exclusive with hc | hc
    · exact hc
    · rw [he] at hc
      cases hc
  refine h.relist (h.lists.pop he) (fun e' hne => ?_) rfl ?_ ?_
  · simp [WaitLists.popped, hne, withWaitNodes]
  · simp only [WaitLists.popped, modifyEndpoint, update_self]
    exact ⟨hs.1, hs.2, hs.3, .inl hcount, hs.5, hs.6, hs.7, hs.8⟩
  · simp only [WaitLists.popped, modifyEndpoint, update_self]
    intro hd ha
    have := h.quiet e hd ha
    rw [he] at this
    cases this

theorem IpcInv.pushed (h : IpcInv k w dying) (ht : (k.tasks t).messageWait.queued = false)
    (hactive : (k.endpoints e).active = true) (hcount : (k.endpoints e).count = 0) :
    IpcInv (pushed k e t (w e)) (update w e (w e ++ [t])) dying := by
  have hs := h.slots e
  refine h.relist (h.lists.push ht) (fun e' hne => ?_) rfl ?_ ?_
  · simp [WaitLists.pushed, hne, withWaitNodes]
  · simp only [WaitLists.pushed, modifyEndpoint, update_self]
    exact ⟨hs.1, hs.2, hs.3, .inl hcount, hs.5, hs.6, hs.7, hs.8⟩
  · simp only [WaitLists.pushed, modifyEndpoint, update_self]
    intro _ ha
    rw [withWaitNodes, hactive] at ha
    cases ha

/-! ### send -/

/-- The kernel after the first receiver got a message: the receiver is off the
FIFO and its registers hold the message, but it is not ready yet. -/
def handedOver (k : Kernel) (e : EndpointRef) (t : TaskRef) (rest : List TaskRef)
    (message : Message) : Kernel :=
  ((popped k e t rest).writeRecvRegisters t 0 message).modifyTask t fun task =>
    { task with stateInfo := 0 }

/-- The branches of `sendLocked`. -/
inductive SendCase (k : Kernel) (w : EndpointRef → List TaskRef) (parsed : EndpointHandle)
    (message : Message) : SendStep → Kernel → Prop
  | stale : ¬ k.IsLive parsed → SendCase k w parsed message (.done kErrorInvalidArgument) k
  | wake {t : TaskRef} {rest : List TaskRef} : k.IsLive parsed → w parsed.slot = t :: rest →
      SendCase k w parsed message (.wake t) (handedOver k parsed.slot t rest message)
  | full : k.IsLive parsed → w parsed.slot = [] →
      (k.endpoints parsed.slot).count = kEndpointQueueDepth →
      SendCase k w parsed message (.done kErrorAgain) k
  | queued : k.IsLive parsed → w parsed.slot = [] →
      (k.endpoints parsed.slot).count < kEndpointQueueDepth →
      SendCase k w parsed message (.done 0)
        (k.modifyEndpoint parsed.slot fun endpoint => endpoint.enqueue message)

/-- The guard at the head of every section. -/
theorem stale_iff : (!(k.endpoints parsed.slot).active ||
    (k.endpoints parsed.slot).generation != parsed.generation) = true ↔ ¬ k.IsLive parsed := by
  rw [Kernel.IsLive]
  cases (k.endpoints parsed.slot).active <;> simp

theorem sendLocked_cases (h : IpcInv k w dying) (sender : TaskId) (parsed : EndpointHandle)
    (words : Fin 4 → Word) : ∃ step k', k.sendLocked sender parsed words = .ok step k' ∧
      SendCase k w parsed ⟨sender, words⟩ step k' := by
  have hs := h.slots parsed.slot
  have hc := h.lists.count parsed.slot
  simp only [sendLocked]
  by_cases hlive : k.IsLive parsed
  · rw [if_neg (by rw [stale_iff]; exact not_not_intro hlive)]
    cases hw : w parsed.slot with
    | nil =>
      rw [hw, List.length_nil] at hc
      rw [if_neg (by simp [hc]), if_neg (by simp [hc])]
      by_cases hfull : kEndpointQueueDepth ≤ (k.endpoints parsed.slot).count
      · rw [if_pos hfull]
        exact ⟨_, _, rfl, .full hlive hw (le_antisymm hs.count_le hfull)⟩
      · rw [if_neg hfull]
        exact ⟨_, _, rfl, .queued hlive hw (not_le.mp hfull)⟩
    | cons t rest =>
      rw [hw, List.length_cons] at hc
      have hcount : (k.endpoints parsed.slot).count = 0 := by
        rcases hs.exclusive with hc' | hc'
        · exact hc'
        · rw [hw] at hc'
          cases hc'
      rw [if_neg (by simp [hcount]), if_pos (by omega), h.lists.waiterPop_cons hw]
      exact ⟨_, _, rfl, .wake hlive hw⟩
  · rw [if_pos (stale_iff.mpr hlive)]
    exact ⟨_, _, rfl, .stale hlive⟩

theorem SameIpc.modifyTask {k k' : Kernel} (h : SameIpc k k') (t : TaskRef) {f : Task → Task}
    (hf : ∀ task, (f task).messageWait = task.messageWait) : SameIpc k (k'.modifyTask t f) := by
  refine ⟨h.endpoints, h.slotAllocated, fun u => ?_⟩
  by_cases hu : u = t
  · subst hu
    simp [hf, h.node]
  · simp [hu, h.node]

theorem handedOver_same (k : Kernel) (e : EndpointRef) (t : TaskRef) (rest : List TaskRef)
    (message : Message) : SameIpc (popped k e t rest) (handedOver k e t rest message) := by
  refine SameIpc.modifyTask (SameIpc.modifyTask (.refl _) t ?_) t ?_
  · exact fun _ => rfl
  · exact fun _ => rfl

/-- The receivers that still wait after a `send`. -/
def SendStep.waiters (w : EndpointRef → List TaskRef) (e : EndpointRef) :
    SendStep → EndpointRef → List TaskRef
  | .done _ => w
  | .wake _ => update w e (w e).tail

theorem SendCase.inv (h : IpcInv k w dying) {message : Message} {step : SendStep} {k' : Kernel}
    (hc : SendCase k w parsed message step k') :
    IpcInv k' (step.waiters w parsed.slot) dying := by
  cases hc with
  | stale _ => exact h
  | @wake t rest _ hw =>
    rw [SendStep.waiters, hw]
    exact (h.popped hw).same (handedOver_same ..)
  | full _ _ _ => exact h
  | queued hlive hw hcount =>
    have hs := h.slots parsed.slot
    refine h.modify (e := parsed.slot) (fun _ => rfl) (fun e' hne => ?_) (fun _ _ => rfl) ?_ ?_ ?_
      ?_ ?_ fun _ _ hd => hd
    · simp [hne]
    · simp [Endpoint.enqueue]
    · simp [Endpoint.enqueue]
    · simp [Endpoint.enqueue]
    · simp only [modifyEndpoint, update_self, Endpoint.enqueue]
      exact ⟨hs.1, hs.2, hcount, .inr hw, hs.5, hs.6, fun ha => by simp [hlive.1] at ha, hs.8⟩
    · exact fun _ _ => hw

/-! ### try_recv and recv -/

/-- Taking the oldest message out keeps the slot well formed. -/
theorem IpcInv.dequeue (h : IpcInv k w dying) (hactive : (k.endpoints e).active = true)
    (hcount : 0 < (k.endpoints e).count) :
    IpcInv (k.modifyEndpoint e Endpoint.dequeue) w dying := by
  have hs := h.slots e
  have hw : w e = [] := hs.exclusive.resolve_left (by omega)
  refine h.modify (e := e) (fun _ => rfl) (fun e' hne => ?_) (fun _ _ => rfl) ?_ ?_ ?_
    ?_ ?_ fun _ _ hd => hd
  · simp [hne]
  · simp [Endpoint.dequeue]
  · simp [Endpoint.dequeue]
  · simp [Endpoint.dequeue]
  · simp only [modifyEndpoint, update_self, Endpoint.dequeue]
    refine ⟨hs.1, hs.2, ?_, .inr hw, hs.5, hs.6, fun ha => by simp [hactive] at ha, hs.8⟩
    have := hs.count_le
    show (k.endpoints e).count - 1 ≤ kEndpointQueueDepth
    omega
  · exact fun _ _ => hw

/-- The branches of `tryRecvLocked`. -/
inductive TryRecvCase (k : Kernel) (parsed : EndpointHandle) : ℤ ⊕ Message → Kernel → Prop
  | stale : ¬ k.IsLive parsed → TryRecvCase k parsed (.inl kErrorInvalidArgument) k
  | empty : k.IsLive parsed → (k.endpoints parsed.slot).count = 0 →
      TryRecvCase k parsed (.inl kErrorAgain) k
  | message : k.IsLive parsed → 0 < (k.endpoints parsed.slot).count →
      TryRecvCase k parsed (.inr (k.endpoints parsed.slot).front)
        (k.modifyEndpoint parsed.slot Endpoint.dequeue)

theorem tryRecvLocked_cases (k : Kernel) (parsed : EndpointHandle) :
    TryRecvCase k parsed (k.tryRecvLocked parsed).1 (k.tryRecvLocked parsed).2 := by
  simp only [tryRecvLocked]
  by_cases hlive : k.IsLive parsed
  · rw [if_neg (by rw [stale_iff]; exact not_not_intro hlive)]
    by_cases hcount : (k.endpoints parsed.slot).count = 0
    · rw [if_pos (by simp [hcount])]
      exact .empty hlive hcount
    · rw [if_neg (by simp [hcount])]
      exact .message hlive (Nat.pos_of_ne_zero hcount)
  · rw [if_pos (stale_iff.mpr hlive)]
    exact .stale hlive

theorem TryRecvCase.inv (h : IpcInv k w dying) {result : ℤ ⊕ Message} {k' : Kernel}
    (hc : TryRecvCase k parsed result k') : IpcInv k' w dying := by
  cases hc with
  | stale _ => exact h
  | empty _ _ => exact h
  | message hlive hcount => exact h.dequeue hlive.1 hcount

/-- The kernel after `caller` blocked on the endpoint `e`. -/
def blockedOn (k : Kernel) (e : EndpointRef) (caller : TaskRef) (l : List TaskRef)
    (handle : Word) : Kernel :=
  (pushed k e caller l).modifyTask caller fun task =>
    { task with state := .blockedMessage, stateInfo := handle }

/-- The branches of `recvLocked`. -/
inductive RecvCase (k : Kernel) (w : EndpointRef → List TaskRef) (caller : TaskRef)
    (handle : Word) : RecvStatus → Kernel → Prop
  | stale : ¬ k.IsLive (.fromRaw handle) → RecvCase k w caller handle .rejected
      (k.setReg caller 10 (BitVec.ofInt 64 kErrorInvalidArgument))
  | message : k.IsLive (.fromRaw handle) →
      0 < (k.endpoints (fromRaw handle).slot).count →
      RecvCase k w caller handle .delivered
        ((k.modifyEndpoint (fromRaw handle).slot
          Endpoint.dequeue).writeRecvRegisters caller 0
            (k.endpoints (fromRaw handle).slot).front)
  | block : k.IsLive (.fromRaw handle) →
      (k.endpoints (fromRaw handle).slot).count = 0 →
      RecvCase k w caller handle .blocked
        (blockedOn k (fromRaw handle).slot caller
          (w (fromRaw handle).slot) handle)

theorem recvLocked_cases (h : IpcInv k w dying) {caller : TaskRef}
    (hq : (k.tasks caller).messageWait.queued = false) (handle : Word) :
    ∃ status k', k.recvLocked caller handle = .ok status k' ∧
      RecvCase k w caller handle status k' := by
  have hs := h.slots (fromRaw handle).slot
  have hc := h.lists.count (fromRaw handle).slot
  simp only [recvLocked]
  by_cases hlive : k.IsLive (.fromRaw handle)
  · rw [if_neg (by rw [stale_iff]; exact not_not_intro hlive)]
    by_cases hcount : (k.endpoints (fromRaw handle).slot).count = 0
    · have hmem : caller ∉ w (fromRaw handle).slot := by
        intro hmem
        have := (h.lists.queued caller).mpr ⟨_, hmem⟩
        simp [hq] at this
      rw [if_neg (by simp [hcount]), if_neg (by simp [hcount]), h.lists.waiterPush_eq hmem]
      exact ⟨_, _, rfl, .block hlive hcount⟩
    · have hw := hs.exclusive.resolve_left hcount
      rw [hw, List.length_nil] at hc
      rw [if_neg (by simp [hc]), if_pos (Nat.pos_of_ne_zero hcount)]
      exact ⟨_, _, rfl, .message hlive (Nat.pos_of_ne_zero hcount)⟩
  · rw [if_pos (stale_iff.mpr hlive)]
    exact ⟨_, _, rfl, .stale hlive⟩

/-- The receivers that wait after a `recv`. -/
def RecvStatus.waiters (w : EndpointRef → List TaskRef) (e : EndpointRef) (caller : TaskRef) :
    RecvStatus → EndpointRef → List TaskRef
  | .blocked => update w e (w e ++ [caller])
  | _ => w

theorem RecvCase.inv (h : IpcInv k w dying) {caller : TaskRef} {handle : Word}
    (hq : (k.tasks caller).messageWait.queued = false) {status : RecvStatus} {k' : Kernel}
    (hc : RecvCase k w caller handle status k') :
    IpcInv k' (status.waiters w (fromRaw handle).slot caller) dying := by
  cases hc with
  | stale _ => exact h.same ((SameIpc.refl k).modifyTask caller fun _ => rfl)
  | message hlive hcount =>
    exact (h.dequeue hlive.1 hcount).same ((SameIpc.refl _).modifyTask caller fun _ => rfl)
  | block hlive hcount =>
    exact (h.pushed hq hlive.1 hcount).same ((SameIpc.refl _).modifyTask caller fun _ => rfl)

/-! ### create_endpoint -/

/-- The slot found is free and is the lowest free one. -/
theorem findFreeEndpoint_some (h : k.findFreeEndpoint = some e) :
    k.slotAllocated e = false ∧ (k.endpoints e).retired = false ∧
      ∀ e', e' < e → (k.slotAllocated e' || (k.endpoints e').retired) = true := by
  rw [findFreeEndpoint, List.find?_eq_some_iff_append] at h
  obtain ⟨hfree, l1, l2, hl, hbefore⟩ := h
  rw [Bool.not_eq_true', Bool.or_eq_false_iff] at hfree
  refine ⟨hfree.1, hfree.2, fun e' he => ?_⟩
  -- The slots are searched in increasing order, so a lower one was passed over.
  have hmem : e' ∈ l1 ++ e :: l2 := by rw [← hl]; exact List.mem_finRange e'
  have hsorted : (l1 ++ e :: l2).Pairwise (· < ·) := hl ▸ List.pairwise_lt_finRange _
  rw [List.pairwise_append, List.pairwise_cons] at hsorted
  rw [List.mem_append, List.mem_cons] at hmem
  rcases hmem with hmem | rfl | hmem
  · simpa using hbefore e' hmem
  · exact absurd he (lt_irrefl _)
  · exact absurd he (lt_asymm (hsorted.2.1.1 e' hmem))

theorem findFreeEndpoint_none (h : k.findFreeEndpoint = none) (e : EndpointRef) :
    (k.slotAllocated e || (k.endpoints e).retired) = true := by
  rw [findFreeEndpoint, List.find?_eq_none] at h
  have := h e (List.mem_finRange e)
  rwa [Bool.not_eq_true', Bool.not_eq_false] at this

/-- The generation a slot gets when it is allocated. -/
def bornGeneration (endpoint : Endpoint) : BitVec 32 :=
  if endpoint.generation == 0 then 1 else endpoint.generation

theorem bornGeneration_ne_zero (endpoint : Endpoint) : bornGeneration endpoint ≠ 0 := by
  rw [bornGeneration]
  split
  · decide
  · simp_all

theorem createEndpointLocked_handle (k : Kernel) (e : EndpointRef) (owner : TaskId) :
    (k.createEndpointLocked e owner).1 =
      EndpointHandle.raw ⟨BitVec.ofNat 32 e.val, bornGeneration (k.endpoints e)⟩ := by
  simp [createEndpointLocked, bornGeneration]

/-- The table slot after its allocation. -/
def bornEndpoint (endpoint : Endpoint) (owner : TaskId) : Endpoint :=
  { active := true, owner := owner, generation := bornGeneration endpoint }

theorem createEndpointLocked_state (k : Kernel) (e : EndpointRef) (owner : TaskId) :
    (k.createEndpointLocked e owner).2 =
      { k with slotAllocated := update k.slotAllocated e true
               endpoints := update k.endpoints e (bornEndpoint (k.endpoints e) owner) } :=
  rfl

/-- A free slot has no receivers to lose. -/
theorem IpcInv.free_empty (h : IpcInv k w dying) (hd : ¬ dying e)
    (hfree : k.slotAllocated e = false) : w e = [] := by
  have hs := (h.slots e).allocated_eq
  rw [hfree] at hs
  refine h.quiet e hd ?_
  cases hactive : (k.endpoints e).active
  · rfl
  · rw [hactive] at hs
    cases hs

theorem IpcInv.create (h : IpcInv k w dying) (hw : w e = []) (owner : TaskId) :
    IpcInv (k.createEndpointLocked e owner).2 w dying := by
  have hl := h.lists.holds e
  have hc := h.lists.count e
  rw [hw] at hl hc
  rw [createEndpointLocked_state]
  refine h.modify (e := e) (fun _ => rfl) (fun e' hne => ?_) (fun e' hne => ?_) ?_ ?_ ?_ ?_ ?_
    fun _ _ hd => hd
  · exact update_of_ne hne ..
  · exact update_of_ne hne ..
  · simp only [update_self, bornEndpoint]
    exact hl.head_eq.symm
  · simp only [update_self, bornEndpoint]
    exact hl.tail_eq.symm
  · simp only [update_self, bornEndpoint]
    exact hc.symm
  · simp only [update_self]
    refine ⟨rfl, by simp [bornEndpoint], Nat.zero_le _, .inl rfl, ?_, fun _ => ?_,
      (fun ha => by cases ha), (fun hr => by cases hr)⟩
    · simp only [bornEndpoint, bornGeneration]
      split
      · decide
      · exact (h.slots e).generation_le
    · exact bornGeneration_ne_zero _
  · exact fun _ _ => hw

/-! ### destroy_endpoint -/

/-- The slot at the linearization point of a destroy. -/
def deadEndpoint (endpoint : Endpoint) : Endpoint :=
  { endpoint with
    queue := fun _ => {}, head := 0, count := 0, owner := 0, active := false
    retired := if kMaxGeneration ≤ endpoint.generation then true else endpoint.retired
    generation := if kMaxGeneration ≤ endpoint.generation then endpoint.generation
      else endpoint.generation + 1 }

/-- The kernel at the linearization point of a destroy: at the ceiling the slot
stays allocated for ever. -/
def killed (k : Kernel) (e : EndpointRef) : Kernel :=
  { k with
    endpoints := update k.endpoints e (deadEndpoint (k.endpoints e))
    slotAllocated := if kMaxGeneration ≤ (k.endpoints e).generation then k.slotAllocated
      else update k.slotAllocated e false }

/-- The branches of `destroyEndpointLocked`. -/
inductive DestroyCase (k : Kernel) (caller : TaskId) (parsed : EndpointHandle) :
    DestroyStep → Kernel → Prop
  | stale : ¬ k.IsLive parsed → DestroyCase k caller parsed (.done kErrorInvalidArgument) k
  | denied : k.IsLive parsed → (k.endpoints parsed.slot).owner ≠ caller →
      DestroyCase k caller parsed (.done kErrorAccess) k
  | dead : k.IsLive parsed → (k.endpoints parsed.slot).owner = caller →
      DestroyCase k caller parsed .wakeAll (killed k parsed.slot)

theorem destroyEndpointLocked_cases (h : IpcInv k w dying) (caller : TaskId)
    (parsed : EndpointHandle) :
    DestroyCase k caller parsed (k.destroyEndpointLocked caller parsed).1
      (k.destroyEndpointLocked caller parsed).2 := by
  have hs := h.slots parsed.slot
  simp only [destroyEndpointLocked]
  by_cases hlive : k.IsLive parsed
  · have hal : k.slotAllocated parsed.slot = true := by rw [hs.allocated_eq, hlive.1]; rfl
    rw [if_neg (by simp [hal, hlive.1, hlive.2])]
    by_cases howner : (k.endpoints parsed.slot).owner = caller
    · rw [if_neg (by simp [howner])]
      have hdead : DestroyCase k caller parsed .wakeAll (killed k parsed.slot) :=
        .dead hlive howner
      by_cases hmax : kMaxGeneration ≤ (k.endpoints parsed.slot).generation
      · rw [if_pos hmax]
        simpa [killed, hmax, modifyEndpoint, deadEndpoint] using hdead
      · rw [if_neg hmax]
        simpa [killed, hmax, modifyEndpoint, deadEndpoint] using hdead
    · rw [if_pos (by simp [howner])]
      exact .denied hlive howner
  · have hstale : (!k.slotAllocated parsed.slot || !(k.endpoints parsed.slot).active ||
        (k.endpoints parsed.slot).generation != parsed.generation) = true := by
      rw [Bool.or_assoc, stale_iff.mpr hlive, Bool.or_true]
    rw [if_pos hstale]
    exact .stale hlive

theorem IpcInv.killed (h : IpcInv k w dying) (hactive : (k.endpoints e).active = true) :
    IpcInv (killed k e) w fun e' => dying e' ∨ e' = e := by
  have hs := h.slots e
  have hret : (k.endpoints e).retired = false := by
    cases hr : (k.endpoints e).retired
    · rfl
    · exact absurd ⟨hactive, hr⟩ hs.active_or_retired
  refine h.modify (e := e) (fun _ => rfl) (fun e' hne => ?_) (fun e' hne => ?_) ?_ ?_ ?_ ?_ ?_
    fun _ _ hd => .inl hd
  · exact update_of_ne hne ..
  · simp only [Jixia.killed]
    split
    · rfl
    · exact update_of_ne hne ..
  · simp [Jixia.killed, deadEndpoint]
  · simp [Jixia.killed, deadEndpoint]
  · simp [Jixia.killed, deadEndpoint]
  · simp only [Jixia.killed, update_self, deadEndpoint]
    by_cases hmax : kMaxGeneration ≤ (k.endpoints e).generation
    · rw [if_pos hmax, if_pos hmax, if_pos hmax]
      refine ⟨?_, by simp, Nat.zero_le _, .inl rfl, hs.generation_le, by simp,
        fun _ => ⟨rfl, rfl⟩, fun _ => BitVec.le_antisymm hs.generation_le hmax⟩
      rw [hs.allocated_eq, hactive]
      rfl
    · rw [if_neg hmax, if_neg hmax, if_neg hmax]
      refine ⟨by simp [hret], by simp, Nat.zero_le _, .inl rfl, ?_, by simp,
        fun _ => ⟨rfl, rfl⟩, by simp [hret]⟩
      have hlt : (k.endpoints e).generation.toNat < kMaxGeneration.toNat := by
        simpa [BitVec.le_def] using hmax
      have hm : kMaxGeneration.toNat = 0x7FFFFFFF := rfl
      rw [BitVec.le_def, BitVec.toNat_add, Nat.mod_eq_of_lt] <;> simp <;> omega
  · exact fun hd => absurd (.inr rfl) hd

/-- The kernel after one receiver of a dead endpoint was prepared for its wake. -/
def revoked (k : Kernel) (e : EndpointRef) (t : TaskRef) (rest : List TaskRef) : Kernel :=
  ((popped k e t rest).modifyTask t fun task => { task with stateInfo := 0 }).setReg t 10
    (BitVec.ofInt 64 kErrorIdrm)

theorem destroyPop_nil (h : WaitLists k w) (he : w e = []) : k.destroyPop e = (none, k) := by
  rw [destroyPop, h.waiterPop_nil he]

theorem destroyPop_cons (h : WaitLists k w) (he : w e = t :: rest) :
    k.destroyPop e = (some t, revoked k e t rest) := by
  rw [destroyPop, h.waiterPop_cons he]
  rfl

theorem revoked_same (k : Kernel) (e : EndpointRef) (t : TaskRef) (rest : List TaskRef) :
    SameIpc (popped k e t rest) (revoked k e t rest) := by
  rw [revoked, setReg]
  refine SameIpc.modifyTask (SameIpc.modifyTask (.refl _) t ?_) t ?_
  · exact fun _ => rfl
  · exact fun _ => rfl

theorem IpcInv.revoked (h : IpcInv k w dying) (he : w e = t :: rest) :
    IpcInv (revoked k e t rest) (update w e rest) dying :=
  (h.popped he).same (revoked_same ..)

end Jixia
