/-
What the endpoint sections do, in terms of what the hart holds.

A hart works on an endpoint under its lock, and on the table under the table lock.
While it destroys an endpoint the receivers that still wait there are the only ones
on a dead endpoint (`Dying`); at any other time there are none (`Quiet`).
-/
import Jixia.QueueSpecs

namespace Jixia

open Machine Proc Function Kernel EndpointHandle

variable {solo legal : Prop} {h : HartIndex} {S : Holding} {F G : Kernel → Loc → Prop}
  {t : TaskRef} {x : Task} {k k' : Kernel} {loc : Loc} {e : EndpointRef} {L : List Lock} {n : ℕ}

/-- A hart that holds `S` and knows nothing else. -/
abbrev Holds (solo : Prop) (h : HartIndex) (S : Holding) : Kernel → Loc → Prop :=
  At solo h S fun _ _ => True

/-! ### What is known under the locks -/

/-- The task waits for a message at the endpoint. -/
def WaitingAt (e : EndpointRef) (t : TaskRef) (_ : Kernel) (loc : Loc) : Prop :=
  loc t = some (.wait e)

instance : Frame h (.endpoint e :: L) (WaitingAt e t) :=
  ⟨fun hv => (hv.wait t e).mpr,
    fun hl hr => ((hr.endpoint e (hl _ List.mem_cons_self)).2 t).mpr⟩

instance : Frame h (.table :: L) Quiet where
  view hv hq t e ht := by
    rw [hv.endpoints]
    exact hq t e ((hv.wait t e).mp ht)
  stable hl hr hq t e ht := by
    obtain ⟨-, hact, hnew⟩ := hr.table (hl _ List.mem_cons_self)
    rw [(hact e).1]
    exact (hnew t e ht).elim (hq t e) id

/-- No endpoint is being destroyed, and the slot is free. -/
def FreeSlot (e : EndpointRef) (k : Kernel) (loc : Loc) : Prop :=
  Quiet k loc ∧ k.slotAllocated e = false

instance : Frame h (.table :: L) (FreeSlot e) where
  view hv hq := ⟨Frame.view (h := h) (L := [.table]) hv hq.1, by rw [hv.slotAllocated]; exact hq.2⟩
  stable hl hr hq := ⟨Frame.stable hl hr hq.1, by
    rw [(hr.table (hl _ List.mem_cons_self)).1]
    exact hq.2⟩

/-- The endpoint is being destroyed: it is dead and fewer than `n` receivers are
left. -/
def Dying (e : EndpointRef) (n : ℕ) (k : Kernel) (loc : Loc) : Prop :=
  (k.endpoints e).active = false ∧
  (∀ t e', loc t = some (.wait e') → e' ≠ e → (k.endpoints e').active = true) ∧
  (Finset.univ.filter fun t => loc t = some (.wait e)).card < n

instance : Frame h (.endpoint e :: .table :: L) (Dying e n) where
  view hv hd := by
    refine ⟨by rw [hv.endpoints]; exact hd.1, fun t e' ht hne => ?_, ?_⟩
    · rw [hv.endpoints]
      exact hd.2.1 t e' ((hv.wait t e').mp ht) hne
    · rw [Finset.filter_congr fun t _ => hv.wait t e]
      exact hd.2.2
  stable hl hr hd := by
    obtain ⟨-, hact, hnew⟩ := hr.table (hl _ (List.mem_cons_of_mem _ List.mem_cons_self))
    have hwait := (hr.endpoint e (hl _ List.mem_cons_self)).2
    refine ⟨by rw [(hact e).1]; exact hd.1, fun t e' ht hne => ?_, ?_⟩
    · rw [(hact e').1]
      exact (hnew t e' ht).elim (fun h' => hd.2.1 t e' h' hne) id
    · rw [Finset.filter_congr fun t _ => hwait t]
      exact hd.2.2

/-! ### Changing a slot of the table -/

/-- Only the endpoint table changes. -/
def OnlyEndpoints (k k' : Kernel) : Prop :=
  k' = { k with endpoints := k'.endpoints, slotAllocated := k'.slotAllocated }

/-- No task is moved, and only the endpoint table changes.  A receiver still names the
endpoint it waits at. -/
theorem Inv.endpoints {w : EndpointRef → List TaskRef} (hi : Inv legal k loc)
    (hrest : OnlyEndpoints k k') (hmem : ∀ e t, t ∈ w e ↔ loc t = some (.wait e))
    (hw : IpcInv k' w fun _ => True) (hquiet : k.locks .table = none → Quiet k' loc)
    (hgen : ∀ t e, loc t = some (.wait e) → (k'.endpoints e).active = true →
      (k.endpoints e).active = true ∧ (k'.endpoints e).generation = (k.endpoints e).generation) :
    Inv legal k' loc := by
  obtain ⟨⟨r, hr, hrm⟩, ⟨d, hd, hdm⟩, -⟩ := hi.queues
  have htasks : k'.tasks = k.tasks := by rw [hrest]
  have hharts : k'.harts = k.harts := by rw [hrest]
  have hbind : ∀ j, SameBinding (k.harts j) (k'.harts j) := by
    rw [hharts]
    exact fun _ => ⟨rfl, rfl, rfl, rfl⟩
  refine ⟨?_, ?_, ⟨⟨r, ?_, hrm⟩, ⟨d, ?_, hdm⟩, ⟨w, hw, hmem⟩⟩, ?_, fun u p hp => ?_,
    fun j => ?_, ?_, ?_, ?_⟩
  · rw [show k'.taskSlotsUsed = k.taskSlotsUsed by rw [hrest]]
    exact hi.used
  · rw [htasks]
    exact hi.zero
  · exact hr.congr (by rw [hrest]) fun u => by rw [htasks]; exact ⟨rfl, rfl, rfl⟩
  · exact hd.congr (by rw [hrest]) fun u => by rw [htasks]
  · rw [show k'.locks = k.locks by rw [hrest]]
    exact hquiet
  · have hold := hi.placed u p hp
    rw [htasks]
    refine ⟨?_, hold.pinned, hold.idle, ?_⟩
    · rw [hharts]
      exact hold.cpu
    · cases p with
      | wait e' =>
        refine ⟨hold.state.1, fun ha => ?_⟩
        obtain ⟨hact, hg⟩ := hgen u e' hp ha
        rw [hg]
        exact hold.state.2 hact
      | _ => exact hold.state
  · exact (hi.hart j).congr (hbind j) fun i _ => by rw [htasks]; exact ⟨rfl, rfl, .inl rfl⟩
  · rw [htasks, hharts]
    exact hi.idleOf
  · exact hi.tracker.congr (by rw [hrest]) (by rw [hrest]) (by rw [hrest])
      (fun u _ => by rw [htasks]; exact ⟨rfl, rfl⟩) (fun _ => Iff.rfl) fun _ => Iff.rfl
  · rw [hrest]
    exact hi.noCrash

theorem At.endpoints (hat : At solo h S F k loc) (hrest : OnlyEndpoints k k') (hg : G k' loc) :
    At solo h S G k' loc := by
  refine ⟨?_, ?_, ?_, ?_, hat.only, hat.reaped, ?_, ?_, hg⟩ <;> rw [hrest]
  · exact hat.bound
  · exact hat.idle
  · exact hat.current
  · exact hat.owned
  · exact hat.locks
  · exact hat.alone

theorem Private.endpoints (hrest : OnlyEndpoints k k') (hlock : k.locks (.endpoint e) = some h)
    (hep : ∀ e', e' ≠ e → k'.endpoints e' = k.endpoints e')
    (htable : k.locks .table ≠ some h → k'.slotAllocated = k.slotAllocated ∧
      (k'.endpoints e).active = (k.endpoints e).active ∧
      (k'.endpoints e).retired = (k.endpoints e).retired) : Private h k loc k' := by
  refine ⟨fun _ _ _ _ => by rw [hrest], fun _ _ => by rw [hrest], fun _ _ _ => by rw [hrest],
    fun e' hl => ?_, fun hl => ⟨(htable hl).1, fun e' => ?_⟩⟩
  · refine hep e' ?_
    rintro rfl
    exact hl hlock
  · by_cases he : e' = e
    · rw [he]
      exact (htable hl).2
    · rw [hep e' he]
      exact ⟨rfl, rfl⟩

/-! ### Waking a receiver -/

theorem popped_other {rest : List TaskRef} {e' : EndpointRef} (he : e' ≠ e) :
    (WaitLists.popped k e t rest).endpoints e' = k.endpoints e' := by
  simp [WaitLists.popped, withWaitNodes, he]

theorem popped_retired {rest : List TaskRef} (e' : EndpointRef) :
    ((WaitLists.popped k e t rest).endpoints e').retired = (k.endpoints e').retired := by
  by_cases he : e' = e
  · simp [WaitLists.popped, withWaitNodes, he]
  · rw [popped_other he]

theorem pushed_other {l : List TaskRef} {e' : EndpointRef} (he : e' ≠ e) :
    (WaitLists.pushed k e t l).endpoints e' = k.endpoints e' := by
  simp [WaitLists.pushed, withWaitNodes, he]

theorem pushed_retired {l : List TaskRef} (e' : EndpointRef) :
    ((WaitLists.pushed k e t l).endpoints e').retired = (k.endpoints e').retired := by
  by_cases he : e' = e
  · simp [WaitLists.pushed, withWaitNodes, he]
  · rw [pushed_other he]

/-- The kernel after the receiver `t` was taken off and its context was written. -/
def wokenBy (k : Kernel) (e : EndpointRef) (t : TaskRef) (rest : List TaskRef)
    (f : TaskContext → TaskContext) : Kernel :=
  (WaitLists.popped k e t rest).modifyTask t fun task =>
    { task with context := f task.context, stateInfo := 0 }

theorem handedOver_eq (rest : List TaskRef) (message : Message) :
    handedOver k e t rest message = wokenBy k e t rest fun c => c.writeRecv 0 message := by
  simp [handedOver, wokenBy, modifyTask, writeRecvRegisters]

theorem revoked_eq (rest : List TaskRef) :
    revoked k e t rest = wokenBy k e t rest fun c => c.setX 10 (BitVec.ofInt 64 kErrorIdrm) := by
  simp [revoked, wokenBy, modifyTask, setReg]

/-- A receiver is taken off its endpoint, whose lock the hart holds. -/
theorem At.woken {w : EndpointRef → List TaskRef} {rest : List TaskRef}
    (hat : At solo h S F k loc) (hi : Inv legal k loc) (hw : IpcInv k w fun _ => True)
    (hmem : ∀ e t, t ∈ w e ↔ loc t = some (.wait e)) (hl : w e = t :: rest)
    (hlock : k.locks (.endpoint e) = some h) (f : TaskContext → TaskContext)
    (hg : G (wokenBy k e t rest f) (update loc t (some (.own h)))) :
    Inv legal (wokenBy k e t rest f) (update loc t (some (.own h))) ∧
    Guar h k loc (wokenBy k e t rest f) (update loc t (some (.own h))) ∧
    ∃ x, (x.state = .blockedMessage ∧ x.idle = false ∧ S.tasks t = none) ∧
      At solo h (S.hold t x) G (wokenBy k e t rest f) (update loc t (some (.own h))) := by
  have ht : loc t = some (.wait e) := (hmem e t).mp (by rw [hl]; exact List.mem_cons_self)
  have hp := hi.placed t _ ht
  have hm : Moved k (wokenBy k e t rest f) loc t :=
    (Moved.popped hw.lists hmem hl).modifyTask fun _ => ⟨rfl, rfl, rfl⟩
  have hq : QueuesOk (wokenBy k e t rest f) (update loc t (some (.own h))) :=
    (hi.queues.popped hw hmem hl).modifyTask fun _ => ⟨rfl, rfl, rfl, rfl, rfl⟩
  have hself : (wokenBy k e t rest f).tasks t = { (WaitLists.popped k e t rest).tasks t with
      context := f (k.tasks t).context, stateInfo := 0 } := update_self ..
  have hnone := hat.not_held (t := t) (by simp [ht])
  have hkeep := hat.take hm.touches (by simp [ht]) hg
  refine ⟨?_, ?_, (wokenBy k e t rest f).tasks t, ⟨?_, ?_, hnone⟩, hkeep⟩
  · refine hi.move hm ht rfl rfl hq ?_ (hp.idle rfl) fun _ he => nomatch he
    rw [hself]
    exact ⟨hp.cpu, hp.pinned, (fun ho => nomatch ho), trivial⟩
  · refine hm.guar (by rw [ht]; exact hlock) rfl (fun _ he => nomatch he) (fun e' he => ?_)
      popped_retired
    exact popped_other fun hee => he (hee ▸ hlock)
  · rw [hself]
    exact hp.state.1
  · rw [hself]
    exact hp.idle rfl

/-! ### SEND, TRY_RECV and RECV -/

/-- The message ring of an endpoint is written, under its lock. -/
theorem At.ring {w : EndpointRef → List TaskRef} (hat : At solo h S F k loc)
    (hi : Inv legal k loc) (hmem : ∀ e t, t ∈ w e ↔ loc t = some (.wait e))
    (hlock : k.locks (.endpoint e) = some h) {f : Endpoint → Endpoint}
    (hw : IpcInv (k.modifyEndpoint e f) w fun _ => True)
    (hf : ∀ endpoint, (f endpoint).active = endpoint.active ∧
      (f endpoint).generation = endpoint.generation ∧ (f endpoint).retired = endpoint.retired)
    (hg : G (k.modifyEndpoint e f) loc) :
    Inv legal (k.modifyEndpoint e f) loc ∧ Private h k loc (k.modifyEndpoint e f) ∧
      At solo h S G (k.modifyEndpoint e f) loc := by
  have hself : (k.modifyEndpoint e f).endpoints e = f (k.endpoints e) := update_self ..
  have hother : ∀ e', e' ≠ e → (k.modifyEndpoint e f).endpoints e' = k.endpoints e' :=
    fun e' he => update_of_ne he ..
  have hsame : ∀ e', ((k.modifyEndpoint e f).endpoints e').active = (k.endpoints e').active ∧
      ((k.modifyEndpoint e f).endpoints e').generation = (k.endpoints e').generation := by
    intro e'
    by_cases he : e' = e
    · rw [he, hself]
      exact ⟨(hf _).1, (hf _).2.1⟩
    · rw [hother e' he]
      exact ⟨rfl, rfl⟩
  refine ⟨?_, ?_, hat.endpoints rfl hg⟩
  · refine hi.endpoints rfl hmem hw (fun hl u e' hu => ?_) fun u e' hu ha => ?_
    · rw [(hsame e').1]
      exact hi.quiet hl u e' hu
    · exact ⟨(hsame e').1 ▸ ha, (hsame e').2⟩
  · refine .endpoints rfl hlock hother fun _ => ⟨rfl, ?_⟩
    rw [hself]
    exact ⟨(hf _).1, (hf _).2.2⟩

theorem outline_sendLocked (sender : TaskId) (parsed : EndpointHandle) (words : Fin 4 → Word)
    (hlock : .endpoint parsed.slot ∈ S.locks) :
    Outline solo legal h (perform (.sendLocked sender parsed words)) (Holds solo h S)
      fun b k loc => ((∃ code, b = .done code) ∧ Holds solo h S k loc) ∨
        ∃ t x, (b = .wake t ∧ x.state = .blockedMessage ∧ x.idle = false ∧ S.tasks t = none) ∧
          Holds solo h (S.hold t x) k loc := by
  refine outline_perform (fun b => .or ((Contract.Stable.const _).and (At.stable S _))
    (.exists fun t => .exists fun x => (Contract.Stable.const _).and
      (At.stable (S.hold t x) _))) fun k loc hi hat => ⟨trivial, ?_⟩
  obtain ⟨w, hw, hmem⟩ := hi.queues.wait
  have hheld := (hat.locks _).mpr hlock
  obtain ⟨step, k', hexec, hcase⟩ := sendLocked_cases hw sender parsed words
  refine ⟨step, k', hexec, ?_⟩
  have hinv := hcase.inv hw
  cases hcase with
  | stale _ =>
    exact ⟨hi, guar_of_private (.refl h k loc), .inl ⟨⟨_, rfl⟩, hat⟩⟩
  | full _ _ _ =>
    exact ⟨hi, guar_of_private (.refl h k loc), .inl ⟨⟨_, rfl⟩, hat⟩⟩
  | @wake t rest _ hl =>
    rw [handedOver_eq]
    obtain ⟨hi', hguar, x, hx, hkeep⟩ := hat.woken (G := fun _ _ => True) hi hw hmem hl hheld
      (fun c => c.writeRecv 0 ⟨sender, words⟩) trivial
    exact ⟨hi', hguar, .inr ⟨t, x, ⟨rfl, hx⟩, hkeep⟩⟩
  | queued _ _ _ =>
    obtain ⟨hi', hpriv, hkeep⟩ := hat.ring (G := fun _ _ => True) hi hmem hheld hinv
      (fun _ => ⟨rfl, rfl, rfl⟩) trivial
    exact ⟨hi', guar_of_private hpriv, .inl ⟨⟨_, rfl⟩, hkeep⟩⟩

theorem outline_tryRecvLocked (parsed : EndpointHandle) (hlock : .endpoint parsed.slot ∈ S.locks) :
    Outline solo legal h (perform (.tryRecvLocked parsed)) (Holds solo h S) fun _ =>
      Holds solo h S := by
  refine outline_perform (fun _ => At.stable S _) fun k loc hi hat => ⟨trivial, ?_⟩
  have hheld := (hat.locks _).mpr hlock
  obtain ⟨w, hw, hmem⟩ := hi.queues.wait
  have hcase := tryRecvLocked_cases k parsed
  refine ⟨_, _, rfl, ?_⟩
  show Inv legal (k.tryRecvLocked parsed).2 loc ∧ Guar h k loc (k.tryRecvLocked parsed).2 loc ∧ _
  generalize (k.tryRecvLocked parsed).2 = k', (k.tryRecvLocked parsed).1 = b at hcase
  cases hcase with
  | stale _ => exact ⟨hi, guar_of_private (.refl h k loc), hat⟩
  | empty _ _ => exact ⟨hi, guar_of_private (.refl h k loc), hat⟩
  | message hlive hcount =>
    obtain ⟨hi', hpriv, hkeep⟩ := hat.ring (G := fun _ _ => True) hi hmem hheld
      (hw.dequeue hlive.1 hcount) (fun _ => ⟨rfl, rfl, rfl⟩) trivial
    exact ⟨hi', guar_of_private hpriv, hkeep⟩

/-- The word a blocked receiver carries is the handle of its endpoint. -/
theorem raw_of_isLive {handle : Word} (hwf : (fromRaw handle).wellFormed = true)
    (hlive : k.IsLive (.fromRaw handle)) :
    handle = EndpointHandle.raw ⟨BitVec.ofNat 32 (fromRaw handle).slot.val,
      (k.endpoints (fromRaw handle).slot).generation⟩ := by
  rw [hlive.2, ← EndpointHandle.eq_mk_of_wellFormed hwf, EndpointHandle.raw_fromRaw]

/-- The caller goes on with other registers, or waits at the endpoint. -/
theorem outline_recvLocked {handle : Word} (hx : S.tasks t = some x) (hidle : x.idle = false)
    (hwf : (fromRaw handle).wellFormed = true)
    (hL : S.locks = .endpoint (fromRaw handle).slot :: L) :
    Outline solo legal h (perform (.recvLocked t handle)) (Holds solo h S) fun b k loc =>
      (∃ context, (b ≠ .blocked) ∧ Holds solo h (S.hold t { x with context := context }) k loc) ∨
      (b = .blocked ∧ At solo h (S.drop t) (WaitingAt (fromRaw handle).slot t)
        k loc) := by
  have hframe : Frame h S.locks (WaitingAt (fromRaw handle).slot t) := by
    rw [hL]
    infer_instance
  refine outline_perform (fun b => .or (.exists fun c => (Contract.Stable.const _).and
    (At.stable (S.hold t { x with context := c }) _)) ((Contract.Stable.const _).and
      (At.stable (S.drop t) _))) fun k loc hi hat => ?_
  obtain ⟨hown, hrec⟩ := hat.owned t x hx
  obtain ⟨w, hw, hmem⟩ := hi.queues.wait
  have hheld := (hat.locks _).mpr (by rw [hL]; exact List.mem_cons_self)
  have hq := (hi.unqueued_of_own hown).2.2
  have hp := hi.placed t _ hown
  obtain ⟨status, k', hexec, hcase⟩ := recvLocked_cases hw hq handle
  refine ⟨hown, status, k', hexec, ?_⟩
  cases hcase with
  | stale _ =>
    refine ⟨hi.write hown ⟨⟨rfl, rfl, rfl, rfl, rfl⟩, rfl, ⟨rfl, rfl, rfl, rfl⟩, fun _ => .inl rfl⟩,
      guar_of_private ((Private.refl h k loc).modifyTask hown _),
      .inl ⟨_, RecvStatus.noConfusion, hat.modifyTask hx fun task => { task with
        context := task.context.setX 10 (BitVec.ofInt 64 kErrorInvalidArgument) }⟩⟩
  | message hlive hcount =>
    obtain ⟨hi', hpriv, hkeep⟩ := hat.ring (G := fun _ _ => True) hi hmem hheld
      (hw.dequeue hlive.1 hcount) (fun _ => ⟨rfl, rfl, rfl⟩) trivial
    refine ⟨hi'.write hown
        ⟨⟨rfl, rfl, rfl, rfl, rfl⟩, rfl, ⟨rfl, rfl, rfl, rfl⟩, fun _ => .inl rfl⟩,
      guar_of_private (hpriv.modifyTask hown _),
      .inl ⟨_, RecvStatus.noConfusion, hkeep.modifyTask hx fun task => { task with
        context := task.context.writeRecv 0
          (k.endpoints (fromRaw handle).slot).front }⟩⟩
  | block hlive hcount =>
    have hm : Moved k (blockedOn k (fromRaw handle).slot t
        (w (fromRaw handle).slot) handle) loc t :=
      (Moved.pushed hmem).modifyTask fun _ => ⟨rfl, rfl, rfl⟩
    have hq' : QueuesOk (blockedOn k (fromRaw handle).slot t
        (w (fromRaw handle).slot) handle) (update loc t
          (some (.wait (fromRaw handle).slot))) :=
      (hi.queues.pushed hw hmem hown hlive.1 hcount).modifyTask
        fun _ => ⟨rfl, rfl, rfl, rfl, rfl⟩
    have hnot : (k.tasks t).idle = false := hrec ▸ hidle
    have hep := hm.endpoint (fromRaw handle).slot
    refine ⟨hi.move hm hown rfl rfl hq' ?_ hnot ?_, ?_, .inr ⟨rfl, ?_⟩⟩
    · rw [show (blockedOn k _ t _ handle).tasks t = { (WaitLists.pushed k
        (fromRaw handle).slot t
          (w (fromRaw handle).slot)).tasks t with
          state := .blockedMessage, stateInfo := handle } from update_self ..]
      refine ⟨hp.cpu, hp.pinned, fun _ => hnot, rfl, fun _ => ?_⟩
      rw [hep.2]
      exact raw_of_isLive hwf hlive
    · rintro e' ⟨⟩
      exact hlive.1
    · refine hm.guar (by rw [hown]; rfl) hheld (fun e' he => ?_) (fun e' he => ?_) fun e' => ?_
      · cases he
        exact hlive.1
      · exact pushed_other fun hee => he (hee ▸ hheld)
      · exact pushed_retired e'
    · exact hat.give hm.touches hx ⟨Place.noConfusion, Place.noConfusion⟩ (update_self ..)

/-! ### Creating and destroying endpoints -/

theorem outline_findFreeEndpoint [Frame h S.locks Quiet] [∀ e, Frame h S.locks (FreeSlot e)] :
    Outline solo legal h (perform .findFreeEndpoint) (At solo h S Quiet) fun b k loc =>
      (b = none ∧ At solo h S Quiet k loc) ∨ ∃ e, b = some e ∧ At solo h S (FreeSlot e) k loc := by
  refine outline_perform (fun b => .or ((Contract.Stable.const _).and (At.stable S _))
    (.exists fun e => (Contract.Stable.const _).and (At.stable S _))) fun k loc hi hat => ?_
  refine ⟨trivial, k.findFreeEndpoint, k, rfl, hi, guar_of_private (.refl h k loc), ?_⟩
  cases hfree : k.findFreeEndpoint with
  | none => exact .inl ⟨rfl, hat⟩
  | some e => exact .inr ⟨e, rfl, hat.imp ⟨hat.frame, (findFreeEndpoint_some hfree).1⟩⟩

/-- Nobody waits at a free slot. -/
theorem FreeSlot.no_receiver (hf : FreeSlot e k loc) (hi : Inv legal k loc) (t : TaskRef) :
    loc t ≠ some (.wait e) := by
  intro ht
  obtain ⟨w, hw, -⟩ := hi.queues.wait
  have hal := (hw.slots e).allocated_eq
  rw [hf.2, hf.1 t e ht] at hal
  cases hal

theorem outline_createEndpointLocked [Frame h S.locks Quiet] (owner : TaskId)
    (hlock : .endpoint e ∈ S.locks) (htable : .table ∈ S.locks) :
    Outline solo legal h (perform (.createEndpointLocked e owner)) (At solo h S (FreeSlot e))
      fun _ => At solo h S Quiet := by
  refine outline_perform (fun _ => At.stable S _) fun k loc hi hat => ?_
  have hno := hat.frame.no_receiver hi
  obtain ⟨w, hw, hmem⟩ := hi.queues.wait
  have hempty : w e = [] := by
    rw [List.eq_nil_iff_forall_not_mem]
    exact fun t ht => hno t ((hmem e t).mp ht)
  have hother : ∀ e', e' ≠ e →
      (k.createEndpointLocked e owner).2.endpoints e' = k.endpoints e' :=
    fun e' he => update_of_ne he ..
  have hquiet : Quiet (k.createEndpointLocked e owner).2 loc := by
    intro t e' ht
    have he : e' ≠ e := by
      rintro rfl
      exact hno t ht
    rw [hother e' he]
    exact hat.frame.1 t e' ht
  refine ⟨⟨hat.frame.2, hno⟩, _, _, rfl, ?_, ?_, ?_⟩
  · refine hi.endpoints rfl hmem (hw.create hempty owner) (fun _ => hquiet)
      fun t e' ht ha => ?_
    have he : e' ≠ e := by
      rintro rfl
      exact hno t ht
    rw [hother e' he] at ha ⊢
    exact ⟨ha, rfl⟩
  · refine guar_of_private (.endpoints rfl ((hat.locks _).mpr hlock) hother fun hl => ?_)
    exact absurd ((hat.locks _).mpr htable) hl
  · exact hat.endpoints rfl hquiet

/-- The endpoint dies under both locks, or nothing happens. -/
theorem outline_destroyEndpointLocked [Frame h S.locks Quiet] (caller : TaskId)
    (parsed : EndpointHandle) [Frame h S.locks (Dying parsed.slot (kMaxTasks + 1))]
    (hlock : .endpoint parsed.slot ∈ S.locks) (htable : .table ∈ S.locks) :
    Outline solo legal h (perform (.destroyEndpointLocked caller parsed)) (At solo h S Quiet)
      fun b k loc => ((∃ code, b = .done code) ∧ At solo h S Quiet k loc) ∨
        (b = .wakeAll ∧ At solo h S (Dying parsed.slot (kMaxTasks + 1)) k loc) := by
  refine outline_perform (fun b => .or ((Contract.Stable.const _).and (At.stable S _))
    ((Contract.Stable.const _).and (At.stable S _))) fun k loc hi hat => ⟨trivial, ?_⟩
  obtain ⟨w, hw, hmem⟩ := hi.queues.wait
  have hcase := destroyEndpointLocked_cases hw caller parsed
  have hexec : exec h (.destroyEndpointLocked caller parsed) k =
      .ok (k.destroyEndpointLocked caller parsed).1 (k.destroyEndpointLocked caller parsed).2 := rfl
  refine ⟨_, _, hexec, ?_⟩
  show Inv legal (k.destroyEndpointLocked caller parsed).2 loc ∧
    Guar h k loc (k.destroyEndpointLocked caller parsed).2 loc ∧ _
  generalize (k.destroyEndpointLocked caller parsed).2 = k',
    (k.destroyEndpointLocked caller parsed).1 = b at hcase
  have htable' := (hat.locks _).mpr htable
  cases hcase with
  | stale _ => exact ⟨hi, guar_of_private (.refl h k loc), .inl ⟨⟨_, rfl⟩, hat⟩⟩
  | denied _ _ => exact ⟨hi, guar_of_private (.refl h k loc), .inl ⟨⟨_, rfl⟩, hat⟩⟩
  | dead hlive _ =>
    have hself : (killed k parsed.slot).endpoints parsed.slot =
      deadEndpoint (k.endpoints parsed.slot) := update_self ..
    have hother : ∀ e', e' ≠ parsed.slot →
        (killed k parsed.slot).endpoints e' = k.endpoints e' :=
      fun e' he => update_of_ne he ..
    have hw' : IpcInv (killed k parsed.slot) w fun _ => True :=
      (hw.killed hlive.1).weaken fun _ _ => trivial
    refine ⟨?_, ?_, .inr ⟨rfl, hat.endpoints rfl ⟨?_, fun t e' ht he => ?_, ?_⟩⟩⟩
    · refine hi.endpoints rfl hmem hw' (fun hl => ?_) fun t e' ht ha => ?_
      · rw [hl] at htable'
        cases htable'
      · have he : e' ≠ parsed.slot := by
          rintro rfl
          rw [hself] at ha
          cases ha
        rw [hother e' he] at ha ⊢
        exact ⟨ha, rfl⟩
    · refine guar_of_private (.endpoints rfl ((hat.locks _).mpr hlock) hother fun hl => ?_)
      exact absurd htable' hl
    · rw [hself]
      rfl
    · rw [hother e' he]
      exact hat.frame t e' ht
    · refine Nat.lt_succ_of_le ((Finset.card_filter_le _ _).trans ?_)
      rw [Finset.card_univ, Fintype.card_fin]

/-- The next receiver of the dying endpoint, until none is left. -/
theorem outline_destroyPop [Frame h S.locks Quiet] [Frame h S.locks (Dying e n)]
    (hlock : .endpoint e ∈ S.locks) :
    Outline solo legal h (perform (.destroyPop e)) (At solo h S (Dying e (n + 1))) fun b k loc =>
      (b = none ∧ At solo h S Quiet k loc) ∨
      ∃ t x, (b = some t ∧ x.state = .blockedMessage ∧ x.idle = false ∧ S.tasks t = none) ∧
        At solo h (S.hold t x) (Dying e n) k loc := by
  refine outline_perform (fun b => .or ((Contract.Stable.const _).and (At.stable S _))
    (.exists fun t => .exists fun x => (Contract.Stable.const _).and
      (At.stable (S.hold t x) _))) fun k loc hi hat => ⟨hat.frame.1, ?_⟩
  obtain ⟨w, hw, hmem⟩ := hi.queues.wait
  obtain ⟨hdead, hrest, hcard⟩ := hat.frame
  cases hl : w e with
  | nil =>
    have hexec : exec h (.destroyPop e) k = .ok none k :=
      congrArg Outcome.total (destroyPop_nil hw.lists hl)
    refine ⟨none, k, hexec, hi, guar_of_private (.refl h k loc),
      .inl ⟨rfl, hat.imp fun t e' ht => hrest t e' ht ?_⟩⟩
    rintro rfl
    rw [← hmem, hl] at ht
    cases ht
  | cons t rest =>
    have hexec : exec h (.destroyPop e) k = .ok (some t) (wokenBy k e t rest
        fun c => c.setX 10 (BitVec.ofInt 64 kErrorIdrm)) := by
      rw [← revoked_eq]
      exact congrArg Outcome.total (destroyPop_cons hw.lists hl)
    have ht : loc t = some (.wait e) := (hmem e t).mp (by rw [hl]; exact List.mem_cons_self)
    have hact : ∀ e', ((wokenBy k e t rest fun c => c.setX 10
        (BitVec.ofInt 64 kErrorIdrm)).endpoints e').active = (k.endpoints e').active :=
      fun e' => ((Moved.popped hw.lists hmem hl).endpoint e').1
    have hless : Dying e n (wokenBy k e t rest fun c => c.setX 10 (BitVec.ofInt 64 kErrorIdrm))
        (update loc t (some (.own h))) := by
      refine ⟨(hact e).trans hdead, fun u e' hu he => ?_,
        (card_take ht Place.noConfusion).trans_le (Nat.le_of_lt_succ hcard)⟩
      rw [hact]
      refine hrest u e' ?_ he
      have hut : u ≠ t := by
        rintro rfl
        rw [update_self] at hu
        cases hu
      rwa [update_of_ne hut] at hu
    obtain ⟨hi', hguar, x, hx, hkeep⟩ :=
      hat.woken hi hw hmem hl ((hat.locks _).mpr hlock) _ hless
    exact ⟨some t, _, hexec, hi', hguar, .inr ⟨t, x, ⟨rfl, hx⟩, hkeep⟩⟩

end Jixia
