/-
What the single actions do, in terms of what the hart holds.

One theorem for each kind of action: reads, writes of a held task, writes of the
hart's own record, and taking and dropping a lock.  The actions that work on a queue
or on one of the tables have their own modules.
-/
import Jixia.Interference

namespace Jixia

open Machine Proc Function Kernel

variable {solo legal : Prop} {h : HartIndex} {S : Holding} {F : Kernel → Loc → Prop}
  {t : TaskRef} {x : Task} {α β : Type}

/-- A proof outline of kernel code on the hart `h`. -/
abbrev Outline (solo legal : Prop) (h : HartIndex) (p : KProc α) (P : Kernel → Loc → Prop)
    (Q : α → Kernel → Loc → Prop) : Prop :=
  Valid (machine legal) (contract solo legal h) h p P Q

/-- An action that goes through. -/
theorem outline_perform {a : Action β} {P : Kernel → Loc → Prop} {Q : β → Kernel → Loc → Prop}
    (hs : ∀ b, (contract solo legal h).Stable (Q b))
    (ha : ∀ k loc, Inv legal k loc → P k loc → Pre h a k loc ∧ ∃ b k', exec h a k = .ok b k' ∧
      Inv legal k' (track h a b loc) ∧ Guar h k loc k' (track h a b loc) ∧
      Q b k' (track h a b loc)) : Outline solo legal h (perform a) P Q := by
  refine Valid.perform (fun k loc hi hp => ?_) hs
  obtain ⟨hpre, b, k', hx, hspec⟩ := ha k loc hi hp
  refine ⟨hpre, ?_⟩
  rw [show (machine legal).exec h a k = .ok b k' from hx]
  exact hspec

/-- Alone, an action that moves no task keeps what is known of the places. -/
theorem outline_keep {a : Action β} {P : Kernel → Loc → Prop} {Q : β → Kernel → Loc → Prop}
    (ha : Outline solo legal h (perform a) P Q) (htr : ∀ b loc, track h a b loc = loc)
    (ψ : Loc → Prop) :
    Outline solo legal h (perform a) (fun k loc => P k loc ∧ (solo → ψ loc)) fun b k loc =>
      Q b k loc ∧ (solo → ψ loc) := by
  obtain ⟨R, hR, hn⟩ := ha
  refine ⟨fun b k loc => R b k loc ∧ (solo → ψ loc), fun k loc hi hp => ?_, fun b => ⟨?_, ?_⟩⟩
  · obtain ⟨hpre, hx⟩ := hR k loc hi hp.1
    refine ⟨hpre, ?_⟩
    cases he : (machine legal).exec h a k with
    | error e k' =>
      rw [he] at hx
      exact hx
    | ok b k' =>
      rw [he] at hx
      refine ⟨hx.1, hx.2.1, hx.2.2, ?_⟩
      rw [show (machine legal).track h a k b loc = loc from htr b loc]
      exact hp.2
  · refine (hn b).1.and ?_
    rintro k loc k' loc' - - ⟨-, hsolo⟩ hψ hs
    rw [(hsolo hs).2]
    exact hψ hs
  · exact fun k loc hi hr => ⟨(hn b).2 k loc hi hr.1, hr.2⟩

/-! ### Reads -/

/-- An action that only reads. -/
theorem outline_read [Frame h S.locks F] {a : Action β} {φ : β → Prop}
    (ha : ∀ k loc, Inv legal k loc → At solo h S F k loc → Pre h a k loc ∧
      ∃ b, exec h a k = .ok b k ∧ track h a b loc = loc ∧ φ b) :
    Outline solo legal h (perform a) (At solo h S F) fun b k loc => φ b ∧ At solo h S F k loc := by
  refine outline_perform (fun b => (Contract.Stable.const _).and (At.stable S F))
    fun k loc hi hat => ?_
  obtain ⟨hpre, b, hx, htr, hφ⟩ := ha k loc hi hat
  refine ⟨hpre, b, k, hx, ?_⟩
  rw [htr]
  exact ⟨hi, guar_of_private (.refl h k loc), hφ, hat⟩

/-- What a hart knows of a task it holds. -/
structure OwnTask (task : Task) : Prop where
  cpu : ∃ j, task.cpu = some j
  pinned : task.affinityPinned = 0
  queued : task.queued = false
  delayed : task.delay.queued = false
  waiting : task.messageWait.queued = false

theorem At.ownTask {k : Kernel} {loc : Loc} (hat : At solo h S F k loc) (hi : Inv legal k loc)
    (hx : S.tasks t = some x) : OwnTask x := by
  obtain ⟨hown, rfl⟩ := hat.owned t x hx
  obtain ⟨hq, hd, hw⟩ := hi.unqueued_of_own hown
  obtain ⟨j, hj, -⟩ := (hi.placed t _ hown).cpu
  exact ⟨⟨j, hj⟩, (hi.placed t _ hown).pinned, hq, hd, hw⟩

theorem outline_loadTask [Frame h S.locks F] (hx : S.tasks t = some x) :
    Outline solo legal h (perform (.loadTask t)) (At solo h S F) fun b k loc =>
      (b = x ∧ OwnTask x) ∧ At solo h S F k loc :=
  outline_read fun _ _ hi hat => ⟨trivial, _, rfl, rfl, (hat.owned t x hx).2, hat.ownTask hi hx⟩

/-- What a hart knows of its own record. -/
structure OwnHart (h : HartIndex) (S : Holding) (hart : HartLocal) : Prop where
  current : hart.currentTask = S.current
  idle : hart.idleTask = some S.idle
  bound : hart.scheduler = true
  extra : hart.schedulerExtra = some (.localRunQueue h)
  delay : hart.delayList = some h

theorem At.ownHart {k : Kernel} {loc : Loc} (hat : At solo h S F k loc) (hi : Inv legal k loc) :
    OwnHart h S (k.harts h) :=
  ⟨hat.current, hat.idle, hat.bound, ((hi.hart h).queues hat.bound).1,
    ((hi.hart h).queues hat.bound).2⟩

theorem outline_loadHart [Frame h S.locks F] :
    Outline solo legal h (perform (.loadHart h)) (At solo h S F) fun b k loc =>
      OwnHart h S b ∧ At solo h S F k loc :=
  outline_read fun _ _ hi hat => ⟨trivial, _, rfl, rfl, hat.ownHart hi⟩

/-- A read whose result does not matter. -/
theorem outline_readAny [Frame h S.locks F] {a : Action β} (hpre : ∀ k loc, Pre h a k loc)
    (hread : ∀ k : Kernel, ∃ b, exec h a k = .ok b k) (htr : ∀ b loc, track h a b loc = loc) :
    Outline solo legal h (perform a) (At solo h S F) fun _ => At solo h S F := by
  refine (outline_read (φ := fun _ => True) fun k loc _ _ => ?_).post fun _ _ _ _ hq => hq.2
  obtain ⟨b, hb⟩ := hread k
  exact ⟨hpre k loc, b, hb, htr b loc, trivial⟩

/-- Follow the pointers of a task that exists. -/
theorem schedulerOf_eq {k : Kernel} {loc : Loc} {p : Place} (hi : Inv legal k loc)
    (ht : loc t = some p) : k.schedulerOf t = .ok () k := by
  obtain ⟨j, hj, hb⟩ := (hi.placed t p ht).cpu
  rw [schedulerOf, hj]
  exact if_pos hb

theorem outline_scheduler [Frame h S.locks F]
    (ht : ∀ k loc, At solo h S F k loc → ∃ p, loc t = some p) :
    Outline solo legal h (perform (.scheduler t)) (At solo h S F) fun _ => At solo h S F := by
  refine (outline_read (φ := fun _ => True) fun k loc hi hat => ?_).post fun _ _ _ _ hq => hq.2
  obtain ⟨p, hp⟩ := ht k loc hat
  exact ⟨trivial, (), schedulerOf_eq hi hp, rfl, trivial⟩

theorem outline_scheduler_held [Frame h S.locks F] (hx : S.tasks t = some x) :
    Outline solo legal h (perform (.scheduler t)) (At solo h S F) fun _ => At solo h S F :=
  outline_scheduler fun _ _ hat => ⟨_, (hat.owned t x hx).1⟩

/-- The evaluation of a task that was given away: alone, it is still there. -/
theorem outline_yieldScheduler [Frame h S.locks F] {tid : TaskId} :
    Outline solo legal h (perform (.yieldScheduler t tid))
      (fun k loc => At solo h S F k loc ∧ (solo → loc t ≠ none)) fun _ => At solo h S F := by
  refine Valid.perform (fun k loc hi hp => ⟨trivial, ?_⟩) fun _ => At.stable S F
  obtain ⟨hat, hsolo⟩ := hp
  cases hl : loc t with
  | some p =>
    have hx : (machine legal).exec h (.yieldScheduler t tid) k = .ok () k := schedulerOf_eq hi hl
    rw [hx]
    exact ⟨hi, guar_of_private (.refl h k loc), hat⟩
  | none =>
    have hx : (machine legal).exec h (.yieldScheduler t tid) k = .error .nullPointer k := by
      show k.schedulerOf t = _
      rw [schedulerOf, hi.zero t hl]
    rw [hx]
    exact .inr (.inl ⟨fun hs => hsolo hs hl, rfl, rfl⟩)

/-! ### Writes -/

theorem SameView.of_frame {k k' : Kernel} {loc : Loc} (he : k'.endpoints = k.endpoints)
    (ha : k'.slotAllocated = k.slotAllocated) : SameView k loc k' loc :=
  ⟨he, ha, fun _ _ => Iff.rfl, fun _ _ => Iff.rfl, fun _ => Iff.rfl⟩

theorem At.modifyTask [hF : Frame h S.locks F] {k : Kernel} {loc : Loc}
    (hat : At solo h S F k loc) (hx : S.tasks t = some x) (f : Task → Task) :
    At solo h (S.hold t (f x)) F (k.modifyTask t f) loc := by
  obtain ⟨hown, hrec⟩ := hat.owned t x hx
  refine ⟨hat.bound, hat.idle, hat.current, fun u y hy => ?_, fun u hu hn => ?_, hat.reaped,
    hat.locks, hat.alone, hF.view (SameView.of_frame (k := k) rfl rfl) hat.frame⟩
  · by_cases hut : u = t
    · subst hut
      rw [Holding.hold_self] at hy
      cases hy
      rw [modifyTask_tasks, update_self, hrec]
      exact ⟨hown, rfl⟩
    · rw [Holding.hold_of_ne hut] at hy
      rw [modifyTask_tasks, update_of_ne hut]
      exact hat.owned u y hy
  · by_cases hut : u = t
    · rw [hut, Holding.hold_self] at hn
      cases hn
    · rw [Holding.hold_of_ne hut] at hn
      exact hat.only u hu hn

/-- What a write may change in the record of a held task. -/
structure SafeWrite (x : Task) (f : Task → Task) : Prop where
  links : SameLinks x (f x)
  cpu : (f x).cpu = x.cpu
  rest : (f x).affinityPinned = x.affinityPinned ∧ (f x).tracker = x.tracker ∧
    (f x).tid = x.tid ∧ (f x).idle = x.idle
  state : x.idle = true → (f x).state = x.state ∨ (f x).state = .running

theorem Inv.write {k : Kernel} {loc : Loc} (hi : Inv legal k loc) (ht : loc t = some (.own h))
    {f : Task → Task} (hf : SafeWrite (k.tasks t) f) : Inv legal (k.modifyTask t f) loc := by
  refine hi.modifyTask ht hf.links ?_ hf.rest hf.state
  rw [hf.cpu]
  exact (hi.placed t _ ht).cpu

/-- A write of a held task. -/
theorem outline_write [Frame h S.locks F] {a : Action Unit} (f : Task → Task)
    (hx : S.tasks t = some x) (hf : SafeWrite x f)
    (hpre : ∀ k loc, loc t = some (.own h) → Pre h a k loc)
    (hexec : ∀ k, exec h a k = .ok () (k.modifyTask t f)) (htr : ∀ loc, track h a () loc = loc) :
    Outline solo legal h (perform a) (At solo h S F) fun _ => At solo h (S.hold t (f x)) F := by
  refine outline_perform (fun _ => At.stable (S.hold t (f x)) F) fun k loc hi hat => ?_
  obtain ⟨hown, hrec⟩ := hat.owned t x hx
  refine ⟨hpre k loc hown, (), _, hexec k, ?_⟩
  rw [htr]
  exact ⟨hi.write hown (hrec ▸ hf), guar_of_private ((Private.refl h k loc).modifyTask hown f),
    hat.modifyTask hx f⟩

theorem outline_setReg [Frame h S.locks F] (hx : S.tasks t = some x) (r : Fin 32) (value : Word) :
    Outline solo legal h (perform (.setReg t r value)) (At solo h S F) fun _ =>
      At solo h (S.hold t { x with context := x.context.setX r value }) F :=
  outline_write (fun task => { task with context := task.context.setX r value }) hx
    ⟨⟨rfl, rfl, rfl, rfl, rfl⟩, rfl, ⟨rfl, rfl, rfl, rfl⟩, fun _ => .inl rfl⟩
    (fun _ _ ht => ht) (fun _ => rfl) fun _ => rfl

theorem outline_writeRecvRegisters [Frame h S.locks F] (hx : S.tasks t = some x) (a0 : ℤ)
    (message : Message) :
    Outline solo legal h (perform (.writeRecvRegisters t a0 message)) (At solo h S F) fun _ =>
      At solo h (S.hold t { x with context := x.context.writeRecv a0 message }) F :=
  outline_write (fun task => { task with context := task.context.writeRecv a0 message }) hx
    ⟨⟨rfl, rfl, rfl, rfl, rfl⟩, rfl, ⟨rfl, rfl, rfl, rfl⟩, fun _ => .inl rfl⟩
    (fun _ _ ht => ht) (fun _ => rfl) fun _ => rfl

theorem outline_advanceMepc [Frame h S.locks F] (hx : S.tasks t = some x) :
    Outline solo legal h (perform (.advanceMepc t)) (At solo h S F) fun _ =>
      At solo h (S.hold t { x with context.mepc := x.context.mepc + 4 }) F :=
  outline_write (fun task => { task with context.mepc := task.context.mepc + 4 }) hx
    ⟨⟨rfl, rfl, rfl, rfl, rfl⟩, rfl, ⟨rfl, rfl, rfl, rfl⟩, fun _ => .inl rfl⟩
    (fun _ _ ht => ht) (fun _ => rfl) fun _ => rfl

/-- The state of an idle task is not written this way. -/
theorem outline_setState [Frame h S.locks F] (hx : S.tasks t = some x) (hidle : x.idle = false)
    (state : TaskState) : Outline solo legal h (perform (.setState t state)) (At solo h S F)
      fun _ => At solo h (S.hold t { x with state := state }) F := by
  refine outline_write (fun task => { task with state := state }) hx
    ⟨⟨rfl, rfl, rfl, rfl, rfl⟩, rfl, ⟨rfl, rfl, rfl, rfl⟩, fun hi => ?_⟩ (fun _ _ ht => ht)
    (fun _ => rfl) fun _ => rfl
  rw [hidle] at hi
  cases hi

theorem outline_setStateInfo [Frame h S.locks F] (hx : S.tasks t = some x) (info : Word) :
    Outline solo legal h (perform (.setStateInfo t info)) (At solo h S F) fun _ =>
      At solo h (S.hold t { x with stateInfo := info }) F :=
  outline_write (fun task => { task with stateInfo := info }) hx
    ⟨⟨rfl, rfl, rfl, rfl, rfl⟩, rfl, ⟨rfl, rfl, rfl, rfl⟩, fun _ => .inl rfl⟩
    (fun _ _ ht => ht) (fun _ => rfl) fun _ => rfl

/-- What is known of the hart's own record stays true. -/
theorem stable_own {φ : HartLocal → Prop} :
    (contract solo legal h).Stable fun k _ => φ (k.harts h) := by
  rintro k loc k' loc' - - ⟨hr, -⟩ hφ
  rw [hr.hart]
  exact hφ

/-- The context of the current task is saved. -/
theorem outline_saveCurrentContext [Frame h S.locks F] (hc : S.current = some t)
    (hx : S.tasks t = some x) (φ : HartLocal → Prop) :
    Outline solo legal h (perform .saveCurrentContext)
      (fun k loc => At solo h S F k loc ∧ φ (k.harts h)) fun _ k loc =>
        ∃ hart, φ hart ∧ At solo h
          (S.hold t { x with context := saveFromTrap hart.frame hart.satp }) F k loc := by
  refine outline_perform (fun _ => .exists fun hart => (Contract.Stable.const _).and
    (At.stable (S.hold t { x with context := saveFromTrap hart.frame hart.satp }) F))
    fun k loc hi hp => ?_
  obtain ⟨hat, hφ⟩ := hp
  obtain ⟨hown, -⟩ := hat.owned t x hx
  have hcur := hat.current.trans hc
  refine ⟨⟨t, hcur, hown⟩, (), k.modifyTask t fun task =>
    { task with context := saveFromTrap (k.harts h).frame (k.harts h).satp }, ?_, ?_, ?_,
    k.harts h, hφ, ?_⟩
  · show k.saveCurrentContext h = _
    rw [saveCurrentContext, hcur]
  · exact hi.write hown ⟨⟨rfl, rfl, rfl, rfl, rfl⟩, rfl, ⟨rfl, rfl, rfl, rfl⟩, fun _ => .inl rfl⟩
  · exact guar_of_private ((Private.refl h k loc).modifyTask hown _)
  · exact hat.modifyTask hx fun task =>
      { task with context := saveFromTrap (k.harts h).frame (k.harts h).satp }

theorem At.modifyHart [hF : Frame h S.locks F] {k : Kernel} {loc : Loc}
    (hat : At solo h S F k loc) {f : HartLocal → HartLocal}
    (hf : ∀ hart, SameBinding hart (f hart))
    (hc : ∀ hart, (f hart).currentTask = hart.currentTask) :
    At solo h S F (k.modifyHart h f) loc := by
  have hself : (k.modifyHart h f).harts h = f (k.harts h) := update_self ..
  refine ⟨?_, ?_, ?_, hat.owned, hat.only, hat.reaped, hat.locks, hat.alone,
    hF.view (SameView.of_frame (k := k) rfl rfl) hat.frame⟩
  · rw [hself, (hf _).1]
    exact hat.bound
  · rw [hself, (hf _).2.2.2]
    exact hat.idle
  · rw [hself, hc]
    exact hat.current

/-- A write of the hart's own record. -/
theorem outline_writeHart [Frame h S.locks F] {a : Action Unit} (f : Kernel → HartLocal → HartLocal)
    (hf : ∀ k hart, SameBinding hart (f k hart))
    (hc : ∀ k hart, (f k hart).currentTask = hart.currentTask) (hpre : ∀ k loc, Pre h a k loc)
    (hexec : ∀ k loc, At solo h S F k loc → exec h a k = .ok () (k.modifyHart h (f k)))
    (htr : ∀ loc, track h a () loc = loc) :
    Outline solo legal h (perform a) (At solo h S F) fun _ => At solo h S F := by
  refine outline_perform (fun _ => At.stable S F) fun k loc hi hat => ?_
  refine ⟨hpre k loc, (), _, hexec k loc hat, ?_⟩
  rw [htr]
  exact ⟨hi.modifyHart h (hf k), guar_of_private ((Private.refl h k loc).modifyHart _),
    hat.modifyHart (hf k) (hc k)⟩

theorem outline_setTimeslice [Frame h S.locks F] (ticks : Word) :
    Outline solo legal h (perform (.setTimeslice ticks)) (At solo h S F) fun _ => At solo h S F :=
  outline_writeHart (fun _ hart => { hart with timesliceTicks := ticks })
    (fun _ _ => ⟨rfl, rfl, rfl, rfl⟩) (fun _ _ => rfl) (fun _ _ => trivial) (fun _ _ _ => rfl)
    fun _ => rfl

theorem outline_countPreemption [Frame h S.locks F] :
    Outline solo legal h (perform .countPreemption) (At solo h S F) fun _ => At solo h S F :=
  outline_writeHart (fun _ hart =>
      { hart with schedulerPreemptionCount := hart.schedulerPreemptionCount + 1 })
    (fun _ _ => ⟨rfl, rfl, rfl, rfl⟩) (fun _ _ => rfl) (fun _ _ => trivial) (fun _ _ _ => rfl)
    fun _ => rfl

theorem outline_setCompare [Frame h S.locks F] (deadline : Word) :
    Outline solo legal h (perform (.setCompare deadline)) (At solo h S F) fun _ => At solo h S F :=
  outline_writeHart (fun _ hart => { hart with compare := deadline })
    (fun _ _ => ⟨rfl, rfl, rfl, rfl⟩) (fun _ _ => rfl) (fun _ _ => trivial) (fun _ _ _ => rfl)
    fun _ => rfl

theorem outline_enterTrap [Frame h S.locks F] (frame : TrapFrame) :
    Outline solo legal h (perform (.enterTrap frame)) (At solo h S F) fun _ k loc =>
      At solo h S F k loc ∧ (k.harts h).frame = frame := by
  refine outline_perform (fun _ => (At.stable S F).and
    (stable_own (φ := fun hart => hart.frame = frame))) fun k loc hi hat => ?_
  refine ⟨trivial, (), _, rfl, hi.modifyHart h fun _ => ⟨rfl, rfl, rfl, rfl⟩,
    guar_of_private ((Private.refl h k loc).modifyHart _),
    hat.modifyHart (fun _ => ⟨rfl, rfl, rfl, rfl⟩) fun _ => rfl, ?_⟩
  rw [modifyHart_harts, update_self]

theorem outline_restoreCurrentContext [Frame h S.locks F] (hc : S.current = some t) :
    Outline solo legal h (perform .restoreCurrentContext) (At solo h S F) fun _ =>
      At solo h S F := by
  refine outline_writeHart (fun k hart => { hart with
      frame := restoreToTrap (k.tasks t).context hart.frame, satp := (k.tasks t).context.satp })
    (fun _ _ => ⟨rfl, rfl, rfl, rfl⟩) (fun _ _ => rfl) (fun _ _ => trivial) (fun k loc hat => ?_)
    fun _ => rfl
  show k.restoreCurrentContext h = _
  rw [restoreCurrentContext, hat.current.trans hc]

/-- The hart makes a task it owns current. -/
theorem outline_setCurrentTask [hF : Frame h S.locks F]
    (ht : (∃ x, S.tasks t = some x ∧ x.state ≠ .ended) ∨ t = S.idle) :
    Outline solo legal h (perform (.setCurrentTask t)) (At solo h S F) fun _ k loc =>
      ∃ x, x.state = .running ∧ x.cpu = some h ∧
        At solo h ({ S with current := some t }.hold t x) F k loc := by
  refine outline_perform (fun _ => .exists fun x => (Contract.Stable.const _).and
    ((Contract.Stable.const _).and (At.stable ({ S with current := some t }.hold t x) F)))
    fun k loc hi hat => ?_
  obtain ⟨hown, hstate⟩ : loc t = some (.own h) ∧ (k.tasks t).state ≠ .ended := by
    rcases ht with ⟨x, hx, hs⟩ | rfl
    · obtain ⟨hown, hrec⟩ := hat.owned t x hx
      exact ⟨hown, hrec ▸ hs⟩
    · obtain ⟨-, hown, -, hs⟩ := (hi.hart h).idle _ hat.idle
      refine ⟨hown, ?_⟩
      rcases hs with hs | hs <;> rw [hs] <;> exact TaskState.noConfusion
  obtain ⟨hq, hd, hw⟩ := hi.unqueued_of_own hown
  have hexec : exec h (.setCurrentTask t) k = .ok () ((k.modifyTask t fun task =>
      { task with cpu := some h, state := .running }).modifyHart h fun hart =>
        { hart with currentTask := some t }) := by
    show k.setCurrentTask h t = _
    rw [setCurrentTask]
    exact if_neg (by simp [hstate, hq, hd, hw])
  have hi' : Inv legal (k.modifyTask t fun task => { task with cpu := some h, state := .running })
      loc :=
    hi.modifyTask hown ⟨rfl, rfl, rfl, rfl, rfl⟩ ⟨h, rfl, hat.bound⟩ ⟨rfl, rfl, rfl, rfl⟩
      fun _ => .inr rfl
  refine ⟨hown, (), _, hexec, hi'.modifyHart h fun _ => ⟨rfl, rfl, rfl, rfl⟩,
    guar_of_private (((Private.refl h k loc).modifyTask hown _).modifyHart _),
    { k.tasks t with cpu := some h, state := .running }, rfl, rfl, ?_⟩
  have hhart : ∀ k' : Kernel, (k'.modifyHart h fun hart =>
      { hart with currentTask := some t }).harts h =
        { k'.harts h with currentTask := some t } := fun k' => update_self ..
  refine ⟨?_, ?_, ?_, fun u y hy => ?_, fun u hu hn => ?_, hat.reaped, hat.locks, hat.alone,
    hF.view (SameView.of_frame (k := k) rfl rfl) hat.frame⟩
  · rw [hhart]
    exact hat.bound
  · rw [hhart]
    exact hat.idle
  · rw [hhart]
  · rw [modifyHart_tasks, modifyTask_tasks]
    by_cases hut : u = t
    · rw [hut, Holding.hold_self] at hy
      rw [hut, update_self]
      exact ⟨hown, Option.some.inj hy⟩
    · rw [Holding.hold_of_ne hut] at hy
      rw [update_of_ne hut]
      exact hat.owned u y hy
  · by_cases hut : u = t
    · rw [hut, Holding.hold_self] at hn
      cases hn
    · rw [Holding.hold_of_ne hut] at hn
      exact hat.only u hu hn

/-! ### Locks -/

theorem Private.setLock {k : Kernel} {loc : Loc} {l : Lock} {holder : Option HartIndex}
    (hfree : ∀ j, k.locks l = some j → j = h) (hnew : ∀ j, holder = some j → j = h) :
    Private h k loc (k.setLock l holder) := by
  refine ⟨fun _ _ _ _ => rfl, fun _ _ => rfl, fun j hj m => ?_, fun _ _ => rfl,
    fun _ => ⟨rfl, fun _ => ⟨rfl, rfl⟩⟩⟩
  by_cases hm : m = l
  · rw [hm, setLock_locks, update_self]
    exact iff_of_false (fun hh => hj (hnew j hh)) fun hh => hj (hfree j hh)
  · rw [setLock_locks, update_of_ne hm]

theorem At.acquire {k : Kernel} {loc : Loc} {l : Lock} {G : Kernel → Loc → Prop}
    (hat : At solo h S F k loc) (hg : G (k.setLock l (some h)) loc) :
    At solo h { S with locks := l :: S.locks } G (k.setLock l (some h)) loc := by
  refine ⟨hat.bound, hat.idle, hat.current, hat.owned, hat.only, hat.reaped, fun m => ?_,
    fun hs m j hm => ?_, hg⟩
  · rw [setLock_locks, List.mem_cons]
    by_cases hm : m = l
    · rw [hm, update_self]
      simp
    · rw [update_of_ne hm, hat.locks]
      simp [hm]
  · rw [setLock_locks] at hm
    by_cases hml : m = l
    · rw [hml, update_self] at hm
      exact (Option.some.inj hm).symm
    · rw [update_of_ne hml] at hm
      exact hat.alone hs m j hm

/-- Spinning on a lock the hart does not hold.  With the table lock comes the
knowledge that no endpoint is being destroyed. -/
theorem outline_acquire {l : Lock} (hl : l ∉ S.locks) {G : Kernel → Loc → Prop}
    [hG : Frame h (l :: S.locks) G]
    (hF : ∀ k loc, (l = .table → Quiet k loc) → F k loc → G k loc) :
    Outline solo legal h (perform (.acquire l)) (At solo h S F) fun _ =>
      At solo h { S with locks := l :: S.locks } G := by
  refine Valid.perform (fun k loc hi hat => ⟨trivial, ?_⟩)
    fun _ => At.stable { S with locks := l :: S.locks } G
  cases hfree : k.locks l with
  | none =>
    have hx : (machine legal).exec h (.acquire l) k = .ok () (k.setLock l (some h)) := by
      show k.acquire h l = _
      rw [acquire, hfree]
    have hview : SameView k loc (k.setLock l (some h)) loc := .of_frame rfl rfl
    rw [hx]
    refine ⟨hi.setLock l _ (fun _ hn => nomatch hn),
      guar_of_private (.setLock (fun j hj => ?_) fun j hj => (Option.some.inj hj).symm),
      hat.acquire (hG.view hview (hF k loc (fun hlt => ?_) hat.frame))⟩
    · rw [hfree] at hj
      cases hj
    · exact hi.quiet (hlt ▸ hfree)
  | some j =>
    have hx : (machine legal).exec h (.acquire l) k = .error .spin k := by
      show k.acquire h l = _
      rw [acquire, hfree]
    rw [hx]
    refine .inl ⟨rfl, fun hs => ?_⟩
    cases hat.alone hs l j hfree
    exact hl ((hat.locks l).mp hfree)

/-- Dropping the lock that was taken last.  The table lock is dropped only when no
endpoint is being destroyed. -/
theorem outline_release {l : Lock} {L : List Lock} (hL : S.locks = l :: L) (hl : l ∉ L)
    {G : Kernel → Loc → Prop} [hG : Frame h L G] (hF : ∀ k loc, F k loc → G k loc)
    (hq : l = .table → ∀ k loc, F k loc → Quiet k loc) :
    Outline solo legal h (perform (.release l)) (At solo h S F) fun _ =>
      At solo h { S with locks := L } G := by
  refine outline_perform (fun _ => At.stable { S with locks := L } G) fun k loc hi hat => ?_
  have hheld : k.locks l = some h := (hat.locks l).mpr (by rw [hL]; exact List.mem_cons_self)
  have hview : SameView k loc (k.setLock l none) loc := .of_frame rfl rfl
  refine ⟨trivial, (), k.setLock l none, rfl, hi.setLock l _ fun hlt _ => hq hlt k loc hat.frame,
    guar_of_private (.setLock (fun j hj => ?_) fun j hj => nomatch hj),
    hat.bound, hat.idle, hat.current, hat.owned, hat.only, hat.reaped, fun m => ?_,
    fun hs m j hm => ?_, hG.view hview (hF k loc hat.frame)⟩
  · rw [hheld] at hj
    exact (Option.some.inj hj).symm
  · rw [setLock_locks]
    by_cases hm : m = l
    · rw [hm, update_self]
      exact iff_of_false (fun hh => nomatch hh) hl
    · rw [update_of_ne hm, hat.locks, hL, List.mem_cons]
      simp [hm]
  · rw [setLock_locks] at hm
    by_cases hml : m = l
    · rw [hml, update_self] at hm
      cases hm
    · rw [update_of_ne hml] at hm
      exact hat.alone hs m j hm

/-- Code under a lock. -/
theorem outline_locked {l : Lock} {body : KProc α} {P : Kernel → Loc → Prop}
    {P' : Kernel → Loc → Prop} {R Q : α → Kernel → Loc → Prop}
    (hacq : Outline solo legal h (perform (.acquire l)) P fun _ => P')
    (hbody : Outline solo legal h body P' R)
    (hrel : ∀ b, Outline solo legal h (perform (.release l)) (R b) fun _ => Q b) :
    Outline solo legal h (KProc.locked l body) P Q :=
  hacq.bind fun _ => hbody.bind fun b => (hrel b).bind fun _ => .ret fun _ _ _ hq => hq

/-- A check that succeeds. -/
theorem outline_parkUnless {P : Kernel → Loc → Prop} {condition : Bool} {site : ParkSite}
    (hc : condition = true) :
    Outline solo legal h (KProc.parkUnless condition site) P fun _ => P := by
  rw [KProc.parkUnless, if_pos hc]
  exact .ret fun _ _ _ hp => hp

end Jixia
