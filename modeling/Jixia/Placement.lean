/-
Where every task is.

A task that exists is in one place: owned by a hart, which runs it or moves it
from one queue to another, or published in a run queue, a delay queue, the waiting
FIFO of an endpoint or a join.  The source keeps no such record: `Loc` is auxiliary
state, driven by the actions (`track`) and never read by them.

`Inv` ties it to the tables: the lists behind the queue heads hold exactly the
tasks placed there, the fields of a task record say the same as its place, and the
tracker table is well formed.
-/
import Jixia.KernelPaths
import Jixia.TaskQueues
import Jixia.EndpointSections
import Jixia.TaskSections
import Jixia.TaskCreation

namespace Jixia

open Function

/-- The places of a task.  A task is `reaped` while the hart that ended it has
recorded the exit and not yet freed the slot. -/
inductive Place
  | own (h : HartIndex)
  | reaped (h : HartIndex)
  | run (q : RunQueueRef)
  | delay (q : HartIndex)
  | wait (e : EndpointRef)
  | join
  deriving DecidableEq

/-- The place of every task; a free slot has none. -/
abbrev Loc := TaskRef → Option Place

/-- How an action of the hart `h` with the result `b` moves tasks. -/
def track (h : HartIndex) : {β : Type} → Action β → β → Loc → Loc
  | _, .runQueueInsert q t, true, loc => update loc t (some (.run q))
  | _, .runQueueRemove _, some t, loc => update loc t (some (.own h))
  | _, .delayQueueInsert q t _, true, loc => update loc t (some (.delay q))
  | _, .delayQueueRemoveExpired _ _, some t, loc => update loc t (some (.own h))
  | _, .createTaskLocked .., some (t, _), loc => update loc t (some (.own h))
  | _, .endTaskLocked t _ _, none, loc => update loc t (some (.reaped h))
  | _, .endTaskLocked t _ _, some waiter, loc =>
    update (update loc t (some (.reaped h))) waiter (some (.own h))
  | _, .releaseTaskLocked t, _, loc => update loc t none
  | _, .waitTaskLocked t _, .blocked, loc => update loc t (some .join)
  | _, .destroyPop _, some t, loc => update loc t (some (.own h))
  | _, .sendLocked .., .wake t, loc => update loc t (some (.own h))
  | _, .recvLocked t handle, .blocked, loc =>
    update loc t (some (.wait (EndpointHandle.fromRaw handle).slot))
  | _, _, _, loc => loc

/-- A task whose exit is not recorded yet. -/
def Live (loc : Loc) (t : TaskRef) : Prop := ∃ p, loc t = some p ∧ ∀ h, p ≠ .reaped h

/-- The task record without the links of the three kinds of queue. -/
def Task.core (task : Task) : Task :=
  { task with delay := {}, messageWait := {}, queued := false, previous := none, next := none }

/-- What the state of a task says in each place.  A task that waits for a message
carries the handle of the endpoint, as long as the endpoint is there. -/
def Place.Allows (k : Kernel) (task : Task) : Place → Prop
  | .own _ => True
  | .reaped _ => task.state = .ended
  | .run _ => task.state = .ready
  | .delay _ => task.state = .blockedSleep
  | .wait e => task.state = .blockedMessage ∧ ((k.endpoints e).active = true →
      task.stateInfo = EndpointHandle.raw ⟨BitVec.ofNat 32 e.val, (k.endpoints e).generation⟩)
  | .join => task.state = .blockedJoin

/-- The place belongs to a hart. -/
def Place.isOwn : Place → Bool
  | .own _ => true
  | _ => false

/-- The record of a task in the place `p`. -/
structure Placed (k : Kernel) (task : Task) (p : Place) : Prop where
  cpu : ∃ h, task.cpu = some h ∧ (k.harts h).scheduler = true
  pinned : task.affinityPinned = 0
  idle : p.isOwn = false → task.idle = false
  state : p.Allows k task

/-- The record of a hart: its queues are its own, and so is its idle task, which is
always ready to run. -/
structure HartOk (k : Kernel) (loc : Loc) (h : HartIndex) : Prop where
  queues : (k.harts h).scheduler = true →
    (k.harts h).schedulerExtra = some (.localRunQueue h) ∧ (k.harts h).delayList = some h
  idle : ∀ i, (k.harts h).idleTask = some i → (k.harts h).scheduler = true ∧
    loc i = some (.own h) ∧ (k.tasks i).idle = true ∧
    ((k.tasks i).state = .ready ∨ (k.tasks i).state = .running)

/-- The queues hold the tasks that are placed there, and no other ones. -/
structure QueuesOk (k : Kernel) (loc : Loc) : Prop where
  run : ∃ r, RunLists k r ∧ ∀ q t, t ∈ r q ↔ loc t = some (.run q)
  delay : ∃ d, DelayLists k d ∧ ∀ q t, t ∈ d q ↔ loc t = some (.delay q)
  wait : ∃ w, IpcInv k w (fun _ => True) ∧ ∀ e t, t ∈ w e ↔ loc t = some (.wait e)

/-- A dead endpoint has no blocked receivers. -/
def Quiet (k : Kernel) (loc : Loc) : Prop :=
  ∀ t e, loc t = some (.wait e) → (k.endpoints e).active = true

/-- **What holds between any two actions.**  Only while an endpoint is being
destroyed, under the table lock, a dead endpoint has blocked receivers; `legal`
excludes crashes. -/
structure Inv (legal : Prop) (k : Kernel) (loc : Loc) : Prop where
  used : ∀ t, k.taskSlotsUsed t = true ↔ loc t ≠ none
  zero : ∀ t, loc t = none → k.tasks t = {}
  queues : QueuesOk k loc
  quiet : k.locks .table = none → Quiet k loc
  placed : ∀ t p, loc t = some p → Placed k (k.tasks t) p
  hart : ∀ h, HartOk k loc h
  idleOf : ∀ t, (k.tasks t).idle = true → ∃ h, (k.harts h).idleTask = some t
  tracker : TrackerInv k (fun _ => False) (Live loc) fun t => loc t = some .join
  noCrash : legal → NoCrash k

namespace Inv

variable {legal : Prop} {k k' : Kernel} {loc loc' : Loc} {t : TaskRef} {h : HartIndex} {p : Place}

/-- A task is marked as queued exactly in its place. -/
theorem queued_iff (hi : Inv legal k loc) (t : TaskRef) :
    (k.tasks t).queued = true ↔ ∃ q, loc t = some (.run q) := by
  obtain ⟨r, hr, hmem⟩ := hi.queues.run
  simp only [hr.queued, hmem]

theorem delay_iff (hi : Inv legal k loc) (t : TaskRef) :
    (k.tasks t).delay.queued = true ↔ ∃ q, loc t = some (.delay q) := by
  obtain ⟨d, hd, hmem⟩ := hi.queues.delay
  simp only [hd.queued, hmem]

theorem wait_iff (hi : Inv legal k loc) (t : TaskRef) :
    (k.tasks t).messageWait.queued = true ↔ ∃ e, loc t = some (.wait e) := by
  obtain ⟨w, hw, hmem⟩ := hi.queues.wait
  simp only [hw.lists.queued, hmem]

/-- A task in no queue carries no mark. -/
theorem unqueued (hi : Inv legal k loc) (hr : ∀ q, loc t ≠ some (.run q))
    (hd : ∀ q, loc t ≠ some (.delay q)) (hw : ∀ e, loc t ≠ some (.wait e)) :
    (k.tasks t).queued = false ∧ (k.tasks t).delay.queued = false ∧
      (k.tasks t).messageWait.queued = false := by
  refine ⟨?_, ?_, ?_⟩ <;> rw [← Bool.not_eq_true]
  · rw [hi.queued_iff]
    rintro ⟨q, hq⟩
    exact hr q hq
  · rw [hi.delay_iff]
    rintro ⟨q, hq⟩
    exact hd q hq
  · rw [hi.wait_iff]
    rintro ⟨e, he⟩
    exact hw e he

theorem unqueued_of_own (hi : Inv legal k loc) (ht : loc t = some (.own h)) :
    (k.tasks t).queued = false ∧ (k.tasks t).delay.queued = false ∧
      (k.tasks t).messageWait.queued = false := by
  refine hi.unqueued ?_ ?_ ?_ <;> simp [ht]

/-- An idle task that a hart owns is the idle task of that hart. -/
theorem idleTask_of_own (hi : Inv legal k loc) (ht : loc t = some (.own h))
    (hidle : (k.tasks t).idle = true) : (k.harts h).idleTask = some t := by
  obtain ⟨j, hj⟩ := hi.idleOf t hidle
  have hown := ((hi.hart j).idle t hj).2.1
  rw [ht] at hown
  cases hown
  exact hj

theorem live_of_own (ht : loc t = some (.own h)) : Live loc t :=
  ⟨_, ht, fun _ => Place.noConfusion⟩

end Inv

/-! ### Changes that move no task -/

variable {legal : Prop} {k k' : Kernel} {loc loc' : Loc} {t : TaskRef} {h : HartIndex} {p : Place}

/-- Two task records have the same links. -/
def SameLinks (task task' : Task) : Prop :=
  task'.delay = task.delay ∧ task'.messageWait = task.messageWait ∧ task'.queued = task.queued ∧
    task'.previous = task.previous ∧ task'.next = task.next

theorem QueuesOk.congr (hq : QueuesOk k loc) (hlinks : ∀ t, SameLinks (k.tasks t) (k'.tasks t))
    (hrun : k'.runQueues = k.runQueues) (hdelay : k'.delayQueues = k.delayQueues)
    (hep : k'.endpoints = k.endpoints) (hal : k'.slotAllocated = k.slotAllocated) :
    QueuesOk k' loc := by
  obtain ⟨⟨r, hr, hrm⟩, ⟨d, hd, hdm⟩, ⟨w, hw, hwm⟩⟩ := hq
  refine ⟨⟨r, ?_, hrm⟩, ⟨d, ?_, hdm⟩, ⟨w, ?_, hwm⟩⟩
  · exact hr.congr hrun fun t => ⟨(hlinks t).2.2.2.2, (hlinks t).2.2.2.1, (hlinks t).2.2.1⟩
  · exact hd.congr hdelay fun t => (hlinks t).1
  · exact hw.same ⟨hep, hal, fun t => (hlinks t).2.1⟩

/-- The part of a hart record that is fixed once the hart is bound. -/
def SameBinding (hart hart' : HartLocal) : Prop :=
  hart'.scheduler = hart.scheduler ∧ hart'.schedulerExtra = hart.schedulerExtra ∧
    hart'.delayList = hart.delayList ∧ hart'.idleTask = hart.idleTask

theorem Placed.congr {task task' : Task} (hp : Placed k task p)
    (hbind : ∀ h, SameBinding (k.harts h) (k'.harts h))
    (hep : ∀ e, p = .wait e → (k'.endpoints e).active = (k.endpoints e).active ∧
      (k'.endpoints e).generation = (k.endpoints e).generation)
    (hcore : task'.core = task.core) : Placed k' task' p := by
  have hcpu : task'.cpu = task.cpu := show task'.core.cpu = task.core.cpu by rw [hcore]
  have hstate : task'.state = task.state := show task'.core.state = task.core.state by rw [hcore]
  have hinfo : task'.stateInfo = task.stateInfo :=
    show task'.core.stateInfo = task.core.stateInfo by rw [hcore]
  have hidle : task'.idle = task.idle := show task'.core.idle = task.core.idle by rw [hcore]
  have hpin : task'.affinityPinned = task.affinityPinned :=
    show task'.core.affinityPinned = task.core.affinityPinned by rw [hcore]
  refine ⟨?_, hpin.trans hp.pinned, fun ho => ?_, ?_⟩
  · obtain ⟨j, hj, hs⟩ := hp.cpu
    exact ⟨j, hcpu.trans hj, (hbind j).1.trans hs⟩
  · rw [hidle]
    exact hp.idle ho
  · have hold := hp.state
    cases p with
    | wait e =>
      obtain ⟨ha, hg⟩ := hep e rfl
      simp only [Place.Allows, hstate, hinfo, ha, hg] at hold ⊢
      exact hold
    | _ =>
      simp only [Place.Allows, hstate] at hold ⊢
      try exact hold

theorem HartOk.congr (hh : HartOk k loc h) (hbind : SameBinding (k.harts h) (k'.harts h))
    (hidle : ∀ i, (k.harts h).idleTask = some i → loc' i = loc i ∧
      (k'.tasks i).idle = (k.tasks i).idle ∧
      ((k'.tasks i).state = (k.tasks i).state ∨ (k'.tasks i).state = .running)) :
    HartOk k' loc' h := by
  obtain ⟨hs, hx, hd, hi⟩ := hbind
  refine ⟨fun hb => ?_, fun i hti => ?_⟩
  · rw [hx, hd]
    exact hh.queues (hs ▸ hb)
  · rw [hi] at hti
    obtain ⟨hsch, hown, hid, hst⟩ := hh.idle i hti
    obtain ⟨hl, hi', hs'⟩ := hidle i hti
    refine ⟨hs.trans hsch, hl.trans hown, hi'.trans hid, ?_⟩
    rcases hs' with hs' | hs'
    · rw [hs']
      exact hst
    · exact .inr hs'

namespace Inv

/-- Taking or dropping a lock. -/
theorem setLock (hi : Inv legal k loc) (l : Lock) (holder : Option HartIndex)
    (hq : l = .table → holder = none → Quiet k loc) : Inv legal (k.setLock l holder) loc := by
  refine ⟨hi.used, hi.zero, hi.queues.congr (fun _ => ⟨rfl, rfl, rfl, rfl, rfl⟩) rfl rfl rfl rfl,
    fun hn => ?_, fun t p hp => (hi.placed t p hp).congr (fun _ => ⟨rfl, rfl, rfl, rfl⟩)
      (fun _ _ => ⟨rfl, rfl⟩) rfl,
    fun h => (hi.hart h).congr ⟨rfl, rfl, rfl, rfl⟩ fun _ _ => ⟨rfl, rfl, .inl rfl⟩, hi.idleOf,
    hi.tracker.congr rfl rfl rfl (fun _ _ => ⟨rfl, rfl⟩) (fun _ => Iff.rfl) fun _ => Iff.rfl,
    hi.noCrash⟩
  by_cases hl : l = .table
  · refine hq hl ?_
    rwa [hl, Kernel.setLock_locks, update_self] at hn
  · rw [Kernel.setLock_locks, update_of_ne (Ne.symm hl)] at hn
    exact hi.quiet hn

/-- Writing the record of a hart, its binding apart. -/
theorem modifyHart (hi : Inv legal k loc) (h : HartIndex) {f : HartLocal → HartLocal}
    (hf : ∀ hart, SameBinding hart (f hart)) : Inv legal (k.modifyHart h f) loc := by
  have hbind : ∀ j, SameBinding (k.harts j) ((k.modifyHart h f).harts j) := by
    intro j
    rw [Kernel.modifyHart_harts]
    by_cases hj : j = h
    · rw [hj, update_self]
      exact hf _
    · rw [update_of_ne hj]
      exact ⟨rfl, rfl, rfl, rfl⟩
  refine ⟨hi.used, hi.zero, hi.queues.congr (fun _ => ⟨rfl, rfl, rfl, rfl, rfl⟩) rfl rfl rfl rfl,
    hi.quiet, fun t p hp => (hi.placed t p hp).congr hbind (fun _ _ => ⟨rfl, rfl⟩) rfl,
    fun j => (hi.hart j).congr (hbind j) fun _ _ => ⟨rfl, rfl, .inl rfl⟩, fun t ht => ?_,
    hi.tracker.congr rfl rfl rfl (fun _ _ => ⟨rfl, rfl⟩) (fun _ => Iff.rfl) fun _ => Iff.rfl,
    hi.noCrash⟩
  obtain ⟨j, hj⟩ := hi.idleOf t ht
  exact ⟨j, (hbind j).2.2.2.trans hj⟩

/-- Writing the record of an owned task.  An idle task has to stay ready. -/
theorem modifyTask (hi : Inv legal k loc) (ht : loc t = some (.own h)) {f : Task → Task}
    (hlinks : SameLinks (k.tasks t) (f (k.tasks t)))
    (hcpu : ∃ j, (f (k.tasks t)).cpu = some j ∧ (k.harts j).scheduler = true)
    (hrest : (f (k.tasks t)).affinityPinned = (k.tasks t).affinityPinned ∧
      (f (k.tasks t)).tracker = (k.tasks t).tracker ∧ (f (k.tasks t)).tid = (k.tasks t).tid ∧
      (f (k.tasks t)).idle = (k.tasks t).idle)
    (hstate : (k.tasks t).idle = true →
      (f (k.tasks t)).state = (k.tasks t).state ∨ (f (k.tasks t)).state = .running) :
    Inv legal (k.modifyTask t f) loc := by
  have hself : (k.modifyTask t f).tasks t = f (k.tasks t) := update_self ..
  have hother : ∀ u, u ≠ t → (k.modifyTask t f).tasks u = k.tasks u :=
    fun u hu => update_of_ne hu ..
  obtain ⟨hpin, htr, htid, hidle⟩ := hrest
  refine ⟨hi.used, fun u hu => ?_, hi.queues.congr (fun u => ?_) rfl rfl rfl rfl, hi.quiet,
    fun u p hp => ?_, fun j => (hi.hart j).congr ⟨rfl, rfl, rfl, rfl⟩ fun i hji => ⟨rfl, ?_⟩,
    fun u hu => ?_, hi.tracker.congr rfl rfl rfl (fun u _ => ?_) (fun _ => Iff.rfl)
      fun _ => Iff.rfl, hi.noCrash⟩
  · rw [hother u fun hut => by rw [hut, ht] at hu; cases hu]
    exact hi.zero u hu
  · by_cases hut : u = t
    · rw [hut, hself]
      exact hlinks
    · rw [hother u hut]
      exact ⟨rfl, rfl, rfl, rfl, rfl⟩
  · by_cases hut : u = t
    · subst hut
      rw [ht] at hp
      cases hp
      rw [hself]
      refine ⟨hcpu, hpin.trans (hi.placed u _ ht).pinned, fun ho => ?_, trivial⟩
      cases ho
    · rw [hother u hut]
      exact (hi.placed u p hp).congr (fun _ => ⟨rfl, rfl, rfl, rfl⟩) (fun _ _ => ⟨rfl, rfl⟩) rfl
  · by_cases hit : i = t
    · subst hit
      rw [hself]
      exact ⟨hidle, hstate ((hi.hart j).idle i hji).2.2.1⟩
    · rw [hother i hit]
      exact ⟨rfl, .inl rfl⟩
  · by_cases hut : u = t
    · rw [hut, hself, hidle] at hu
      rw [hut]
      exact hi.idleOf t hu
    · rw [hother u hut] at hu
      exact hi.idleOf u hu
  · by_cases hut : u = t
    · rw [hut, hself]
      exact ⟨htr, htid⟩
    · rw [hother u hut]
      exact ⟨rfl, rfl⟩

end Inv

end Jixia
