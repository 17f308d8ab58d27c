/-
What the harts do to each other.

`Rely j` is what the hart `j` may count on while other harts act: its own tasks, its
record, its locks and its delay queue are left alone, and so are the joins, the
endpoint and the endpoint table whose lock it holds.  `guar_of_moves` derives that
from what an action of another hart writes (`Private`) and where it moves tasks
(`Entitled`).

`At` is the assertion of a hart in the middle of a kernel path: the tasks it holds
with their exact records, the locks it holds and its current task.  It is stable
under `Rely` (`At.stable`).
-/
import Jixia.Moves
import Jixia.TaskSyscall

namespace Jixia

open Function

variable {solo legal : Prop} {k k' : Kernel} {loc loc' : Loc} {t : TaskRef} {h j : HartIndex}

/-! ### Rely and guarantee -/

/-- What the hart `j` relies on. -/
structure Rely (j : HartIndex) (k : Kernel) (loc : Loc) (k' : Kernel) (loc' : Loc) : Prop where
  own : ∀ t, loc' t = some (.own j) ↔ loc t = some (.own j)
  reaped : ∀ t, loc' t = some (.reaped j) ↔ loc t = some (.reaped j)
  record : ∀ t, loc t = some (.own j) ∨ loc t = some (.reaped j) → k'.tasks t = k.tasks t
  hart : k'.harts j = k.harts j
  lock : ∀ l, k'.locks l = some j ↔ k.locks l = some j
  delay : ∀ t, loc' t = some (.delay j) ↔ loc t = some (.delay j)
  join : k.locks .taskManager = some j → ∀ t, loc' t = some .join ↔ loc t = some .join
  endpoint : ∀ e, k.locks (.endpoint e) = some j → k'.endpoints e = k.endpoints e ∧
    ∀ t, loc' t = some (.wait e) ↔ loc t = some (.wait e)
  table : k.locks .table = some j → k'.slotAllocated = k.slotAllocated ∧
    (∀ e, (k'.endpoints e).active = (k.endpoints e).active ∧
      (k'.endpoints e).retired = (k.endpoints e).retired) ∧
    ∀ t e, loc' t = some (.wait e) → loc t = some (.wait e) ∨ (k.endpoints e).active = true

/-- What the hart `h` promises to all others. -/
def Guar (h : HartIndex) (k : Kernel) (loc : Loc) (k' : Kernel) (loc' : Loc) : Prop :=
  ∀ j, j ≠ h → Rely j k loc k' loc'

/-- The hart `h` may put tasks into this place and take them out. -/
def Entitled (h : HartIndex) (k : Kernel) : Option Place → Prop
  | none | some (.run _) => True
  | some (.own j) | some (.reaped j) | some (.delay j) => j = h
  | some (.wait e) => k.locks (.endpoint e) = some h
  | some .join => k.locks .taskManager = some h

/-- The writes of the hart `h` stay clear of what belongs to others. -/
structure Private (h : HartIndex) (k : Kernel) (loc : Loc) (k' : Kernel) : Prop where
  record : ∀ u j, j ≠ h → loc u = some (.own j) ∨ loc u = some (.reaped j) →
    k'.tasks u = k.tasks u
  hart : ∀ j, j ≠ h → k'.harts j = k.harts j
  lock : ∀ j, j ≠ h → ∀ l, k'.locks l = some j ↔ k.locks l = some j
  endpoint : ∀ e, k.locks (.endpoint e) ≠ some h → k'.endpoints e = k.endpoints e
  table : k.locks .table ≠ some h → k'.slotAllocated = k.slotAllocated ∧
    ∀ e, (k'.endpoints e).active = (k.endpoints e).active ∧
      (k'.endpoints e).retired = (k.endpoints e).retired

/-- **The promise of an action**, from what it writes and what it moves. -/
theorem guar_of_moves (hp : Private h k loc k')
    (hm : ∀ u, loc' u = loc u ∨ (Entitled h k (loc u) ∧ Entitled h k (loc' u) ∧
      ∀ e, loc' u = some (.wait e) → (k.endpoints e).active = true)) :
    Guar h k loc k' loc' := by
  intro j hj
  -- A place `h` is not entitled to is left as it is.
  have hfix : ∀ x, ¬ Entitled h k (some x) → ∀ u, loc' u = some x ↔ loc u = some x := by
    intro x hx u
    rcases hm u with heq | ⟨hold, hnew, -⟩
    · rw [heq]
    · refine iff_of_false (fun hu => ?_) fun hu => ?_
      · rw [hu] at hnew
        exact hx hnew
      · rw [hu] at hold
        exact hx hold
  have hheld : ∀ l, k.locks l = some j → k.locks l ≠ some h := by
    intro l hl hl'
    rw [hl] at hl'
    exact hj (Option.some.inj hl')
  refine ⟨hfix _ hj, hfix _ hj, fun u hu => hp.record u j hj hu, hp.hart j hj, hp.lock j hj,
    hfix _ hj, fun hl => hfix _ (hheld _ hl), fun e hl => ⟨hp.endpoint e (hheld _ hl),
      hfix _ (hheld _ hl)⟩, fun hl => ⟨(hp.table (hheld _ hl)).1, (hp.table (hheld _ hl)).2, ?_⟩⟩
  intro u e hu
  rcases hm u with heq | ⟨-, -, hact⟩
  · exact .inl (heq ▸ hu)
  · exact .inr (hact e hu)

/-- An action that moves no task. -/
theorem guar_of_private (hp : Private h k loc k') : Guar h k loc k' loc :=
  guar_of_moves hp fun _ => .inl rfl

/-- An action that moves one task. -/
theorem guar_of_move {p : Option Place} (hp : Private h k loc k')
    (hold : Entitled h k (loc t)) (hnew : Entitled h k p)
    (hact : ∀ e, p = some (.wait e) → (k.endpoints e).active = true) :
    Guar h k loc k' (update loc t p) := by
  refine guar_of_moves hp fun u => ?_
  by_cases hu : u = t
  · subst hu
    rw [update_self]
    exact .inr ⟨hold, hnew, hact⟩
  · exact .inl (update_of_ne hu ..)

theorem Private.refl (h : HartIndex) (k : Kernel) (loc : Loc) : Private h k loc k :=
  ⟨fun _ _ _ _ => rfl, fun _ _ => rfl, fun _ _ _ => Iff.rfl, fun _ _ => rfl,
    fun _ => ⟨rfl, fun _ => ⟨rfl, rfl⟩⟩⟩

/-- Writing the record of a task of `h`. -/
theorem Private.modifyTask (hp : Private h k loc k') (ht : loc t = some (.own h))
    (f : Task → Task) : Private h k loc (k'.modifyTask t f) := by
  refine ⟨fun u j hj hu => ?_, hp.hart, hp.lock, hp.endpoint, hp.table⟩
  have hut : u ≠ t := by
    rintro rfl
    rw [ht] at hu
    rcases hu with hu | hu
    · cases hu
      exact hj rfl
    · cases hu
  rw [Kernel.modifyTask_tasks, update_of_ne hut]
  exact hp.record u j hj hu

/-- Writing the record of the hart `h`. -/
theorem Private.modifyHart (hp : Private h k loc k') (f : HartLocal → HartLocal) :
    Private h k loc (k'.modifyHart h f) := by
  refine ⟨hp.record, fun j hj => ?_, hp.lock, hp.endpoint, hp.table⟩
  rw [Kernel.modifyHart_harts, update_of_ne hj]
  exact hp.hart j hj

/-- A list operation on the task `t`, which no other hart owns. -/
theorem Private.moved (hm : Moved k k' loc t)
    (ht : ∀ j, j ≠ h → loc t ≠ some (.own j) ∧ loc t ≠ some (.reaped j))
    (hep : ∀ e, k.locks (.endpoint e) ≠ some h → k'.endpoints e = k.endpoints e)
    (hret : ∀ e, (k'.endpoints e).retired = (k.endpoints e).retired) :
    Private h k loc k' := by
  have hrest := hm.rest
  refine ⟨fun u j hj hu => hm.exact u ?_ ?_, fun j _ => by rw [hrest], fun j _ l => by rw [hrest],
    hep, fun _ => ⟨by rw [hrest], fun e => ⟨(hm.endpoint e).1, hret e⟩⟩⟩
  · rintro rfl
    rcases hu with hu | hu
    · exact (ht j hj).1 hu
    · exact (ht j hj).2 hu
  · rcases hu with hu | hu <;> simp [Unqueued, hu]

/-! ### The machine -/

/-- How a hart comes to run kernel code: the current task traps, or a secondary hart
enters its first task.  Idle tasks only yield or are interrupted; `legal` excludes
undefined syscall numbers. -/
inductive Starts (legal : Prop) (h : HartIndex) (k : Kernel) : KProc Unit → Prop
  | trap {c : TaskRef} {frame : TrapFrame} {clock : Clock} :
      (k.harts h).currentTask = some c → frame.isSyscall = true ∨ frame.isTimer = true →
      (legal → frame.isSyscall = true → Syscall.ofNumber (frame.x 17) ≠ none) →
      ((k.tasks c).idle = true → frame.isSyscall = true →
        Syscall.ofNumber (frame.x 17) = some .yield) →
      Starts legal h k (dispatch h c (k.tasks c).tid frame clock)
  | secondary {clock : Clock} : (k.harts h).currentTask = none → (k.harts h).idleTask ≠ none →
      Starts legal h k (secondaryBootstrap h clock)

/-- The current task of the hart, which is not idle, makes a call with a defined number. -/
theorem Starts.call {c : TaskRef} {frame : TrapFrame} {clock : Clock}
    (hcall : (k.harts h).currentTask = some c ∧ (k.tasks c).idle = false ∧
      frame.isSyscall = true ∧ Syscall.ofNumber (frame.x 17) ≠ none) :
    Starts legal h k (dispatch h c (k.tasks c).tid frame clock) := by
  obtain ⟨hcur, hidle, hsys, hnum⟩ := hcall
  exact .trap hcur (.inl hsys) (fun _ _ => hnum) fun hyes => by rw [hidle] at hyes; cases hyes

/-- The harts as threads over the shared kernel state. -/
def machine (legal : Prop) : Machine HartIndex Kernel Loc Halt Action where
  exec := exec
  track h _ a _ b loc := track h a b loc
  waits e := e = .spin
  starts := Starts legal

/-- The three ways a crash parks a hart: the crashed task was detached or
kernel-parented, or a crashed child that had completed became kernel-parented. -/
def CrashPark (e : Halt) (k : Kernel) : Prop :=
  (e = .park .endTaskDetachedCrashed ∧ ∃ t r, (k.tasks t).state = .ended ∧
    (k.tasks t).detached = true ∧ (k.tasks t).tracker = some r ∧
    (k.trackers r).status = .crashed) ∨
  (e = .park .endTaskRootCrashed ∧ ∃ t r, (k.tasks t).state = .ended ∧
    (k.tasks t).tracker = some r ∧ k.parentOf r = none ∧ (k.trackers r).status = .crashed) ∨
  (e = .park .removeTrackerCrashed ∧ ∃ c, k.trackerSlotsUsed c = true ∧ k.parentOf c = none ∧
    (k.trackers c).task = none ∧ (k.trackers c).status = .crashed)

/-- What holds whenever the hart `h` performs an action: it writes its own tasks
only, a receiver is popped off a dead endpoint only, and a slot is allocated only
when it is free and has no receivers. -/
def Pre (h : HartIndex) : {β : Type} → Action β → Kernel → Loc → Prop
  | _, .setReg t _ _, _, loc | _, .writeRecvRegisters t _ _, _, loc
  | _, .advanceMepc t, _, loc | _, .setState t _, _, loc | _, .setStateInfo t _, _, loc
  | _, .setCurrentTask t, _, loc | _, .runQueueInsert _ t, _, loc
  | _, .delayQueueInsert _ t _, _, loc | _, .endTaskLocked t _ _, _, loc
  | _, .waitTaskLocked t _, _, loc | _, .detachTaskLocked t, _, loc
  | _, .recvLocked t _, _, loc => loc t = some (.own h)
  | _, .releaseTaskLocked t, _, loc => loc t = some (.reaped h)
  | _, .saveCurrentContext, k, loc => ∃ t, (k.harts h).currentTask = some t ∧
      loc t = some (.own h)
  | _, .createEndpointLocked e _, k, loc => k.slotAllocated e = false ∧
      ∀ t, loc t ≠ some (.wait e)
  | _, .destroyPop e, k, _ => (k.endpoints e).active = false
  | _, _, _, _ => True

/-- The contract of the hart `h`.  Alone, it never spins and follows no null pointer;
without crashes it never parks. -/
def contract (solo legal : Prop) (h : HartIndex) :
    Machine.Contract Kernel Loc Halt Action where
  inv := Inv legal
  rely k loc k' loc' := Rely h k loc k' loc' ∧ (solo → k' = k ∧ loc' = loc)
  guar := Guar h
  pre := Pre h
  skips e := e = .spin ∧ ¬ solo
  admits e k k' _ := (¬ solo ∧ e = .nullPointer ∧ k' = k) ∨ (¬ legal ∧ CrashPark e k')

/-! ### Assertions -/

/-- What a hart holds in the middle of a kernel path. -/
structure Holding where
  /-- The idle task of the hart. -/
  idle : TaskRef
  current : Option TaskRef
  /-- The tasks in its hands, with their records; the idle task may be left out. -/
  tasks : TaskRef → Option Task
  /-- The task it has ended and not yet freed. -/
  reaped : Option TaskRef := none
  locks : List Lock := []

namespace Holding

/-- Take a task, or write its record. -/
abbrev hold (S : Holding) (t : TaskRef) (task : Task) : Holding :=
  { S with tasks := update S.tasks t (some task) }

/-- Give a task away. -/
abbrev drop (S : Holding) (t : TaskRef) : Holding :=
  { S with tasks := update S.tasks t none }

theorem hold_self (S : Holding) (t : TaskRef) (task : Task) :
    (S.hold t task).tasks t = some task := update_self ..

theorem hold_of_ne {t u : TaskRef} (hu : u ≠ t) (S : Holding) (task : Task) :
    (S.hold t task).tasks u = S.tasks u := update_of_ne hu ..

theorem drop_self (S : Holding) (t : TaskRef) : (S.drop t).tasks t = none :=
  update_self ..

theorem drop_of_ne {t u : TaskRef} (hu : u ≠ t) (S : Holding) : (S.drop t).tasks u = S.tasks u :=
  update_of_ne hu ..

end Holding

/-- The endpoint table, the waiting FIFOs, the delay queues and the joins are the same. -/
structure SameView (k : Kernel) (loc : Loc) (k' : Kernel) (loc' : Loc) : Prop where
  endpoints : k'.endpoints = k.endpoints
  slotAllocated : k'.slotAllocated = k.slotAllocated
  wait : ∀ t e, loc' t = some (.wait e) ↔ loc t = some (.wait e)
  delay : ∀ t q, loc' t = some (.delay q) ↔ loc t = some (.delay q)
  join : ∀ t, loc' t = some .join ↔ loc t = some .join

/-- An assertion about the endpoint table, the queues and the joins that is safe with the hart
`h` as long as it holds the locks `L`. -/
class Frame (h : HartIndex) (L : List Lock) (F : Kernel → Loc → Prop) : Prop where
  view : ∀ {k loc k' loc'}, SameView k loc k' loc' → F k loc → F k' loc'
  stable : ∀ {k loc k' loc'}, (∀ l ∈ L, k.locks l = some h) → Rely h k loc k' loc' →
    F k loc → F k' loc'

instance {L : List Lock} : Frame h L fun _ _ => True := ⟨fun _ => id, fun _ _ => id⟩

instance {L : List Lock} {F : Kernel → Loc → Prop} {l : Lock} [hF : Frame h L F] :
    Frame h (l :: L) F :=
  ⟨hF.view, fun hl => hF.stable fun m hm => hl m (List.mem_cons_of_mem l hm)⟩

/-- The hart `h` holds `S`, and `F` holds. -/
structure At (solo : Prop) (h : HartIndex) (S : Holding) (F : Kernel → Loc → Prop) (k : Kernel)
    (loc : Loc) : Prop where
  bound : (k.harts h).scheduler = true
  idle : (k.harts h).idleTask = some S.idle
  current : (k.harts h).currentTask = S.current
  owned : ∀ t x, S.tasks t = some x → loc t = some (.own h) ∧ k.tasks t = x
  only : ∀ t, loc t = some (.own h) → S.tasks t = none → t = S.idle
  reaped : ∀ t, loc t = some (.reaped h) ↔ S.reaped = some t
  locks : ∀ l, k.locks l = some h ↔ l ∈ S.locks
  alone : solo → ∀ l j, k.locks l = some j → j = h
  frame : F k loc

theorem At.imp {S : Holding} {F G : Kernel → Loc → Prop} (hat : At solo h S F k loc)
    (hg : G k loc) : At solo h S G k loc :=
  { hat with frame := hg }

/-- **The assertion of a hart is its own.** -/
theorem At.stable (S : Holding) (F : Kernel → Loc → Prop) [hF : Frame h S.locks F] :
    (contract solo legal h).Stable (At solo h S F) := by
  rintro k loc k' loc' - - ⟨hr, hsolo⟩ hat
  refine ⟨?_, ?_, ?_, fun t x hx => ?_, fun t ht hn => ?_, fun t => ?_, fun l => ?_, fun hs => ?_,
    hF.stable (fun l hl => (hat.locks l).mpr hl) hr hat.frame⟩
  · rw [hr.hart]
    exact hat.bound
  · rw [hr.hart]
    exact hat.idle
  · rw [hr.hart]
    exact hat.current
  · obtain ⟨hown, hrec⟩ := hat.owned t x hx
    exact ⟨(hr.own t).mpr hown, (hr.record t (.inl hown)).trans hrec⟩
  · exact hat.only t ((hr.own t).mp ht) hn
  · rw [hr.reaped]
    exact hat.reaped t
  · rw [hr.lock]
    exact hat.locks l
  · rw [(hsolo hs).1]
    exact hat.alone hs

end Jixia
