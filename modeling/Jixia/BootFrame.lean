/-
What the virtual memory manager shows of the executive.

`create_task` reads a few members that are fixed at boot: the platform, the list of
mapped stacks and two flags.

* `createTaskLocked_some` — with every stack mapped, a free slot and a free tracker, a
  proper request gives a task;
* `exec_fixedSide` — no action of any hart changes these members, the list of mapped
  stacks apart; only the guards change the locks, and few actions the records of the harts;
* `exec_bootSide` — once every stack is mapped, the list stays, too.
-/
import Jixia.Bootstrap
import Jixia.TaskCreation

namespace Jixia

open Kernel

/-! ### What a mapping call looks at -/

/-- The part of the executive that `create_task` reads before it fills in a task. -/
def Kernel.bootSide (k : Kernel) : Platform × Bool × List Word × Bool :=
  (k.platform, k.vmmInitialized, k.mappedStackBases, k.taskManagerInitialized)

/-- The same with the locks, which only the guards change, and the records of the harts. -/
def Kernel.fixedSide (k : Kernel) :
    (Platform × Bool × List Word × Bool) × (Lock → Option HartIndex) × (HartIndex → HartLocal) :=
  (k.bootSide, k.locks, k.harts)

/-- A piece of code leaves it alone, however it ends. -/
def KeepsBoot {β : Type} (k : Kernel) (result : Outcome β) : Prop :=
  result.state.fixedSide = k.fixedSide

section Frame

variable {k k' : Kernel} {α β : Type} {h : HartIndex}

theorem KeepsBoot.andThen {result : Outcome α} {f : α → Kernel → Outcome β}
    (hr : KeepsBoot k result) (hf : ∀ a k', k'.fixedSide = k.fixedSide → KeepsBoot k' (f a k')) :
    KeepsBoot k (result.andThen f) := by
  cases result with
  | error e k' => exact hr
  | ok a k' => exact (hf a k' hr).trans hr

theorem KeepsBoot.of_same {result : Outcome β} (hr : KeepsBoot k' result)
    (hs : k'.fixedSide = k.fixedSide) : KeepsBoot k result :=
  hr.trans hs

theorem KeepsBoot.ok {b : β} (h : k'.fixedSide = k.fixedSide) : KeepsBoot k (.ok b k') := h

theorem KeepsBoot.error {e : Halt} (h : k'.fixedSide = k.fixedSide) :
    KeepsBoot k (.error e k' : Outcome β) := h

/-! ### Queues and endpoints -/

theorem runQueueInsert_fixedSide (q : RunQueueRef) (t : TaskRef) :
    (k.runQueueInsert q t).2.fixedSide = k.fixedSide := by
  rw [Kernel.runQueueInsert]
  split
  · rfl
  · cases (k.runQueues q).tail <;> rfl

theorem runQueueRemove_keepsBoot (q : RunQueueRef) : KeepsBoot k (k.runQueueRemove q) := by
  rw [Kernel.runQueueRemove]
  split
  · exact .ok rfl
  · rename_i selected _
    cases (k.tasks selected).next <;> simp only <;> split <;> rfl

theorem delayQueueInsert_keepsBoot (q : HartIndex) (t : TaskRef) (deadline : Word) :
    KeepsBoot k (k.delayQueueInsert q t deadline) := by
  rw [delayQueueInsert]
  split
  · exact .ok rfl
  · cases k.delaySeek deadline (kMaxTasks + 1) none (k.delayQueues q) with
    | none => exact .error rfl
    | some place =>
      obtain ⟨before, after⟩ := place
      cases before <;> cases after <;> rfl

theorem delayQueueRemoveExpired_fixedSide (q : HartIndex) (now : Word) :
    (k.delayQueueRemoveExpired q now).2.fixedSide = k.fixedSide := by
  rw [delayQueueRemoveExpired]
  split
  · rfl
  · rename_i t _
    split
    · rfl
    · cases (k.tasks t).delay.next <;> rfl

theorem waiterPush_fixedSide (e : EndpointRef) (t : TaskRef) :
    (k.waiterPush e t).fixedSide = k.fixedSide := by
  rw [waiterPush]
  cases (k.endpoints e).waitingTail <;> rfl

theorem waiterPop_fixedSide (e : EndpointRef) : (k.waiterPop e).2.fixedSide = k.fixedSide := by
  rw [waiterPop]
  split
  · rfl
  · rename_i t _
    cases (k.tasks t).messageWait.next <;> rfl

theorem destroyEndpointLocked_fixedSide (caller : TaskId) (parsed : EndpointHandle) :
    (k.destroyEndpointLocked caller parsed).2.fixedSide = k.fixedSide := by
  rw [destroyEndpointLocked]
  split
  · rfl
  · split
    · rfl
    · simp only
      split <;> rfl

theorem destroyPop_fixedSide (e : EndpointRef) : (k.destroyPop e).2.fixedSide = k.fixedSide := by
  have hpop := waiterPop_fixedSide (k := k) e
  rw [destroyPop]
  split
  · rename_i heq
    rwa [heq] at hpop
  · rename_i heq
    rw [heq] at hpop
    exact hpop

theorem sendLocked_keepsBoot (sender : TaskId) (parsed : EndpointHandle) (words : Fin 4 → Word) :
    KeepsBoot k (k.sendLocked sender parsed words) := by
  have hpop := waiterPop_fixedSide (k := k) parsed.slot
  rw [sendLocked]
  simp only
  split
  · exact .ok rfl
  split
  · exact .error rfl
  split
  · split
    · rename_i heq
      rw [heq] at hpop
      exact .error hpop
    · rename_i heq
      rw [heq] at hpop
      exact .ok hpop
  split
  · exact .ok rfl
  · exact .ok rfl

theorem tryRecvLocked_fixedSide (parsed : EndpointHandle) :
    (k.tryRecvLocked parsed).2.fixedSide = k.fixedSide := by
  rw [tryRecvLocked]
  split
  · rfl
  · split <;> rfl

theorem recvLocked_keepsBoot (caller : TaskRef) (handle : Word) :
    KeepsBoot k (k.recvLocked caller handle) := by
  rw [recvLocked]
  simp only
  split
  · exact .ok rfl
  split
  · exact .error rfl
  split
  · exact .ok rfl
  · exact .ok (waiterPush_fixedSide (k := k) _ caller)

/-! ### Trackers -/

theorem linkTrackerLocked_fixedSide (r : TrackerRef) (parent : Option TrackerRef) :
    (k.linkTrackerLocked r parent).fixedSide = k.fixedSide := by
  rw [linkTrackerLocked]
  cases parent <;> simp only [setSiblingHead] <;> split <;> rfl

theorem unlinkTrackerLocked_fixedSide (r : TrackerRef) :
    (k.unlinkTrackerLocked r).fixedSide = k.fixedSide := by
  rw [unlinkTrackerLocked]
  cases (k.trackers r).previousSibling <;> cases (k.trackers r).nextSibling <;>
    cases (k.trackers r).parent <;> rfl

theorem releaseTrackerLocked_keepsBoot (r : TrackerRef) :
    KeepsBoot k (k.releaseTrackerLocked r) := by
  rw [releaseTrackerLocked]
  split <;> rfl

theorem releaseTaskLocked_keepsBoot (t : TaskRef) : KeepsBoot k (k.releaseTaskLocked t) := by
  rw [releaseTaskLocked]
  split
  · rfl
  · split <;> rfl

/-- The removal and its loop, by induction on the bound. -/
theorem removal_keepsBoot (fuel : ℕ) : ∀ k : Kernel,
    (∀ r, KeepsBoot k (k.removeTrackerLocked fuel r)) ∧
      ∀ r newParent, KeepsBoot k (k.reparentChildren fuel r newParent) := by
  induction fuel with
  | zero => exact fun k => ⟨fun r => .error rfl, fun r p => .error rfl⟩
  | succ fuel ih =>
    intro k
    refine ⟨fun r => ?_, fun r newParent => ?_⟩
    · rw [removeTrackerLocked]
      have hloop := (ih (k.unlinkTrackerLocked r)).2 r (k.trackers r).parent
      exact (hloop.of_same (unlinkTrackerLocked_fixedSide r)).andThen
        fun _ k' _ => releaseTrackerLocked_keepsBoot r
    · rw [reparentChildren]
      split
      · exact .ok rfl
      · rename_i child _
        have hmove : ((k.unlinkTrackerLocked child).linkTrackerLocked child newParent).fixedSide =
            k.fixedSide :=
          (linkTrackerLocked_fixedSide child newParent).trans (unlinkTrackerLocked_fixedSide child)
        simp only
        split
        · split
          · exact .error hmove
          · exact (((ih _).1 child).of_same hmove).andThen fun _ k' _ => (ih k').2 r newParent
        · exact ((ih _).2 r newParent).of_same hmove

theorem removeTrackerLocked_keepsBoot (fuel : ℕ) (r : TrackerRef) :
    KeepsBoot k (k.removeTrackerLocked fuel r) :=
  (removal_keepsBoot fuel k).1 r

theorem endTaskLocked_keepsBoot (t : TaskRef) (value : Word) (status : ExitStatus) :
    KeepsBoot k (k.endTaskLocked t value status) := by
  rw [endTaskLocked]
  split
  · exact .error rfl
  simp only
  split
  · split
    · exact .error rfl
    · exact (removeTrackerLocked_keepsBoot ..).andThen fun _ _ _ => .ok rfl
  split
  · split
    · split
      · exact .error rfl
      · refine (removeTrackerLocked_keepsBoot ..).andThen fun _ k' _ => ?_
        split
        · exact .error rfl
        · exact .ok rfl
    · exact .ok rfl
  · split
    · exact .error rfl
    · exact (removeTrackerLocked_keepsBoot ..).andThen fun _ _ _ => .ok rfl

theorem waitTaskLocked_keepsBoot (t : TaskRef) (tid : Word) :
    KeepsBoot k (k.waitTaskLocked t tid) := by
  rw [waitTaskLocked]
  split
  · exact .error rfl
  · rename_i r _
    have hfind : KeepsBoot k (k.findChildLocked r tid) := by
      rw [findChildLocked]
      split <;> split <;> rfl
    refine hfind.andThen fun child k' _ => ?_
    split
    · exact .ok rfl
    · split
      · exact (removeTrackerLocked_keepsBoot ..).andThen fun _ _ _ => .ok rfl
      · exact .ok rfl

end Frame

/-! ### Mapped stacks -/

/-- Every task stack is aligned and known as mapped. -/
structure StacksMapped (k : Kernel) : Prop where
  vmm : k.vmmInitialized = true
  aligned : ∀ t, k.platform.taskStacks t % 4096 = 0
  mapped : ∀ t, k.platform.taskStacks t ∈ k.mappedStackBases

section Mapped

variable {k k' : Kernel} {h : HartIndex}

theorem StacksMapped.congr (hs : StacksMapped k) (hb : k'.bootSide = k.bootSide) :
    StacksMapped k' := by
  simp only [bootSide, Prod.mk.injEq] at hb
  obtain ⟨hplatform, hvmm, hbases, _⟩ := hb
  refine ⟨hvmm.trans hs.vmm, ?_, ?_⟩
  · rw [hplatform]
    exact hs.aligned
  · rw [hplatform, hbases]
    exact hs.mapped

/-- A known stack takes the early return. -/
theorem StacksMapped.mapBootTaskStack (hs : StacksMapped k) (t : TaskRef) :
    k.mapBootTaskStack (k.platform.taskStacks t) kTaskStackSize = (true, k) := by
  have hsize : (kTaskStackSize == 0 || kTaskStackSize % 4096 != 0) = false := by decide
  rw [Kernel.mapBootTaskStack, if_neg, if_pos (List.contains_iff_mem.mpr (hs.mapped t))]
  simp only [hs.vmm, hs.aligned t, Bool.not_true, Bool.false_or, bne_self_eq_false, Bool.or_false]
  simpa using hsize

theorem allocateTaskLocked_none (h : k.allocateTaskLocked = (none, k)) (t : TaskRef) :
    k.taskSlotsUsed t = true := by
  rw [allocateTaskLocked] at h
  cases hfind : (List.finRange kMaxTasks).find? fun t => !k.taskSlotsUsed t with
  | none => simpa using List.find?_eq_none.mp hfind t (List.mem_finRange t)
  | some t' =>
    rw [hfind] at h
    cases h

theorem allocateTrackerLocked_none (h : k.allocateTrackerLocked = (none, k)) (r : TrackerRef) :
    k.trackerSlotsUsed r = true := by
  rw [allocateTrackerLocked] at h
  cases hfind : (List.finRange kMaxTasks).find? fun r => !k.trackerSlotsUsed r with
  | none => simpa using List.find?_eq_none.mp hfind r (List.mem_finRange r)
  | some r' =>
    rw [hfind] at h
    cases h

/-- The mapping step of `create_task_locked` succeeds and changes nothing. -/
theorem StacksMapped.stack (hs : StacksMapped k) (t : TaskRef) (withStack : Bool) :
    (if withStack then k.mapBootTaskStack (if withStack then k.platform.taskStacks t else 0)
      kTaskStackSize else (true, k)) = (true, k) := by
  cases withStack with
  | true => exact hs.mapBootTaskStack t
  | false => rfl

/-- The mapping step changes the list of mapped stacks at most. -/
theorem stack_cases (k : Kernel) (t : TaskRef) (withStack : Bool) : ∃ mapped bases,
    (if withStack then k.mapBootTaskStack (if withStack then k.platform.taskStacks t else 0)
      kTaskStackSize else (true, k)) = (mapped, { k with mappedStackBases := bases }) ∧
    (StacksMapped k → bases = k.mappedStackBases) := by
  by_cases hs : StacksMapped k
  · exact ⟨true, k.mappedStackBases, hs.stack t withStack, fun _ => rfl⟩
  · cases withStack with
    | false => exact ⟨true, k.mappedStackBases, rfl, fun _ => rfl⟩
    | true =>
      rcases mapBootTaskStack_cases k (k.platform.taskStacks t) kTaskStackSize with
        hmap | ⟨bases, hmap⟩
      · exact ⟨false, k.mappedStackBases, hmap, fun _ => rfl⟩
      · exact ⟨true, bases, hmap, fun h => absurd h hs⟩

variable (entry argument : Word) (space : AddressSpace) (owner : HartIndex)
  (kernelParent idle withStack : Bool)

/-- The section leaves all but the list of mapped stacks, and that too when every stack
is in it. -/
theorem createTaskLocked_fixedSide : ∃ bases,
    KeepsBoot { k with mappedStackBases := bases }
      (k.createTaskLocked h entry argument space owner kernelParent idle withStack) ∧
    (StacksMapped k → bases = k.mappedStackBases) := by
  rw [createTaskLocked]
  split
  · exact ⟨k.mappedStackBases, .ok rfl, fun _ => rfl⟩
  rcases allocateTaskLocked_cases k with halloc | ⟨t, -, halloc⟩
  · refine ⟨k.mappedStackBases, ?_, fun _ => rfl⟩
    rcases allocateTrackerLocked_cases k with halloc' | ⟨r, -, halloc'⟩
    · simp only [halloc, halloc']
      exact .ok rfl
    · simp only [halloc, halloc']
      have hkeeps : KeepsBoot k ((k.tracked r).releaseTrackerLocked r) :=
        (releaseTrackerLocked_keepsBoot r).of_same rfl
      exact hkeeps.andThen fun _ _ _ => .ok rfl
  · rcases allocateTrackerLocked_cases (k.taken t) with halloc' | ⟨r, -, halloc'⟩
    · simp only [halloc, halloc']
      have hkeeps : KeepsBoot k ((k.taken t).releaseTaskLocked t) :=
        (releaseTaskLocked_keepsBoot t).of_same rfl
      exact ⟨k.mappedStackBases, hkeeps.andThen fun _ _ _ => .ok rfl, fun _ => rfl⟩
    · obtain ⟨mapped, bases, hmap, hsame⟩ := stack_cases ((k.taken t).tracked r) t withStack
      refine ⟨bases, ?_, fun hs => hsame (hs.congr rfl)⟩
      simp only [halloc, halloc', hmap]
      cases mapped with
      | true => exact .ok (linkTrackerLocked_fixedSide ..)
      | false => exact (releaseTrackerLocked_keepsBoot r).of_same rfl |>.andThen fun _ k' _ =>
          (releaseTaskLocked_keepsBoot t).andThen fun _ _ _ => .ok rfl

theorem createTaskLocked_keepsBoot (hs : StacksMapped k) : KeepsBoot k
    (k.createTaskLocked h entry argument space owner kernelParent idle withStack) := by
  obtain ⟨bases, hkeeps, hsame⟩ := createTaskLocked_fixedSide (k := k) (h := h) entry argument
    space owner kernelParent idle withStack
  rw [hsame hs] at hkeeps
  exact hkeeps

/-- **A proper request gives a task** whenever a slot and a tracker are free. -/
theorem createTaskLocked_some (hs : StacksMapped k) (hinit : k.taskManagerInitialized = true)
    (hspace : space.valid = true) (hentry : k.isBootUserEntry entry = true)
    (ht : ∃ t, k.taskSlotsUsed t = false) (hr : ∃ r, k.trackerSlotsUsed r = false) :
    ∃ t k', k.createTaskLocked h entry argument space owner kernelParent idle withStack =
      .ok (some t) k' := by
  obtain ⟨t0, ht0⟩ := ht
  obtain ⟨r0, hr0⟩ := hr
  rw [createTaskLocked, if_neg (by simp [hinit, hspace, hentry])]
  rcases allocateTaskLocked_cases k with halloc | ⟨t, -, halloc⟩
  · cases ht0.symm.trans (allocateTaskLocked_none halloc t0)
  rcases allocateTrackerLocked_cases (k.taken t) with halloc' | ⟨r, -, halloc'⟩
  · cases hr0.symm.trans (allocateTrackerLocked_none halloc' r0)
  have hs' : StacksMapped ((k.taken t).tracked r) := hs.congr rfl
  simp only [halloc, halloc', hs'.stack t withStack, Bool.not_true, if_neg Bool.false_ne_true]
  exact ⟨_, _, rfl⟩

end Mapped

/-! ### Actions -/

/-- The action takes or drops a lock. -/
def Action.isGuard : {β : Type} → Action β → Bool
  | _, .acquire _ => true
  | _, .release _ => true
  | _, _ => false

/-- The action writes the record of its hart. -/
def Action.writesHart : {β : Type} → Action β → Bool
  | _, .setTimeslice _ | _, .countPreemption | _, .setCompare _ | _, .enterTrap _
  | _, .restoreCurrentContext | _, .setCurrentTask _ => true
  | _, _ => false

/-- Every other action but the guards leaves the fixed members; the creation of a task may add
to the mapped stacks. -/
theorem exec_fixedSide {k : Kernel} (h : HartIndex) {β : Type} (a : Action β)
    (hguard : a.isGuard = false) (hhart : a.writesHart = false) : ∃ bases,
      KeepsBoot { k with mappedStackBases := bases } (exec h a k) ∧
      (StacksMapped k → bases = k.mappedStackBases) := by
  suffices hkeeps : (∃ bases, KeepsBoot { k with mappedStackBases := bases } (exec h a k) ∧
      (StacksMapped k → bases = k.mappedStackBases)) ∨ KeepsBoot k (exec h a k) from
    hkeeps.elim id fun hkeeps => ⟨k.mappedStackBases, hkeeps, fun _ => rfl⟩
  cases a with
  | acquire | release => cases hguard
  | setTimeslice | countPreemption | setCompare | enterTrap | restoreCurrentContext
  | setCurrentTask => cases hhart
  | createTaskLocked entry argument space owner kernelParent idle withStack =>
    obtain ⟨bases, hkeeps, hsame⟩ := createTaskLocked_fixedSide (k := k) (h := h) entry argument
      space owner kernelParent idle withStack
    exact .inl ⟨bases, hkeeps.andThen fun _ _ _ => .ok rfl, hsame⟩
  | scheduler t | yieldScheduler t tid =>
    refine .inr (show KeepsBoot k (k.schedulerOf t) from ?_)
    rcases schedulerOf_cases k t with heq | heq <;> rw [heq] <;> rfl
  | saveCurrentContext =>
    refine .inr (show KeepsBoot k (k.saveCurrentContext h) from ?_)
    rw [saveCurrentContext]
    split <;> rfl
  | runQueueInsert q t => exact .inr (runQueueInsert_fixedSide q t)
  | runQueueRemove q => exact .inr (runQueueRemove_keepsBoot q)
  | delayQueueInsert q t deadline => exact .inr (delayQueueInsert_keepsBoot q t deadline)
  | delayQueueRemoveExpired q now => exact .inr (delayQueueRemoveExpired_fixedSide q now)
  | endTaskLocked t value status => exact .inr (endTaskLocked_keepsBoot t value status)
  | releaseTaskLocked t => exact .inr (releaseTaskLocked_keepsBoot t)
  | waitTaskLocked t tid => exact .inr (waitTaskLocked_keepsBoot t tid)
  | detachTaskLocked t =>
    refine .inr (show (k.detachTaskLocked t).2.fixedSide = k.fixedSide from ?_)
    rw [detachTaskLocked]
    split <;> rfl
  | destroyEndpointLocked caller parsed =>
    exact .inr (destroyEndpointLocked_fixedSide caller parsed)
  | destroyPop e => exact .inr (destroyPop_fixedSide e)
  | sendLocked sender parsed words => exact .inr (sendLocked_keepsBoot sender parsed words)
  | tryRecvLocked parsed => exact .inr (tryRecvLocked_fixedSide parsed)
  | recvLocked caller handle => exact .inr (recvLocked_keepsBoot caller handle)
  | park | diverge | loadTask | loadHart | isBootUserEntry | timeManagerInitialized
  | yieldIdle | createdTid | setReg | writeRecvRegisters | advanceMepc | setState | setStateInfo
  | runQueueSize | delayQueueTicksUntilNext | findFreeEndpoint | createEndpointLocked =>
    exact .inr rfl

theorem exec_writesHart {k : Kernel} (h : HartIndex) {β : Type} {a : Action β}
    (hhart : a.writesHart = true) :
    ((exec h a k).state.bootSide, (exec h a k).state.locks) = (k.bootSide, k.locks) := by
  cases a with
  | setTimeslice | countPreemption | setCompare | enterTrap => rfl
  | restoreCurrentContext =>
    simp only [exec, restoreCurrentContext]
    split <;> rfl
  | setCurrentTask t =>
    simp only [exec, setCurrentTask]
    split <;> rfl
  | _ => cases hhart

/-- The other actions leave the records of the harts. -/
theorem exec_harts {k k' : Kernel} {h : HartIndex} {β : Type} {a : Action β} {b : β}
    (hhart : a.writesHart = false) (hx : exec h a k = .ok b k') : k'.harts = k.harts := by
  cases hguard : a.isGuard with
  | false =>
    obtain ⟨bases, hkeeps, -⟩ := exec_fixedSide (k := k) h a hguard hhart
    rw [hx] at hkeeps
    exact congrArg (fun side => side.2.2) hkeeps
  | true =>
    cases a with
    | acquire lock =>
      simp only [exec, acquire] at hx
      split at hx <;> cases hx
      rfl
    | release lock =>
      cases hx
      rfl
    | _ => cases hguard

/-- Only the guards change the locks. -/
theorem exec_locks {k : Kernel} (h : HartIndex) {β : Type} {a : Action β}
    (hguard : a.isGuard = false) : (exec h a k).state.locks = k.locks := by
  cases hhart : a.writesHart with
  | true => exact congrArg Prod.snd (exec_writesHart h hhart)
  | false =>
    obtain ⟨bases, hkeeps, _⟩ := exec_fixedSide (k := k) h a hguard hhart
    exact congrArg (fun side => side.2.1) hkeeps

/-- **No action changes what the mapping calls look at**, once every stack is mapped. -/
theorem exec_bootSide {k : Kernel} (hs : StacksMapped k) (h : HartIndex) {β : Type}
    (a : Action β) : (exec h a k).state.bootSide = k.bootSide := by
  cases hguard : a.isGuard with
  | false =>
    cases hhart : a.writesHart with
    | true => exact congrArg Prod.fst (exec_writesHart h hhart)
    | false =>
      obtain ⟨bases, hkeeps, hsame⟩ := exec_fixedSide (k := k) h a hguard hhart
      rw [hsame hs] at hkeeps
      exact congrArg Prod.fst hkeeps
  | true =>
    cases a with
    | acquire lock =>
      show (k.acquire h lock).state.bootSide = k.bootSide
      rw [acquire]
      split <;> rfl
    | release lock => rfl
    | _ => cases hguard

end Jixia
