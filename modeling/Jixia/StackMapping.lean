/-
Task stacks and the live page table.

`TaskManager::initialize` maps the sixteen task stacks; afterwards `create_task`
asks for the mapping of a stack again and again while other harts run on the same
tables.  `Paged` couples the executive with the page tables of the virtual memory
manager.

* `Paged.ready_of_initialize` — when `initialize` returns true, every stack is known
  to both;
* `Paged.Ready.step` — every action keeps that, and leaves the page tables;
* `task_creation_keeps_page_table` — after `initialize` no page table entry is
  written, no page is taken and no stack mapping is refused.
-/
import Jixia.BootFrame
import Jixia.VmmManager

namespace Jixia

/-! ### The executive on page tables -/

/-- The executive and the virtual memory manager it calls. -/
structure Paged where
  kernel : Kernel
  vmm : VmmState

/-- The call of `map_boot_task_stack` in `create_task_locked`, if it gets that far. -/
def Kernel.stackRequest (k : Kernel) (entry : Word) (space : AddressSpace) (withStack : Bool) :
    Option (Word × Word) :=
  if !k.taskManagerInitialized || !space.valid || !k.isBootUserEntry entry then none
  else
    match k.allocateTaskLocked.1, k.allocateTrackerLocked.1 with
    | some t, some _ => if withStack then some (k.platform.taskStacks t, kTaskStackSize) else none
    | _, _ => none

/-- The call of `map_boot_task_stack` that an action makes. -/
def Action.stackRequest : {β : Type} → Action β → Kernel → Option (Word × Word)
  | _, .createTaskLocked entry _ space _ _ _ withStack, k => k.stackRequest entry space withStack
  | _, _, _ => none

/-- The mapping loop of `TaskManager::initialize`, on the page tables. -/
def VmmState.mapTaskStacks (bottoms : TaskRef → Word) : List TaskRef → VmmState → Bool × VmmState
  | [], v => (true, v)
  | t :: rest, v =>
    let stack := v.mapBootTaskStack (bottoms t) kTaskStackSize
    if stack.1 then mapTaskStacks bottoms rest stack.2 else (false, stack.2)

namespace Paged

variable (s : Paged)

/-- The executive with the page tables to answer for `map_range_4k`. -/
def onTables : Kernel :=
  { s.kernel with platform.mapRange4k := fun base =>
      (s.vmm.memory.mapRange4k s.vmm.bootAddressSpace base base kTaskStackSize kUserStackFlags).1 }

/-- `TaskManager::initialize`. -/
def initializeTaskManager : Bool × Paged :=
  if s.kernel.taskManagerInitialized then (true, s)
  else
    let mapping := s.vmm.mapTaskStacks s.kernel.platform.taskStacks (List.finRange kMaxTasks)
    let k := { s.kernel with
      tasks := fun _ => {}, trackers := fun _ => {},
      taskSlotsUsed := fun _ => false, trackerSlotsUsed := fun _ => false
      mappedStackBases := mapping.2.mappedStackBases }
    if mapping.1 then
      (true, ⟨{ k with rootTasks := none, nextTid := 1, taskManagerInitialized := true },
        mapping.2⟩)
    else (false, ⟨k, mapping.2⟩)

/-- An action of a hart. -/
def step {β : Type} (h : HartIndex) (a : Action β) : Paged where
  kernel := (exec h a s.onTables).state
  vmm :=
    match a.stackRequest s.kernel with
    | some (base, size) => (s.vmm.mapBootTaskStack base size).2
    | none => s.vmm

/-- The executive's copy of the manager's members. -/
structure Coupled : Prop where
  initialized : s.kernel.vmmInitialized = s.vmm.initialized
  bases : s.kernel.mappedStackBases = s.vmm.mappedStackBases

/-- The states after any actions of any harts. -/
inductive Run : Paged → Prop
  | start : Run s
  | step {s' : Paged} {β : Type} (h : HartIndex) (a : Action β) : Run s' → Run (s'.step h a)

end Paged

section Runs

variable {v v' : VmmState} {s0 s s' : Paged} {base size : Word} {bottoms : TaskRef → Word}

/-- A mapping that is accepted has checked its base and records it. -/
theorem VmmState.mapBootTaskStack_true (h : v.mapBootTaskStack base size = (true, v')) :
    v.initialized = true ∧ base % 4096 = 0 ∧ base ∈ v'.mappedStackBases ∧
      v'.initialized = v.initialized ∧ ∀ b ∈ v.mappedStackBases, b ∈ v'.mappedStackBases := by
  rw [VmmState.mapBootTaskStack] at h
  split at h
  · cases h
  rename_i hargs
  simp only [not_or, Bool.not_eq_false, not_not] at hargs
  split at h
  · rename_i hmem
    cases h
    exact ⟨hargs.1, hargs.2.2.1, hmem, rfl, fun _ => id⟩
  split at h
  · cases h
  simp only at h
  split at h
  · cases h
    exact ⟨hargs.1, hargs.2.2.1, List.mem_append_right _ (List.mem_singleton_self _), rfl,
      fun _ => List.mem_append_left _⟩
  · cases h

/-- When the loop ends well, every stack of it is recorded. -/
theorem VmmState.mapTaskStacks_true {l : List TaskRef}
    (h : v.mapTaskStacks bottoms l = (true, v')) :
    v'.initialized = v.initialized ∧ (∀ b ∈ v.mappedStackBases, b ∈ v'.mappedStackBases) ∧
      ∀ t ∈ l, v.initialized = true ∧ bottoms t % 4096 = 0 ∧
        bottoms t ∈ v'.mappedStackBases := by
  induction l generalizing v with
  | nil =>
    cases h
    exact ⟨rfl, fun _ => id, fun t ht => absurd ht List.not_mem_nil⟩
  | cons t rest ih =>
    rw [VmmState.mapTaskStacks] at h
    split at h
    · rename_i hok
      obtain ⟨hinit, halign, hmem, hsame, hsub⟩ := VmmState.mapBootTaskStack_true
        (show v.mapBootTaskStack (bottoms t) kTaskStackSize = (true, _) from Prod.ext hok rfl)
      obtain ⟨hsame', hsub', hrest⟩ := ih h
      refine ⟨hsame'.trans hsame, fun b hb => hsub' b (hsub b hb), fun u hu => ?_⟩
      rcases List.mem_cons.mp hu with rfl | hu
      · exact ⟨hinit, halign, hsub' _ hmem⟩
      · exact ⟨hinit, (hrest u hu).2⟩
    · cases h

/-- What holds from `TaskManager::initialize` on. -/
structure Paged.Ready (v : VmmState) (bottoms : TaskRef → Word) (s : Paged) : Prop where
  vmm : s.vmm = v
  stacks_eq : s.kernel.platform.taskStacks = bottoms
  coupled : s.Coupled
  mapped : StacksMapped s.kernel
  initialized : s.kernel.taskManagerInitialized = true

theorem Paged.ready_of_initialize (hc : s0.Coupled)
    (hfirst : s0.kernel.taskManagerInitialized = false)
    (h : s0.initializeTaskManager = (true, s)) :
    s.Ready s.vmm s0.kernel.platform.taskStacks := by
  rw [Paged.initializeTaskManager, if_neg (by rw [hfirst]; decide)] at h
  simp only at h
  split at h
  · rename_i hok
    cases h
    obtain ⟨hsame, -, hall⟩ := VmmState.mapTaskStacks_true (Prod.ext hok rfl)
    refine ⟨rfl, rfl, ⟨hc.initialized.trans hsame.symm, rfl⟩, ⟨?_, ?_, ?_⟩, rfl⟩
    · exact hc.initialized.trans (hall 0 (List.mem_finRange 0)).1
    · exact fun t => (hall t (List.mem_finRange t)).2.1
    · exact fun t => (hall t (List.mem_finRange t)).2.2
  · cases h

theorem Kernel.stackRequest_some {k : Kernel} {entry : Word} {space : AddressSpace}
    {withStack : Bool} (h : k.stackRequest entry space withStack = some (base, size)) :
    (∃ t, base = k.platform.taskStacks t) ∧ size = kTaskStackSize := by
  rw [Kernel.stackRequest] at h
  split at h
  · cases h
  split at h
  · split at h
    · cases h
      exact ⟨⟨_, rfl⟩, rfl⟩
    · cases h
  · cases h

theorem Action.stackRequest_some {k : Kernel} {β : Type} {a : Action β}
    (h : a.stackRequest k = some (base, size)) :
    (∃ t, base = k.platform.taskStacks t) ∧ size = kTaskStackSize := by
  unfold Action.stackRequest at h
  split at h
  · exact Kernel.stackRequest_some h
  · cases h

/-- The page tables know every stack, too. -/
theorem Paged.Ready.served (h : s.Ready v bottoms) (t : TaskRef) :
    v.mapBootTaskStack (bottoms t) kTaskStackSize = (true, v) := by
  have hinit : v.initialized = true := h.vmm ▸ h.coupled.initialized.symm.trans h.mapped.vmm
  have halign : bottoms t % kPageSize = 0 := h.stacks_eq ▸ h.mapped.aligned t
  have hmem : bottoms t ∈ v.mappedStackBases :=
    h.vmm ▸ h.coupled.bases ▸ h.stacks_eq ▸ h.mapped.mapped t
  have hsize : ¬ (kTaskStackSize = 0 ∨ kTaskStackSize % kPageSize ≠ 0) := by decide
  rw [VmmState.mapBootTaskStack, if_neg, if_pos hmem]
  simp only [hinit, halign, not_or] at hsize ⊢
  exact ⟨Bool.noConfusion, hsize.1, fun hne => hne rfl, hsize.2⟩

/-- **Every action of every hart keeps it**, and the page tables with it. -/
theorem Paged.Ready.step (hs : s.Ready v bottoms) (h : HartIndex) {β : Type} (a : Action β) :
    (s.step h a).Ready v bottoms := by
  have hboot : (s.step h a).kernel.bootSide = s.onTables.bootSide :=
    exec_bootSide (k := s.onTables) ⟨hs.mapped.vmm, hs.mapped.aligned, hs.mapped.mapped⟩ h a
  have hvmm : (s.step h a).vmm = s.vmm := by
    rw [Paged.step]
    cases hreq : a.stackRequest s.kernel with
    | none => rfl
    | some request =>
      obtain ⟨base, size⟩ := request
      obtain ⟨⟨t, rfl⟩, rfl⟩ := Action.stackRequest_some hreq
      simp only [hs.vmm, hs.stacks_eq, hs.served t]
  have hmapped : StacksMapped (s.step h a).kernel := StacksMapped.congr
    (k := s.onTables) ⟨hs.mapped.vmm, hs.mapped.aligned, hs.mapped.mapped⟩ hboot
  simp only [Kernel.bootSide, Prod.mk.injEq] at hboot
  obtain ⟨hplatform, hinit, hbases, hmanager⟩ := hboot
  refine ⟨hvmm.trans hs.vmm, ?_, ⟨?_, ?_⟩, hmapped, hmanager.trans hs.initialized⟩
  · rw [hplatform]
    exact hs.stacks_eq
  · rw [hinit, hvmm]
    exact hs.coupled.initialized
  · rw [hbases, hvmm]
    exact hs.coupled.bases

theorem Paged.Ready.run (hs : s.Ready v bottoms) (hrun : s.Run s') : s'.Ready v bottoms := by
  induction hrun with
  | start => exact hs
  | step h a _ ih => exact ih.step h a

/-- **Task creation never touches the live page table.**  After
`TaskManager::initialize` has returned true and any actions of any harts, in any order:
the page tables and the page allocator are what they were; a call of
`map_boot_task_stack` has the base and the size of one of the fixed stacks and takes
its early return; and `create_task` is refused for another reason than the mapping of a
stack. -/
theorem task_creation_keeps_page_table (hcoupled : s0.Coupled)
    (hfirst : s0.kernel.taskManagerInitialized = false)
    (hinit : s0.initializeTaskManager = (true, s)) (hrun : s.Run s') :
    s'.vmm = s.vmm ∧
    (∀ {β : Type} (a : Action β) (base size : Word), a.stackRequest s'.kernel = some (base, size) →
      (∃ t, base = s0.kernel.platform.taskStacks t) ∧ size = kTaskStackSize ∧
      base ∈ s'.vmm.mappedStackBases ∧ s'.vmm.mapBootTaskStack base size = (true, s'.vmm) ∧
      s'.onTables.mapBootTaskStack base size = (true, s'.onTables)) ∧
    ∀ (h : HartIndex) (entry argument : Word) (space : AddressSpace) (owner : HartIndex)
      (kernelParent idle withStack : Bool) (k' : Kernel),
      s'.onTables.createTaskLocked h entry argument space owner kernelParent idle withStack =
        .ok none k' →
      space.valid = false ∨ s'.kernel.isBootUserEntry entry = false ∨
        (∀ t, s'.kernel.taskSlotsUsed t = true) ∨ ∀ r, s'.kernel.trackerSlotsUsed r = true := by
  have hready := (Paged.ready_of_initialize hcoupled hfirst hinit).run hrun
  have hmapped : StacksMapped s'.onTables :=
    ⟨hready.mapped.vmm, hready.mapped.aligned, hready.mapped.mapped⟩
  refine ⟨hready.vmm, fun a base size hreq => ?_, ?_⟩
  · obtain ⟨⟨t, rfl⟩, rfl⟩ := Action.stackRequest_some hreq
    refine ⟨⟨t, by rw [hready.stacks_eq]⟩, rfl, ?_, ?_, hmapped.mapBootTaskStack t⟩
    · rw [← hready.coupled.bases]
      exact hready.mapped.mapped t
    · rw [hready.vmm, hready.stacks_eq]
      exact hready.served t
  · intro h entry argument space owner kernelParent idle withStack k' hnone
    by_contra hcon
    simp only [not_or, Bool.not_eq_false, not_forall, Bool.not_eq_true] at hcon
    obtain ⟨hspace, hentry, ht, hr⟩ := hcon
    obtain ⟨t, k'', hsome⟩ := createTaskLocked_some (k := s'.onTables) (h := h) entry argument
      space owner kernelParent idle withStack hmapped hready.initialized hspace hentry ht hr
    rw [hnone] at hsome
    cases hsome

/-- The page tables of the low two megabytes, still empty. -/
def sampleTables : PhysicalMemory :=
  (({} : PhysicalMemory).store 0x80100000 (makePte 0x80101000 PteFlag.valid)).store 0x80101000
    (makePte 0x80102000 PteFlag.valid)

/-- The sample platform on these tables. -/
def samplePaged : Paged where
  kernel := { platform := Platform.sample, vmmInitialized := true }
  vmm := { memory := sampleTables, bootAddressSpace := ⟨0x80100000⟩, initialized := true }

/-- The creation of a task with a stack. -/
def sampleCreate : Action (Option (TaskRef × TaskId)) :=
  .createTaskLocked 0x1000 0 ⟨0x80100000⟩ 0 true false true

theorem task_creation_keeps_page_table_sample :
    samplePaged.initializeTaskManager.1 = true ∧
      (sampleCreate.stackRequest samplePaged.initializeTaskManager.2.kernel).isSome = true ∧
      (samplePaged.initializeTaskManager.2.step 0 sampleCreate).vmm =
        samplePaged.initializeTaskManager.2.vmm := by
  have hinit : samplePaged.initializeTaskManager.1 = true := by decide +kernel
  have heq := (Prod.eta samplePaged.initializeTaskManager).symm
  rw [hinit] at heq
  have hcoupled : samplePaged.Coupled := ⟨by decide +kernel, by decide +kernel⟩
  exact ⟨hinit, by decide +kernel,
    (task_creation_keeps_page_table hcoupled rfl heq (.step 0 sampleCreate .start)).1⟩

end Runs

end Jixia
