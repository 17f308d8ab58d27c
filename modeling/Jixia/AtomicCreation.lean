/-
Task creation is atomic.

In every reachable state of the task manager `create_task` either takes one task slot and
one tracker, links the tracker under the one of the current task and gives the task the
stack of its slot, or it changes nothing.

* `ManagerInv.free_task` — where a tracker is free, so is a task slot: every task owns a
  tracker, so the trackers run out first;
* `ManagerRun.fresh` — the next id was never given to a task of the run, as long as the
  64-bit counter has not come round;
* `StackArray` — the stacks are the rows of one array, so two slots never share a byte;
* `createTask_atomic` — the two outcomes, and when each happens.
-/
import Mathlib.Data.Fintype.EquivFin
import Mathlib.Order.Interval.Set.Basic
import Jixia.TaskRuns

namespace Jixia

open Function Kernel

variable {k k' : Kernel} {t u : TaskRef} {r : TrackerRef} {events : List ManagerEvent}
  {event : ManagerEvent}

/-! ### The ids of a run -/

/-- The ids of the tasks that a run created. -/
def createdTids (events : List ManagerEvent) : List TaskId :=
  events.filterMap fun
    | .create tid => tid
    | _ => none

/-- The number of ids that the 64-bit counter has. -/
def tidCount : ℕ := 18446744073709551616

theorem createdTids_snoc (events : List ManagerEvent) (event : ManagerEvent) :
    createdTids (events ++ [event]) = createdTids events ++ createdTids [event] :=
  List.filterMap_append

/-- What a section does to the next id. -/
theorem ManagerStep.nextTid (h : ManagerInv k) (hs : ManagerStep k event k') :
    (createdTids [event] = [] ∧ k'.nextTid = k.nextTid) ∨
      (createdTids [event] = [k.nextTid] ∧ k'.nextTid = k.nextTid + 1) := by
  cases hs with
  | @create hart entry argument space owner kernelParent idle withStack child _ hcur hrun =>
    obtain ⟨child', k1, hrun', hcase, -⟩ := h.create hcur entry argument space owner idle withStack
    rw [hrun] at hrun'
    cases hrun'
    cases hcase with
    | refused => exact .inl ⟨rfl, rfl⟩
    | @created t r bases htu hru =>
      have htid : (((k.born t r (newTask k hart t r entry argument space owner idle withStack)
          (newTracker k t entry) bases).adopted r (k.creator hart kernelParent)).tasks t).tid =
          k.nextTid := by
        rw [show ((k.born t r _ _ bases).adopted r _).tasks t = _ from update_self ..]
        rfl
      refine .inr ⟨?_, rfl⟩
      simp only [createdTids, Option.map_some, List.filterMap_cons, List.filterMap_nil, htid]
  | finish ht hj hend hs hrel =>
    obtain ⟨r, -, hcase⟩ := h.endCase ht hj _
    rw [hend] at hcase
    rw [releaseTaskLocked_ok hrel]
    exact .inl ⟨rfl, hs.nextTid.trans hcase.sameOutside.nextTid⟩
  | wait ht _ hrun =>
    obtain ⟨r, -, hcase⟩ := h.waitCase ht hrun
    exact .inl ⟨rfl, hcase.sameOutside.nextTid⟩
  | @detach t ht =>
    refine .inl ⟨rfl, ?_⟩
    rcases detachTaskLocked_cases k t with heq | heq
    · rw [heq]
    · rw [heq]
      rfl
  | other hs => exact .inl ⟨rfl, hs.nextTid⟩

/-- `initialize` leaves an empty table, and the first id is 1. -/
theorem initializeTaskManager_empty (hinit : k.taskManagerInitialized = false)
    (h : k.initializeTaskManager = (true, k')) :
    k'.nextTid = 1 ∧ ∀ r, k'.trackerSlotsUsed r = false := by
  rw [initializeTaskManager, if_neg (by simp [hinit])] at h
  simp only at h
  split at h
  · cases h
  rename_i k1 hmap
  obtain ⟨⟨bases, rfl⟩, -⟩ := mapTaskStacks_true hmap
  cases h
  exact ⟨rfl, fun _ => rfl⟩

/-- The ids of a run count up from 1. -/
theorem ManagerRun.tids (h : ManagerRun events k) :
    k.nextTid = BitVec.ofNat 64 ((createdTids events).length + 1) ∧
      ∀ tid ∈ createdTids events, ∃ i < (createdTids events).length,
        tid = BitVec.ofNat 64 (i + 1) := by
  induction h with
  | start h0 hinit =>
    exact ⟨(initializeTaskManager_empty h0 hinit).1, fun tid htid => absurd htid List.not_mem_nil⟩
  | @step events event k k' hrun hs ih =>
    obtain ⟨hcount, htids⟩ := ih
    rcases hs.nextTid hrun.inv with ⟨hnone, hnext⟩ | ⟨hone, hnext⟩
    · rw [createdTids_snoc, hnone, List.append_nil, hnext]
      exact ⟨hcount, htids⟩
    · rw [createdTids_snoc, hone, List.length_append, List.length_singleton, hnext, hcount]
      refine ⟨(BitVec.ofNat_add _ 1).symm, fun tid htid => ?_⟩
      rcases List.mem_append.mp htid with htid | htid
      · obtain ⟨i, hi, heq⟩ := htids tid htid
        exact ⟨i, Nat.lt_succ_of_lt hi, heq⟩
      · exact ⟨_, Nat.lt_succ_self _, List.mem_singleton.mp htid⟩

/-- The next id was never given to a task of the run, unless all ids were. -/
theorem ManagerRun.fresh (h : ManagerRun events k)
    (hcount : (createdTids events).length < tidCount) : k.nextTid ∉ createdTids events := by
  obtain ⟨hnext, htids⟩ := h.tids
  intro hmem
  obtain ⟨i, hi, heq⟩ := htids _ hmem
  rw [hnext] at heq
  have hval := congrArg BitVec.toNat heq
  rw [BitVec.toNat_ofNat, BitVec.toNat_ofNat] at hval
  rw [tidCount] at hcount
  omega

/-! ### The trackers run out first -/

/-- The tracker of a task. -/
theorem ManagerInv.exists_tracker (h : ManagerInv k) (t : TaskRef)
    (ht : k.taskSlotsUsed t = true) :
    ∃ r, (k.tasks t).tracker = some r ∧ k.trackerSlotsUsed r = true := by
  obtain ⟨r, hr, hu, -⟩ := h.table.ofTask ht
  exact ⟨r, hr, hu⟩

/-- Where a tracker is free, so is a task slot: otherwise the trackers of the tasks would
be all trackers. -/
theorem ManagerInv.free_task (h : ManagerInv k) (hr : k.trackerSlotsUsed r = false) :
    ∃ t, k.taskSlotsUsed t = false := by
  by_contra hno
  simp only [not_exists, Bool.not_eq_false] at hno
  choose tracker htracker hused using fun t => h.exists_tracker t (hno t)
  have hinj : Function.Injective tracker := by
    intro t u heq
    refine h.table.tracker_inj (hno t) (hno u) ?_
    rw [htracker t, htracker u, heq]
  obtain ⟨t, ht⟩ := Finite.injective_iff_surjective.mp hinj r
  cases (hused t).symm.trans (ht ▸ hr)

/-! ### The stacks -/

/-- The stacks of the slots are the rows of one array, `g_task_stacks`, which ends before
the end of the address space. -/
def StackArray (platform : Platform) : Prop :=
  ∃ base : ℕ, base + 4096 * kMaxTasks < 18446744073709551616 ∧
    ∀ t, (platform.taskStacks t).toNat = base + 4096 * t.val

/-- The addresses of the stack of a task. -/
def Kernel.stackOf (k : Kernel) (t : TaskRef) : Set ℕ :=
  Set.Ico (k.tasks t).stackBottom.toNat (k.tasks t).stackTop.toNat

theorem StackArray.top {platform : Platform} (h : StackArray platform) (t : TaskRef) :
    (platform.taskStacks t + kTaskStackSize).toNat = (platform.taskStacks t).toNat + 4096 := by
  obtain ⟨base, hend, hrow⟩ := h
  have ht : t.val < 16 := t.isLt
  rw [show kMaxTasks = 16 from rfl] at hend
  rw [BitVec.toNat_add, show kTaskStackSize.toNat = 4096 from rfl, hrow t]
  omega

/-- Two slots share no byte of their stacks. -/
theorem ManagerInv.stack_disjoint (h : ManagerInv k) (hs : StackArray k.platform)
    (ht : k.taskSlotsUsed t = true) (hu : k.taskSlotsUsed u = true) (hne : t ≠ u) :
    ∀ address ∈ k.stackOf t, address ∉ k.stackOf u := by
  intro address hmem hmem'
  rw [stackOf, Set.mem_Ico] at hmem hmem'
  rcases h.stack t ht with ⟨hb, htop⟩ | ⟨hb, htop⟩
  · rw [hb, htop] at hmem
    exact absurd (hmem.1.trans_lt hmem.2) (lt_irrefl _)
  rcases h.stack u hu with ⟨hb', htop'⟩ | ⟨hb', htop'⟩
  · rw [hb', htop'] at hmem'
    exact absurd (hmem'.1.trans_lt hmem'.2) (lt_irrefl _)
  rw [hb, htop, hs.top t] at hmem
  rw [hb', htop', hs.top u] at hmem'
  obtain ⟨base, -, hrow⟩ := hs
  rw [hrow t] at hmem
  rw [hrow u] at hmem'
  have hval : t.val ≠ u.val := fun heq => hne (Fin.ext heq)
  omega

/-! ### The two outcomes -/

/-- What a successful `create_task` did: the task `t` with the tracker `r`, linked under
`parent`, is new, and all else is the same. -/
structure CreatedTask (events : List ManagerEvent) (k k' : Kernel) (parent : Option TrackerRef)
    (t : TaskRef) (r : TrackerRef) : Prop where
  unused : (createdTids events).length < tidCount → (k'.tasks t).tid ∉ createdTids events
  nextTid : (k'.tasks t).tid = k.nextTid ∧ k'.nextTid = k.nextTid + 1
  taskSlot : k.taskSlotsUsed t = false ∧
    k'.taskSlotsUsed = update k.taskSlotsUsed t true
  trackerSlot : k.trackerSlotsUsed r = false ∧
    k'.trackerSlotsUsed = update k.trackerSlotsUsed r true
  paired : (k'.tasks t).tracker = some r ∧ (k'.trackers r).task = some t ∧
    (k'.trackers r).key = (k'.tasks t).tid
  others : ∀ u, u ≠ t → k'.tasks u = k.tasks u
  linked : ∃ rank rank' kids, Forest k rank (fun _ => False) kids ∧
    Forest k' rank' (fun _ => False) (update kids parent (r :: kids parent))
  stack : (k'.tasks t).stackTop.toNat = (k'.tasks t).stackBottom.toNat + 4096
  disjoint : ∀ u, u ≠ t → k'.taskSlotsUsed u = true →
    ∀ address ∈ k'.stackOf t, address ∉ k'.stackOf u

/-- The new tracker joins the forest under the creator. -/
theorem ManagerInv.linked (h : ManagerInv k) {hart : HartIndex} {kernelParent : Bool}
    (hcur : kernelParent = false → ∀ t, (k.harts hart).currentTask = some t →
      k.taskSlotsUsed t = true)
    (hru : k.trackerSlotsUsed r = false) (t : TaskRef) (task : Task) (entry : Word)
    (bases : List Word) :
    ∃ rank rank' kids, Forest k rank (fun _ => False) kids ∧
      Forest ((k.born t r task (newTracker k t entry) bases).adopted r
        (k.creator hart kernelParent)) rank' (fun _ => False)
        (update kids (k.creator hart kernelParent)
          (r :: kids (k.creator hart kernelParent))) := by
  obtain ⟨rank, kids, hf⟩ := h.table.forest
  obtain ⟨-, rank', hf'⟩ := hf.create hru (fun q hq => h.table.creator hcur hq) t task entry bases
  exact ⟨rank, rank', kids, hf, hf'⟩

theorem CreateCase.createdTask (hrun : ManagerRun events k) (hs : StackArray k.platform)
    {hart : HartIndex} {kernelParent : Bool}
    (hcur : kernelParent = false → ∀ t, (k.harts hart).currentTask = some t →
      k.taskSlotsUsed t = true)
    {entry argument : Word} {space : AddressSpace} {owner : HartIndex} {t : TaskRef}
    (hc : CreateCase k hart entry argument space owner false true (k.creator hart kernelParent)
      (some t) k') (hboot : k'.bootSide = k.bootSide) :
    ∃ r, CreatedTask events k k' (k.creator hart kernelParent) t r := by
  have hinv' := hc.managerInv hrun.inv hcur hboot
  have hs' : StackArray k'.platform := by
    rw [show k'.platform = k.platform from congrArg Prod.fst hboot]
    exact hs
  cases hc with
  | @created _ r bases htu hru =>
    set task := newTask k hart t r entry argument space owner false true
    set k1 := (k.born t r task (newTracker k t entry) bases).adopted r (k.creator hart kernelParent)
    have htask : k1.tasks t = task := update_self ..
    have hslot : k1.taskSlotsUsed t = true := update_self ..
    have htracker : (k1.trackers r).task = some t ∧ (k1.trackers r).key = k.nextTid := by
      have hr1 : (k.born t r task (newTracker k t entry) bases).trackers r = newTracker k t entry :=
        update_self ..
      simp only [k1, adopted, withLinks, hr1]
      exact ⟨rfl, rfl⟩
    refine ⟨r, ?_, ?_, ⟨htu, rfl⟩, ⟨hru, rfl⟩, ?_, fun u hu => update_of_ne hu ..,
      hrun.inv.linked hcur hru t task entry bases, ?_, fun u hu huu => ?_⟩
    · rw [htask]
      exact hrun.fresh
    · rw [htask]
      exact ⟨rfl, rfl⟩
    · rw [htask]
      exact ⟨rfl, htracker.1, htracker.2⟩
    · rw [htask]
      exact hs.top t
    · exact hinv'.stack_disjoint hs' hslot huu hu.symm

/-- After `initialize` an entry is accepted exactly inside the user text. -/
theorem ManagerInv.isBootUserEntry_iff (h : ManagerInv k) (entry : Word) :
    k.isBootUserEntry entry = true ↔
      k.platform.userTextStart ≤ entry ∧ entry < k.platform.userTextEnd := by
  rw [isBootUserEntry, h.mapped.vmm, Bool.true_and, Bool.and_eq_true, decide_eq_true_iff,
    decide_eq_true_iff]

/-- A request with an entry outside of the user text changes nothing. -/
theorem createTaskLocked_badEntry {hart : HartIndex} {entry : Word}
    (hentry : k.isBootUserEntry entry = false) (argument : Word) (space : AddressSpace)
    (owner : HartIndex) (kernelParent idle withStack : Bool) :
    k.createTaskLocked hart entry argument space owner kernelParent idle withStack =
      .ok none k := by
  rw [createTaskLocked, if_pos]
  rw [hentry, Bool.not_false, Bool.or_true]

/-- **Task creation is atomic.**  In every reachable state of the manager, for every entry,
argument and valid address space: with the entry in the user text and both slots free,
`create_task` returns a new task; otherwise it returns null and the whole state is as
before.  The new id is one that the run has not used, as long as the 64-bit counter has not
come round.  Resources run out exactly when every tracker is used, by a live task or by a
completed child that its parent has not reaped. -/
theorem createTask_atomic (hrun : ManagerRun events k) (hstacks : StackArray k.platform)
    {hart : HartIndex} {kernelParent : Bool}
    (hcur : kernelParent = false → ∀ t, (k.harts hart).currentTask = some t →
      k.taskSlotsUsed t = true)
    (entry argument : Word) {space : AddressSpace} (hspace : space.valid = true)
    (owner : HartIndex) :
    (k.platform.userTextStart ≤ entry ∧ entry < k.platform.userTextEnd →
      (∃ t, k.taskSlotsUsed t = false) → (∃ r, k.trackerSlotsUsed r = false) →
      ∃ t r k', k.createTaskLocked hart entry argument space owner kernelParent false true =
          .ok (some t) k' ∧
        CreatedTask events k k' (k.creator hart kernelParent) t r) ∧
    (¬ ((k.platform.userTextStart ≤ entry ∧ entry < k.platform.userTextEnd) ∧
        (∃ t, k.taskSlotsUsed t = false) ∧ ∃ r, k.trackerSlotsUsed r = false) →
      k.createTaskLocked hart entry argument space owner kernelParent false true = .ok none k) ∧
    (k.platform.userTextStart ≤ entry ∧ entry < k.platform.userTextEnd →
      (k.createTaskLocked hart entry argument space owner kernelParent false true = .ok none k ↔
        ∀ r, k.trackerSlotsUsed r = true)) ∧
    (∀ r, k.trackerSlotsUsed r = true →
      (∃ t, (k.trackers r).task = some t ∧ k.taskSlotsUsed t = true) ∨
      ((k.trackers r).task = none ∧ k.parentOf r ≠ none)) := by
  have hinv := hrun.inv
  have htext := hinv.isBootUserEntry_iff entry
  obtain ⟨child, k', hout, hcase, hboot⟩ :=
    hinv.create hcur entry argument space owner false true
  -- The section returns a task exactly when it can.
  have hgives : k.isBootUserEntry entry = true → (∃ t, k.taskSlotsUsed t = false) →
      (∃ r, k.trackerSlotsUsed r = false) → ∃ t, child = some t := by
    intro hentry ht hr
    obtain ⟨t, k1, hsome⟩ := createTaskLocked_some (h := hart) entry argument space owner
      kernelParent false true hinv.mapped hinv.initialized hspace hentry ht hr
    rw [hout] at hsome
    cases hsome
    exact ⟨t, rfl⟩
  have hneeds : ∀ t, child = some t → k.isBootUserEntry entry = true ∧
      (∃ t, k.taskSlotsUsed t = false) ∧ ∃ r, k.trackerSlotsUsed r = false := by
    rintro t rfl
    refine ⟨?_, ?_⟩
    · by_contra hbad
      rw [createTaskLocked_badEntry (Bool.eq_false_iff.mpr hbad)] at hout
      cases hout
    · cases hcase with
      | @created _ r _ htu hru => exact ⟨⟨t, htu⟩, r, hru⟩
  have hnone : child = none → k.createTaskLocked hart entry argument space owner kernelParent
      false true = .ok none k := by
    rintro rfl
    cases hcase with
    | refused => exact hout
  refine ⟨fun hentry ht hr => ?_, fun hno => ?_, fun hentry => ⟨fun hnull r => ?_, fun hall => ?_⟩,
    fun r hr => ?_⟩
  · obtain ⟨t, rfl⟩ := hgives (htext.mpr hentry) ht hr
    obtain ⟨r, hcreated⟩ := hcase.createdTask hrun hstacks hcur hboot
    exact ⟨t, r, k', hout, hcreated⟩
  · refine hnone (Option.eq_none_iff_forall_ne_some.mpr fun t ht => hno ?_)
    obtain ⟨hentry, hslots⟩ := hneeds t ht
    exact ⟨htext.mp hentry, hslots⟩
  · -- A free tracker would come with a free task slot.
    by_contra hfree
    rw [Bool.not_eq_true] at hfree
    obtain ⟨t, rfl⟩ := hgives (htext.mpr hentry) (hinv.free_task hfree) ⟨r, hfree⟩
    rw [hout] at hnull
    cases hnull
  · refine hnone (Option.eq_none_iff_forall_ne_some.mpr fun t ht => ?_)
    obtain ⟨-, -, r, hr⟩ := hneeds t ht
    cases hr.symm.trans (hall r)
  · cases htask : (k.trackers r).task with
    | some t => exact .inl ⟨t, rfl, (hinv.table.ofTracker hr htask).1⟩
    | none => exact .inr ⟨rfl, hinv.table.rooted r hr id htask⟩

/-- The manager of the sample platform after `initialize`. -/
def sampleManager : Kernel :=
  ({ reset Platform.sample with vmmInitialized := true }.initializeTaskManager).2

theorem createTask_atomic_sample : sampleManager.taskSlotsUsed 0 = false ∧
    sampleManager.trackerSlotsUsed 0 = false ∧
    ∃ t r k', sampleManager.createTaskLocked 0 0x1100 7 ⟨0x5000⟩ 0 true false true =
        .ok (some t) k' ∧ CreatedTask [] sampleManager k' none t r := by
  have hplatform : sampleManager.platform = Platform.sample := by rfl
  refine ⟨by decide +kernel, by decide +kernel, ?_⟩
  refine (@createTask_atomic sampleManager [] (.start ?_ (Prod.ext ?_ rfl)) ?_ 0 true
    (fun h => Bool.noConfusion h) 0x1100 7 ⟨0x5000⟩ (by decide) 0).1 ?_ ⟨0, by decide +kernel⟩
    ⟨0, by decide +kernel⟩
  · rfl
  · decide +kernel
  · rw [hplatform]
    exact ⟨0x10000, by decide, by decide⟩
  · rw [hplatform]
    decide

end Jixia
