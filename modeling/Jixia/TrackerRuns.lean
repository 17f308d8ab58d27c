/-
The tracker forest along the runs of the task manager.

* `TrackersOk` — what the pointers of the trackers look like between two sections: disjoint
  sibling lists, parent pointers without a cycle, and one tracker for every task;
* `Orphaned`, `RemovedExactly` — the trackers that the removal of a tracker releases, and
  what becomes of the other ones;
* `tracker_forest_stays` — every reachable state is well formed, and every removal ends.
-/
import Jixia.AtomicCreation

namespace Jixia

open LinkedList Kernel

variable {k k' : Kernel} {t : TaskRef} {r c : TrackerRef}
  {rank : TrackerRef → ℕ} {kids : Option TrackerRef → List TrackerRef}

/-! ### Well-formed states -/

/-- The used trackers form disjoint sibling lists, `kids none` at the root and `kids (some p)`
under the tracker `p`. -/
structure SiblingLists (k : Kernel) (kids : Option TrackerRef → List TrackerRef) : Prop where
  listed : ∀ r, k.trackerSlotsUsed r = true ↔ ∃ p, r ∈ kids p
  once : ∀ r p q, r ∈ kids p → r ∈ kids q → p = q
  holds : ∀ p, LinkedList.Holds k.sibNext k.sibPrev (k.siblingHead p) (kids p).getLast? (kids p)
  parent : ∀ r p, r ∈ kids p → k.parentOf r = p

theorem Forest.siblingLists (hf : Forest k rank (fun _ => False) kids) : SiblingLists k kids where
  listed r := by
    rw [← hf.family.queued_iff]
    exact (and_iff_left id).symm
  once _ _ _ := hf.family.disjoint
  holds := hf.family.holds
  parent _ _ := hf.parent

/-- The pointers between trackers and tasks. -/
structure TrackersOk (k : Kernel) (kids : Option TrackerRef → List TrackerRef) : Prop where
  lists : SiblingLists k kids
  inverse : ∀ r r', k.trackerSlotsUsed r = true → k.trackerSlotsUsed r' = true →
    (k.sibNext r = some r' ↔ k.sibPrev r' = some r)
  used : ∀ r x, k.trackerSlotsUsed r = true → (k.parentOf r = some x ∨ k.firstOf r = some x ∨
    k.sibNext r = some x ∨ k.sibPrev r = some x) → k.trackerSlotsUsed x = true
  acyclic : WellFounded fun p r => k.trackerSlotsUsed r = true ∧ k.parentOf r = some p
  tracked : ∀ t, k.taskSlotsUsed t = true → ∃ r, (k.tasks t).tracker = some r
  tasks : ∀ t r, k.taskSlotsUsed t = true ∧ (k.tasks t).tracker = some r ↔
    k.trackerSlotsUsed r = true ∧ (k.trackers r).task = some t
  roots : ∀ r ∈ kids none, ∃ t, (k.trackers r).task = some t ∧ k.taskSlotsUsed t = true

/-- Every tracker is of a higher rank than its parent. -/
theorem Forest.acyclic (hf : Forest k rank (fun _ => False) kids) :
    WellFounded fun p r => k.trackerSlotsUsed r = true ∧ k.parentOf r = some p :=
  Subrelation.wf (fun h => hf.order h.1 id h.2)
    (InvImage.wf rank Nat.lt_wfRel.wf)

theorem Forest.inverse (hf : Forest k rank (fun _ => False) kids) {r' : TrackerRef}
    (hr : k.trackerSlotsUsed r = true) (hr' : k.trackerSlotsUsed r' = true) :
    k.sibNext r = some r' ↔ k.sibPrev r' = some r := by
  obtain ⟨p, hp⟩ := (hf.family.queued_iff r).mp ⟨hr, id⟩
  obtain ⟨p', hp'⟩ := (hf.family.queued_iff r').mp ⟨hr', id⟩
  constructor
  · intro h
    have hmem := (hf.family.holds p).next_mem hp h
    exact ((hf.family.holds p).next_eq_iff hp hmem).mp h
  · intro h
    have hmem := (hf.family.holds p').prev_mem hp' h
    exact ((hf.family.holds p').next_eq_iff hmem hp').mpr h

/-- No link leads to a free slot. -/
theorem Forest.link_used (hf : Forest k rank (fun _ => False) kids) {x : TrackerRef}
    (hr : k.trackerSlotsUsed r = true) (hx : k.parentOf r = some x ∨ k.firstOf r = some x ∨
      k.sibNext r = some x ∨ k.sibPrev r = some x) : k.trackerSlotsUsed x = true := by
  have hlisted : ∀ {q}, x ∈ kids q → k.trackerSlotsUsed x = true := fun hq =>
    ((hf.family.queued_iff x).mpr ⟨_, hq⟩).1
  obtain ⟨p, hp⟩ := (hf.family.queued_iff r).mp ⟨hr, id⟩
  rcases hx with hx | hx | hx | hx
  · exact hf.parent_used hr id hx
  · have hhead : k.firstOf r = (kids (some r)).head? := hf.head_eq (some r)
    exact hlisted (List.mem_of_head? (hhead.symm.trans hx))
  · exact hlisted ((hf.family.holds p).next_mem hp hx)
  · exact hlisted ((hf.family.holds p).prev_mem hp hx)

theorem ManagerInv.trackersOk (h : ManagerInv k) : ∃ kids, TrackersOk k kids := by
  obtain ⟨rank, kids, hf⟩ := h.table.forest
  refine ⟨kids, hf.siblingLists, fun _ _ => hf.inverse, fun _ _ => hf.link_used, hf.acyclic,
    fun t ht => ?_, fun t r => ⟨?_, ?_⟩, fun r hr => ?_⟩
  · obtain ⟨r, hr, -⟩ := h.table.ofTask ht
    exact ⟨r, hr⟩
  · rintro ⟨ht, hr⟩
    obtain ⟨hused, htask, -⟩ := h.table.tracked ht hr
    exact ⟨hused, htask⟩
  · rintro ⟨hr, ht⟩
    exact h.table.ofTracker hr ht
  · obtain ⟨hused, -, hparent⟩ := hf.mem_kids.mp hr
    cases htask : (k.trackers r).task with
    | none => exact absurd hparent (h.table.rooted r hused id htask)
    | some t => exact ⟨t, rfl, (h.table.ofTracker hused htask).1⟩

/-! ### Removals -/

/-- The trackers that the removal of `r` releases: `r` itself and, if `r` is kernel-parented,
the completed children of released trackers. -/
inductive Orphaned (k : Kernel) (r : TrackerRef) : TrackerRef → Prop
  | self : Orphaned k r r
  | child {c x : TrackerRef} : k.parentOf r = none → k.trackerSlotsUsed c = true →
      (k.trackers c).task = none → k.parentOf c = some x → Orphaned k r x → Orphaned k r c

/-- What the removal of `r` does to the table. -/
structure RemovedExactly (k k' : Kernel) (r : TrackerRef) : Prop where
  released : ∀ c, k'.trackerSlotsUsed c = true ↔ k.trackerSlotsUsed c = true ∧ ¬ Orphaned k r c
  -- The children of released trackers move to the parent of `r`, all others stay.
  moved : ∀ c x, k'.trackerSlotsUsed c = true → k.parentOf c = some x → Orphaned k r x →
    k'.parentOf c = k.parentOf r
  stays : ∀ c, k'.trackerSlotsUsed c = true → (∀ x, k.parentOf c = some x → ¬ Orphaned k r x) →
    k'.parentOf c = k.parentOf c
  record : ∀ c, k'.trackerSlotsUsed c = true → k'.trackers c = { k.trackers c with
    parent := k'.parentOf c, firstChild := k'.firstOf c, nextSibling := k'.sibNext c
    previousSibling := k'.sibPrev c }
  rest : k' = { k with
    trackers := k'.trackers, trackerSlotsUsed := k'.trackerSlotsUsed, rootTasks := k'.rootTasks }
  lists : ∃ kids, SiblingLists k' kids

section Removal

variable (hf : Forest k rank (fun _ => False) kids)
  (hroot : Rooted k (· = r)) (hrem : Removed k k' r)

include hf hroot hrem

/-- A released tracker is orphaned: its parent is released, too, and older. -/
theorem Removed.orphaned (hr : k.trackerSlotsUsed r = true) (hc : k.trackerSlotsUsed c = true)
    (hc' : k'.trackerSlotsUsed c = false) : Orphaned k r c := by
  induction c using hf.acyclic.induction with
  | _ c ih =>
    by_cases hcr : c = r
    · rw [hcr]
      exact .self
    rcases hrem.pruned.lost c hc hc' with heq | ⟨hp, -, htask, -⟩
    · exact absurd heq hcr
    cases hx : k.parentOf c with
    | none => exact absurd hx (hroot c hc hcr htask)
    | some x =>
      refine .child hp hc htask hx ?_
      rcases hrem.pruned.chain c hc hc' with heq | hchain
      · exact absurd heq hcr
      rcases hchain x hx with rfl | hxfree
      · exact .self
      · exact ih x ⟨hc, hx⟩ (hf.parent_used hc id hx) hxfree

omit hf hroot in
/-- An orphaned tracker cannot stay: its parent is gone, and the root has no place for it. -/
theorem Removed.not_used (ho : Orphaned k r c) : k'.trackerSlotsUsed c = false := by
  obtain ⟨rank', kids', hf'⟩ := hrem.forest
  induction ho with
  | self => exact hrem.gone
  | @child c x hp hc htask hx _ ih =>
    rw [Bool.eq_false_iff]
    intro hc'
    have htask' : (k'.trackers c).task = none := by rw [(hrem.pruned.kept c hc').2, htask]
    rcases hrem.pruned.parent c hc' with hsame | ⟨_, _, _, hmoved⟩
    · cases ih.symm.trans (hf'.parent_used hc' id (hsame.trans hx))
    · exact hrem.rooted c hc' id htask' (hmoved.trans hp)

theorem Removed.exactly (hr : k.trackerSlotsUsed r = true) : RemovedExactly k k' r where
  released c := by
    constructor
    · intro hc'
      refine ⟨(hrem.pruned.kept c hc').1, fun ho => ?_⟩
      cases (hrem.not_used ho).symm.trans hc'
    · rintro ⟨hc, hno⟩
      by_contra hfree
      exact hno (hrem.orphaned hf hroot hr hc (Bool.not_eq_true _ ▸ hfree))
  moved c x hc' hx ho := by
    obtain ⟨rank', kids', hf'⟩ := hrem.forest
    rcases hrem.pruned.parent c hc' with hsame | ⟨_, _, _, hmoved⟩
    · exact Bool.noConfusion
        ((hrem.not_used ho).symm.trans (hf'.parent_used hc' id (hsame.trans hx)))
    · exact hmoved
  stays c hc' hno := by
    rcases hrem.pruned.parent c hc' with hsame | ⟨x, hx, hgone, -⟩
    · exact hsame
    · rcases hgone with rfl | ⟨-, hxu, -, -, hxfree⟩
      · exact absurd .self (hno x hx)
      · exact absurd (hrem.orphaned hf hroot hr hxu hxfree) (hno x hx)
  record c hc' := (hrem.pruned.kept c hc').2
  rest := hrem.pruned.rest
  lists := by
    obtain ⟨rank', kids', hf'⟩ := hrem.forest
    exact ⟨kids', hf'.siblingLists⟩

end Removal

/-- The removal of a used tracker ends, from every well-formed table without crashes. -/
theorem removeTracker_exactly {live joined : TaskRef → Prop}
    (h : TrackerInv k (· = r) live joined) (hcrash : NoCrash k)
    (hr : k.trackerSlotsUsed r = true) :
    ∃ k', k.removeTrackerLocked removalFuel r = .ok () k' ∧ RemovedExactly k k' r := by
  obtain ⟨rank, kids, hf⟩ := h.forest
  rcases removeTracker_cases h hr with ⟨k', hrun, hrem⟩ | ⟨_, _, _, _, horphan⟩
  · exact ⟨k', hrun, hrem.exactly hf h.rooted hr⟩
  · exact absurd hcrash horphan.not_noCrash

/-! ### Every reachable state -/

/-- **The tracker forest stays well formed**, in every reachable state of the manager.  There
`remove_tracker_locked` ends for every used tracker, also once the exit of its task is
recorded, and releases exactly the orphaned trackers. -/
theorem tracker_forest_stays {events : List ManagerEvent} (hrun : ManagerRun events k) :
    (∃ kids, TrackersOk k kids) ∧
    (∀ r, k.trackerSlotsUsed r = true →
      ∃ k', k.removeTrackerLocked removalFuel r = .ok () k' ∧ RemovedExactly k k' r) ∧
    ∀ t r value, k.taskSlotsUsed t = true → ¬ k.Joining t → (k.tasks t).tracker = some r →
      ∃ k', (k.exited r value .exitedClean).removeTrackerLocked removalFuel r = .ok () k' ∧
        RemovedExactly (k.exited r value .exitedClean) k' r := by
  have hinv := hrun.inv
  refine ⟨hinv.trackersOk, fun r hr => ?_, fun t r value ht hj hr => ?_⟩
  · exact removeTracker_exactly hinv.table.weaken hinv.noCrash hr
  · obtain ⟨hused, -⟩ := hinv.table.tracked ht hr
    exact removeTracker_exactly (hinv.table.exited ht hj hr value .exitedClean)
      (hinv.noCrash.exited r value) hused

/-- The manager of the sample platform with one task. -/
def sampleTask : Kernel := Outcome.state
  (sampleManager.createTaskLocked 0 0x1100 7 ⟨0x5000⟩ 0 true false true)

theorem sampleManager_run : ManagerRun [] sampleManager := by
  refine .start ?_ (Prod.ext ?_ rfl)
  · rfl
  · decide +kernel

theorem sampleTask_step : ManagerStep sampleManager (.create (some 1)) sampleTask := by
  have hcreate : sampleManager.createTaskLocked 0 0x1100 7 ⟨0x5000⟩ 0 true false true =
      .ok (some 0) sampleTask := Outcome.eq_ok (by decide +kernel)
  have htid : (sampleTask.tasks 0).tid = 1 := by decide +kernel
  have hstep := ManagerStep.create (fun h => Bool.noConfusion h) hcreate
  rwa [Option.map_some, htid] at hstep

theorem sampleTask_run : ManagerRun [.create (some 1)] sampleTask :=
  sampleManager_run.step sampleTask_step

/-- The task runs on the first hart. -/
def sampleParent : Kernel := sampleTask.modifyHart 0 fun hart => { hart with currentTask := some 0 }

/-- It has made a child. -/
def sampleChild : Kernel := Outcome.state
  (sampleParent.createTaskLocked 0 0x1100 7 ⟨0x5000⟩ 0 false false true)

theorem sampleParent_step : ManagerStep sampleTask .other sampleParent :=
  .other ⟨rfl, rfl, rfl, rfl, rfl, rfl, fun _ => rfl, fun _ _ => rfl⟩

theorem sampleChild_step : ManagerStep sampleParent (.create (some 2)) sampleChild := by
  have hcreate : sampleParent.createTaskLocked 0 0x1100 7 ⟨0x5000⟩ 0 false false true =
      .ok (some 1) sampleChild := Outcome.eq_ok (by decide +kernel)
  have hstep := ManagerStep.create (fun _ t ht => ?_) hcreate
  · rwa [Option.map_some, show (sampleChild.tasks 1).tid = 2 by decide +kernel] at hstep
  · cases ht
    decide +kernel

/-- The child runs, and has made a child of its own. -/
def sampleGrandchild : Kernel := Outcome.state
  ((sampleChild.modifyHart 0 fun hart => { hart with currentTask := some 1 }).createTaskLocked 0
    0x1100 7 ⟨0x5000⟩ 0 false false true)

theorem sampleGrandchild_run : ManagerRun
    [.create (some 1), .other, .create (some 2), .other, .create (some 3)] sampleGrandchild := by
  have hchild := (sampleTask_run.step sampleParent_step).step sampleChild_step
  have hother : SameManager sampleChild
      (sampleChild.modifyHart 0 fun hart => { hart with currentTask := some 1 }) :=
    ⟨rfl, rfl, rfl, rfl, rfl, rfl, fun _ => rfl, fun _ _ => rfl⟩
  have hruns := hchild.step (.other hother)
  have hcreate : (sampleChild.modifyHart 0 fun hart =>
      { hart with currentTask := some 1 }).createTaskLocked 0 0x1100 7 ⟨0x5000⟩ 0 false false true =
        .ok (some 2) sampleGrandchild := Outcome.eq_ok (by decide +kernel)
  have hstep := ManagerStep.create (fun _ t ht => ?_) hcreate
  · rw [Option.map_some, show (sampleGrandchild.tasks 2).tid = 3 by decide +kernel] at hstep
    exact hruns.step hstep
  · cases ht
    decide +kernel

/-- The tracker of the child is removed, and the grandchild is handed to the first task. -/
theorem tracker_forest_stays_sample : (∃ kids, TrackersOk sampleGrandchild kids) ∧
    sampleGrandchild.parentOf 2 = some 1 ∧ sampleGrandchild.parentOf 1 = some 0 ∧
    ∃ k', sampleGrandchild.removeTrackerLocked removalFuel 1 = .ok () k' ∧
      RemovedExactly sampleGrandchild k' 1 ∧ k'.parentOf 2 = some 0 := by
  have hchild : sampleGrandchild.parentOf 2 = some 1 := by decide +kernel
  have hparent : sampleGrandchild.parentOf 1 = some 0 := by decide +kernel
  obtain ⟨htrackers, hremove, -⟩ := tracker_forest_stays sampleGrandchild_run
  obtain ⟨k', hrun, hexact⟩ := hremove 1 (by decide +kernel)
  have hkept : k'.trackerSlotsUsed 2 = true := by
    refine (hexact.released 2).mpr ⟨by decide +kernel, fun horphan => ?_⟩
    cases horphan with
    | child hnone => cases hparent.symm.trans hnone
  exact ⟨htrackers, hchild, hparent, k', hrun, hexact,
    (hexact.moved 2 1 hkept hchild .self).trans hparent⟩

end Jixia
