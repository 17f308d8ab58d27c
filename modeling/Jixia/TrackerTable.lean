/-
The table of trackers.

`TrackerInv` is what holds of the tracker table between two lock sections of the
task manager: the trackers form a forest, every live task has a tracker of its own,
and a tracker waits exactly when its task is blocked in a join.

* `TrackerInv.removed` — the removal of a completed tracker keeps it;
* `TrackerInv.rewait` — so does a change of one tracker's wait;
* `NoCrash` — no used tracker has crashed, which is what keeps a removal from parking.
-/
import Jixia.TrackerRemoval

namespace Jixia

open LinkedList Function Kernel

variable {k k' : Kernel} {t : TaskRef} {r c : TrackerRef} {p : Option TrackerRef}
  {X : TrackerRef → Prop} {live joined : TaskRef → Prop}

/-! ### The tracker table -/

/-- The tracker table is well formed.  The trackers of `X` may be completed and
kernel-parented: they are about to be removed. -/
structure TrackerInv (k : Kernel) (X : TrackerRef → Prop) (live joined : TaskRef → Prop) :
    Prop where
  forest : ∃ rank kids, Forest k rank (fun _ => False) kids
  rooted : Rooted k X
  ofTask : ∀ {t}, live t → ∃ r, (k.tasks t).tracker = some r ∧ k.trackerSlotsUsed r = true ∧
    (k.trackers r).task = some t ∧ (k.trackers r).key = (k.tasks t).tid
  ofTracker : ∀ {r t}, k.trackerSlotsUsed r = true → (k.trackers r).task = some t →
    live t ∧ (k.tasks t).tracker = some r
  waiting : ∀ {r}, k.trackerSlotsUsed r = true → (k.trackers r).wait.active = true →
    ∃ t, (k.trackers r).task = some t ∧ joined t
  joins : ∀ {t}, joined t → live t ∧
    ∀ r, (k.tasks t).tracker = some r → (k.trackers r).wait.active = true

namespace TrackerInv

/-- Only the tracker table and the back pointers of the live tasks matter. -/
theorem congr (h : TrackerInv k X live joined) {live' joined' : TaskRef → Prop}
    (htr : k'.trackers = k.trackers) (hu : k'.trackerSlotsUsed = k.trackerSlotsUsed)
    (hroot : k'.rootTasks = k.rootTasks)
    (htask : ∀ t, live t → (k'.tasks t).tracker = (k.tasks t).tracker ∧
      (k'.tasks t).tid = (k.tasks t).tid)
    (hlive : ∀ t, live' t ↔ live t) (hjoin : ∀ t, joined' t ↔ joined t) :
    TrackerInv k' X live' joined' := by
  obtain ⟨rank, kids, hf⟩ := h.forest
  refine ⟨⟨rank, kids, ?_⟩, ?_, ?_, ?_, ?_, ?_⟩
  · refine hf.congr hu hroot (fun r => ?_) (fun r _ => by rw [htr]) fun _ => Iff.rfl
    simp only [parentOf, firstOf, sibNext, sibPrev, htr, and_self]
  · intro c hc hX
    rw [hu] at hc
    rw [parentOf, htr]
    exact h.rooted c hc hX
  · intro t ht
    rw [hlive] at ht
    rw [(htask t ht).1, (htask t ht).2, htr, hu]
    exact h.ofTask ht
  · intro r t hr ht
    rw [hu] at hr
    rw [htr] at ht
    obtain ⟨hl, htk⟩ := h.ofTracker hr ht
    rw [hlive, (htask t hl).1]
    exact ⟨hl, htk⟩
  · intro r hr hw
    rw [hu] at hr
    rw [htr] at hw ⊢
    simpa only [hjoin] using h.waiting hr hw
  · intro t ht
    rw [hjoin] at ht
    obtain ⟨hl, hr⟩ := h.joins ht
    rw [hlive, (htask t hl).1, htr]
    exact ⟨hl, hr⟩

/-- What the table holds for the tracker that a live task points to. -/
theorem tracked (h : TrackerInv k X live joined) (ht : live t)
    (hr : (k.tasks t).tracker = some r) : k.trackerSlotsUsed r = true ∧
      (k.trackers r).task = some t ∧ (k.trackers r).key = (k.tasks t).tid := by
  obtain ⟨r', hr', hrest⟩ := h.ofTask ht
  cases hr.symm.trans hr'
  exact hrest

/-- Two live tasks have different trackers. -/
theorem tracker_inj (h : TrackerInv k X live joined) {t t' : TaskRef} (ht : live t)
    (ht' : live t') (heq : (k.tasks t).tracker = (k.tasks t').tracker) : t = t' := by
  obtain ⟨r, hr, _, htask, _⟩ := h.ofTask ht
  obtain ⟨r', hr', _, htask', _⟩ := h.ofTask ht'
  rw [hr, hr'] at heq
  cases heq
  rw [htask] at htask'
  exact Option.some.inj htask'

end TrackerInv

/-! ### Removal from a well-formed table -/

/-- What the removal of a completed tracker leaves. -/
structure Removed (k k' : Kernel) (r : TrackerRef) : Prop where
  pruned : Pruned k k' (k.parentOf r) r
  gone : k'.trackerSlotsUsed r = false
  forest : ∃ rank kids, Forest k' rank (fun _ => False) kids
  rooted : Rooted k' fun _ => False

theorem Pruned.tasks_eq (h : Pruned k k' p r) : k'.tasks = k.tasks := by
  rw [h.rest]

/-- A tracker with a task survives. -/
theorem Pruned.used_of_task (h : Pruned k k' p r) (hr : (k.trackers r).task = none)
    (hc : k.trackerSlotsUsed c = true) (ht : (k.trackers c).task ≠ none) :
    k'.trackerSlotsUsed c = true := by
  by_contra hne
  rw [Bool.not_eq_true] at hne
  rcases h.lost c hc hne with rfl | ⟨_, _, htask, _⟩
  · exact ht hr
  · exact ht htask

theorem removeTracker_cases (h : TrackerInv k (· = r) live joined)
    (hr : k.trackerSlotsUsed r = true) :
    (∃ k', k.removeTrackerLocked removalFuel r = .ok () k' ∧ Removed k k' r) ∨
    ∃ e k', k.removeTrackerLocked removalFuel r = .error e k' ∧ k.parentOf r = none ∧
      CrashedOrphan e k k' := by
  obtain ⟨rank, kids, hf⟩ := h.forest
  have hres := removeTracker_spec hf hr h.rooted
  cases hout : k.removeTrackerLocked removalFuel r with
  | ok _ k' =>
    rw [hout] at hres
    obtain ⟨hf', hp, hroot, _, hgone⟩ := hres
    exact .inl ⟨k', rfl, hp, hgone, ⟨rank, hf'⟩, hroot⟩
  | error e k' =>
    rw [hout] at hres
    exact .inr ⟨e, k', rfl, hres⟩

theorem TrackerInv.removed (h : TrackerInv k (· = r) live joined)
    (ht : (k.trackers r).task = none) (hrem : Removed k k' r) :
    TrackerInv k' (fun _ => False) live joined := by
  have htasks := hrem.pruned.tasks_eq
  have hkeep : ∀ {c}, k'.trackerSlotsUsed c = true → k.trackerSlotsUsed c = true ∧
      (k'.trackers c).key = (k.trackers c).key ∧ (k'.trackers c).task = (k.trackers c).task ∧
      (k'.trackers c).wait = (k.trackers c).wait := by
    intro c hc
    obtain ⟨hu, hrec⟩ := hrem.pruned.kept c hc
    rw [hrec]
    exact ⟨hu, rfl, rfl, rfl⟩
  have hused : ∀ {t}, live t → ∃ r, (k.tasks t).tracker = some r ∧
      k'.trackerSlotsUsed r = true ∧ (k.trackers r).task = some t ∧
      (k.trackers r).key = (k.tasks t).tid := by
    intro t hl
    obtain ⟨r', hr', hu, htask, hkey⟩ := h.ofTask hl
    refine ⟨r', hr', hrem.pruned.used_of_task ht hu ?_, htask, hkey⟩
    rw [htask]
    exact Option.some_ne_none t
  refine ⟨hrem.forest, hrem.rooted, ?_, ?_, ?_, ?_⟩
  · intro t hl
    obtain ⟨r', hr', hu, htask, hkey⟩ := hused hl
    rw [htasks]
    refine ⟨r', hr', hu, ?_, ?_⟩
    · rw [(hkeep hu).2.2.1, htask]
    · rw [(hkeep hu).2.1, hkey]
  · intro c t hc htask
    rw [(hkeep hc).2.2.1] at htask
    rw [htasks]
    exact h.ofTracker (hkeep hc).1 htask
  · intro c hc hw
    rw [(hkeep hc).2.2.2] at hw
    rw [(hkeep hc).2.2.1]
    exact h.waiting (hkeep hc).1 hw
  · intro t hj
    obtain ⟨hl, hact⟩ := h.joins hj
    obtain ⟨r', hr', hu, _⟩ := hused hl
    rw [htasks]
    refine ⟨hl, fun c hc => ?_⟩
    rw [hr'] at hc
    cases hc
    rw [(hkeep hu).2.2.2]
    exact hact r' hr'

/-! ### Changing one tracker -/

/-- Change what a tracker says about its task, but no link. -/
theorem Forest.modifyTracker {rank : TrackerRef → ℕ} {H : TrackerRef → Prop}
    {kids : Option TrackerRef → List TrackerRef} (hf : Forest k rank H kids)
    (hr : k.trackerSlotsUsed r = true) {f : TaskTracker → TaskTracker}
    (hkeep : ∀ x, f x = { x with
      key := (f x).key, task := (f x).task, status := (f x).status
      returnValue := (f x).returnValue, wait := (f x).wait, entryPoint := (f x).entryPoint }) :
    Forest (k.modifyTracker r f) rank H kids := by
  refine hf.congr rfl rfl (fun u => ?_) (fun u hu => ?_) fun _ => Iff.rfl
  · simp only [parentOf, firstOf, sibNext, sibPrev,
      modifyTracker_trackers]
    by_cases hur : u = r
    · subst hur
      rw [update_self, hkeep]
      exact ⟨rfl, rfl, rfl, rfl⟩
    · rw [update_of_ne hur]
      exact ⟨rfl, rfl, rfl, rfl⟩
  · have hur : u ≠ r := by
      rintro rfl
      rw [hr] at hu
      cases hu
    rw [modifyTracker_trackers, update_of_ne hur]

/-- Change the wait of the tracker `q` of the task `u`, and the record of `u`. -/
theorem TrackerInv.rewait {q : TrackerRef} {u : TaskRef} (h : TrackerInv k X live joined)
    (hq : k.trackerSlotsUsed q = true) (hu : (k.trackers q).task = some u) (wait : WaitInfo)
    {f : Task → Task} (hf : ∀ task, (f task).tracker = task.tracker ∧ (f task).tid = task.tid)
    {joined' : TaskRef → Prop} (hother : ∀ v, v ≠ u → (joined' v ↔ joined v))
    (hself : joined' u ↔ wait.active = true) :
    TrackerInv ((k.modifyTracker q fun tracker => { tracker with wait := wait }).modifyTask u f) X
      live joined' := by
  obtain ⟨rank, kids, hforest⟩ := h.forest
  obtain ⟨hlive, htr⟩ := h.ofTracker hq hu
  set k' := (k.modifyTracker q fun tracker => { tracker with wait := wait }).modifyTask u f
  have htask : ∀ v, (k'.tasks v).tracker = (k.tasks v).tracker ∧
      (k'.tasks v).tid = (k.tasks v).tid := by
    intro v
    by_cases hv : v = u
    · rw [hv, show k'.tasks u = f (k.tasks u) from update_self ..]
      exact hf _
    · rw [show k'.tasks v = k.tasks v from update_of_ne hv ..]
      exact ⟨rfl, rfl⟩
  have hat : k'.trackers q = { k.trackers q with wait := wait } := update_self ..
  have hne : ∀ c, c ≠ q → k'.trackers c = k.trackers c := fun c hc => update_of_ne hc ..
  have hsame : ∀ c, k'.parentOf c = k.parentOf c ∧ (k'.trackers c).key = (k.trackers c).key ∧
      (k'.trackers c).task = (k.trackers c).task := by
    intro c
    rw [parentOf]
    by_cases hc : c = q
    · rw [hc, hat]
      exact ⟨rfl, rfl, rfl⟩
    · rw [hne c hc]
      exact ⟨rfl, rfl, rfl⟩
  refine ⟨⟨rank, kids, ?_⟩, ?_, ?_, ?_, ?_, ?_⟩
  · exact (hforest.modifyTracker (r := q) (f := fun tracker => { tracker with wait := wait }) hq
      fun _ => rfl).congr rfl rfl (fun _ => ⟨rfl, rfl, rfl, rfl⟩) (fun _ _ => rfl)
      fun _ => Iff.rfl
  · intro c hc hX htc
    rw [(hsame c).2.2] at htc
    rw [(hsame c).1]
    exact h.rooted c hc hX htc
  · intro v hv
    obtain ⟨c, hc, hcu, hct, hck⟩ := h.ofTask hv
    refine ⟨c, ?_, hcu, ?_, ?_⟩
    · rw [(htask v).1, hc]
    · rw [(hsame c).2.2, hct]
    · rw [(hsame c).2.1, (htask v).2, hck]
  · intro c v hc htc
    rw [(hsame c).2.2] at htc
    rw [(htask v).1]
    exact h.ofTracker hc htc
  · intro c hc hact
    rw [(hsame c).2.2]
    by_cases hcq : c = q
    · rw [hcq, hat] at hact
      rw [hcq]
      exact ⟨u, hu, hself.mpr hact⟩
    · rw [hne c hcq] at hact
      obtain ⟨v, hv, hjv⟩ := h.waiting hc hact
      have hvu : v ≠ u := by
        rintro rfl
        exact hcq (Option.some.inj ((h.ofTracker hc hv).2.symm.trans htr))
      exact ⟨v, hv, (hother v hvu).mpr hjv⟩
  · intro v hv
    by_cases hvu : v = u
    · subst hvu
      refine ⟨hlive, fun c hc => ?_⟩
      rw [(htask v).1, htr] at hc
      cases hc
      rw [hat]
      exact hself.mp hv
    · obtain ⟨hlv, hact⟩ := h.joins ((hother v hvu).mp hv)
      refine ⟨hlv, fun c hc => ?_⟩
      rw [(htask v).1] at hc
      have hcq : c ≠ q := by
        rintro rfl
        exact hvu (h.tracker_inj hlv hlive (hc.trans htr.symm))
      rw [hne c hcq]
      exact hact c hc

/-- Writing a register keeps the tracker table. -/
theorem TrackerInv.setReg (h : TrackerInv k X live joined) (t : TaskRef) (i : Fin 32)
    (value : Word) : TrackerInv (k.setReg t i value) X live joined := by
  refine h.congr rfl rfl rfl (fun u _ => ?_) (fun _ => Iff.rfl) fun _ => Iff.rfl
  rw [Kernel.setReg, modifyTask_tasks]
  by_cases hu : u = t
  · rw [hu, update_self]
    exact ⟨rfl, rfl⟩
  · rw [update_of_ne hu]
    exact ⟨rfl, rfl⟩

theorem TrackerInv.weaken (h : TrackerInv k (fun _ => False) live joined) :
    TrackerInv k X live joined :=
  ⟨h.forest, fun c hc _ => h.rooted c hc id, h.ofTask, h.ofTracker, h.waiting, h.joins⟩

/-! ### Frames -/

/-- Everything outside of the task records and the tracker table is the same. -/
def SameOutside (k k' : Kernel) : Prop :=
  k' = { k with
    tasks := k'.tasks, trackers := k'.trackers, trackerSlotsUsed := k'.trackerSlotsUsed
    rootTasks := k'.rootTasks }

theorem Pruned.sameOutside {k0 : Kernel} (h0 : SameOutside k0 k) (h : Pruned k k' p r) :
    SameOutside k0 k' := by
  rw [SameOutside, h.rest, h0]

/-- No used tracker has crashed. -/
def NoCrash (k : Kernel) : Prop :=
  ∀ c, k.trackerSlotsUsed c = true → (k.trackers c).status ≠ .crashed

theorem NoCrash.pruned (h : NoCrash k) (hp : Pruned k k' p r) : NoCrash k' := by
  intro c hc
  obtain ⟨hu, hrec⟩ := hp.kept c hc
  rw [hrec]
  exact h c hu

theorem CrashedOrphan.not_noCrash {e : Halt} (h : CrashedOrphan e k k') : ¬ NoCrash k := by
  obtain ⟨_, c, ⟨hu, hs⟩, _⟩ := h
  exact fun hn => hn c hu hs

end Jixia
