/-
The lock section of `create_task`, by cases.

* `CreateCase` — nothing happens, or a task and a tracker are born and the tracker
  is linked under the one of the creating task;
* `createTaskLocked_cases` — the section takes one of the two: every failure undoes
  what was allocated before it;
* `CreateCase.inv` — the tracker table stays well formed.
-/
import Jixia.TrackerTable

namespace Jixia

open Function Kernel

variable {k k' : Kernel} {t : TaskRef} {r c : TrackerRef} {p : Option TrackerRef}
  {X : TrackerRef → Prop} {live joined : TaskRef → Prop}

/-! ### Slots -/

/-- A refused mapping changes nothing; an accepted one only the list of mapped stacks. -/
theorem mapBootTaskStack_cases (k : Kernel) (base size : Word) :
    k.mapBootTaskStack base size = (false, k) ∨
      ∃ bases, k.mapBootTaskStack base size = (true, { k with mappedStackBases := bases }) := by
  rw [mapBootTaskStack]
  split
  · exact .inl rfl
  · split
    · exact .inr ⟨_, rfl⟩
    · split
      · exact .inl rfl
      · split
        · exact .inl rfl
        · exact .inr ⟨_, rfl⟩

/-- The kernel with the task slot `t` taken and zeroed. -/
@[simps -fullyApplied]
def Kernel.taken (k : Kernel) (t : TaskRef) : Kernel :=
  { k with
    tasks := update k.tasks t {}
    taskSlotsUsed := update k.taskSlotsUsed t true }

/-- The kernel with the task slot `t` freed and zeroed. -/
@[simps -fullyApplied]
def Kernel.freed (k : Kernel) (t : TaskRef) : Kernel :=
  { k with
    tasks := update k.tasks t {}
    taskSlotsUsed := update k.taskSlotsUsed t false }

/-- The kernel with the tracker `r` taken and zeroed. -/
@[simps -fullyApplied]
def Kernel.tracked (k : Kernel) (r : TrackerRef) : Kernel :=
  { k with
    trackers := update k.trackers r {}
    trackerSlotsUsed := update k.trackerSlotsUsed r true }

theorem allocateTaskLocked_cases (k : Kernel) : k.allocateTaskLocked = (none, k) ∨
    ∃ t, k.taskSlotsUsed t = false ∧ k.allocateTaskLocked = (some t, k.taken t) := by
  rw [allocateTaskLocked]
  cases hfind : (List.finRange kMaxTasks).find? fun t => !k.taskSlotsUsed t with
  | none => exact .inl rfl
  | some t =>
    refine .inr ⟨t, ?_, rfl⟩
    simpa using List.find?_some hfind

theorem allocateTrackerLocked_cases (k : Kernel) : k.allocateTrackerLocked = (none, k) ∨
    ∃ r, k.trackerSlotsUsed r = false ∧ k.allocateTrackerLocked = (some r, k.tracked r) := by
  rw [allocateTrackerLocked]
  cases hfind : (List.finRange kMaxTasks).find? fun r => !k.trackerSlotsUsed r with
  | none => exact .inl rfl
  | some r =>
    refine .inr ⟨r, ?_, rfl⟩
    simpa using List.find?_some hfind

theorem releaseTaskLocked_eq (hq : (k.tasks t).queued = false)
    (hd : (k.tasks t).delay.queued = false) (hm : (k.tasks t).messageWait.queued = false) :
    k.releaseTaskLocked t = .ok () (k.freed t) := by
  rw [releaseTaskLocked, if_neg (not_le.mpr t.isLt), if_neg (by simp [hq, hd, hm])]
  rfl

/-- Taking a zeroed slot and giving it back is nothing. -/
theorem freed_taken (hu : k.taskSlotsUsed t = false) (hz : k.tasks t = {}) :
    (k.taken t).freed t = k := by
  have htasks : update k.tasks t {} = k.tasks := update_eq_self_iff.mpr hz.symm
  have hslots : update k.taskSlotsUsed t false = k.taskSlotsUsed :=
    update_eq_self_iff.mpr hu.symm
  simp only [freed, taken, update_idem, htasks, hslots]

theorem released_tracked (hu : k.trackerSlotsUsed r = false) (hz : k.trackers r = {}) :
    (k.tracked r).released r = k := by
  have htrackers : update k.trackers r {} = k.trackers :=
    update_eq_self_iff.mpr hz.symm
  have hslots : update k.trackerSlotsUsed r false = k.trackerSlotsUsed :=
    update_eq_self_iff.mpr hu.symm
  simp only [released, tracked, update_idem, htrackers, hslots]

/-! ### create_task -/

/-- The record of a new task. -/
def newTask (k : Kernel) (h : HartIndex) (t : TaskRef) (r : TrackerRef) (entry argument : Word)
    (space : AddressSpace) (owner : HartIndex) (idle withStack : Bool) : Task :=
  let stackBottom := if withStack then k.platform.taskStacks t else 0
  let stackTop := if withStack then stackBottom + kTaskStackSize else 0
  { cpu := some owner, addressSpace := space, tid := k.nextTid, state := .ready
    tracker := some r, stackBottom := stackBottom, stackTop := stackTop, idle := idle
    context := initializeUser (k.harts h).mstatus entry argument stackTop
      k.platform.userTaskEndStub (satpValue space) }

/-- The record of its tracker. -/
def newTracker (k : Kernel) (t : TaskRef) (entry : Word) : TaskTracker :=
  { key := k.nextTid, task := some t, status := .running, entryPoint := entry }

/-- The kernel with a new task and a new tracker that hangs in no list yet. -/
@[simps -fullyApplied]
def Kernel.born (k : Kernel) (t : TaskRef) (r : TrackerRef) (task : Task) (tracker : TaskTracker)
    (bases : List Word) : Kernel :=
  { k with
    tasks := update k.tasks t task
    taskSlotsUsed := update k.taskSlotsUsed t true
    trackers := update k.trackers r tracker
    trackerSlotsUsed := update k.trackerSlotsUsed r true
    nextTid := k.nextTid + 1
    mappedStackBases := bases }

/-- The branches of `createTaskLocked`: nothing happens, or a task is born under the
tracker `q`. -/
inductive CreateCase (k : Kernel) (h : HartIndex) (entry argument : Word) (space : AddressSpace)
    (owner : HartIndex) (idle withStack : Bool) (q : Option TrackerRef) :
    Option TaskRef → Kernel → Prop
  | refused : CreateCase k h entry argument space owner idle withStack q none k
  | created {t : TaskRef} {r : TrackerRef} {bases : List Word} :
      k.taskSlotsUsed t = false → k.trackerSlotsUsed r = false →
      CreateCase k h entry argument space owner idle withStack q (some t)
        ((k.born t r (newTask k h t r entry argument space owner idle withStack)
          (newTracker k t entry) bases).adopted r q)

/-- A new tracker joins the forest as one that hangs in no list yet. -/
theorem Forest.born {rank rank' : TrackerRef → ℕ} {kids : Option TrackerRef → List TrackerRef}
    (hf : Forest k rank (fun _ => False) kids) (hrank : ∀ c, c ≠ r → rank' c = rank c)
    (hr : k.trackerSlotsUsed r = false) (t : TaskRef) (task : Task) (entry : Word)
    (bases : List Word) :
    Forest (k.born t r task (newTracker k t entry) bases) rank' (· = r) kids := by
  have hne : ∀ {c}, k.trackerSlotsUsed c = true → c ≠ r := by
    rintro c hc rfl
    rw [hr] at hc
    cases hc
  have hused : ∀ {c}, (k.born t r task (newTracker k t entry) bases).trackerSlotsUsed c = true →
      c ≠ r → k.trackerSlotsUsed c = true := by
    intro c hc hcr
    rwa [born_trackerSlotsUsed, update_of_ne hcr] at hc
  have hother : ∀ {c}, c ≠ r →
      (k.born t r task (newTracker k t entry) bases).trackers c = k.trackers c :=
    fun hc => update_of_ne hc ..
  have hself : (k.born t r task (newTracker k t entry) bases).trackers r = newTracker k t entry :=
    update_self ..
  have hmem : ∀ {q c}, c ∈ kids q → c ≠ r := fun hc => hne (hf.mem_kids.mp hc).1
  refine ⟨?_, ?_, ?_, ?_, ?_⟩
  · refine hf.family.congr (fun q c hc => ?_) (fun q c hc => ?_) (fun c => ?_) (fun q => ?_)
      fun _ => rfl
    · rw [sibNext, hother (hmem hc), sibNext]
    · rw [sibPrev, hother (hmem hc), sibPrev]
    · by_cases hcr : c = r
      · subst hcr
        simp [hr]
      · simp [hcr]
    · cases q with
      | none => rfl
      | some u =>
        by_cases hur : u = r
        · subst hur
          simp only [siblingHead, hself, hf.free u hr]
          rfl
        · simp only [siblingHead, hother hur]
  · intro q c hc
    rw [parentOf, hother (hmem hc)]
    exact hf.parent hc
  · intro c q hc hcr hq
    rw [parentOf, hother hcr] at hq
    have hqu := hf.parent_used (hused hc hcr) id hq
    rw [born_trackerSlotsUsed, update_of_ne (hne hqu)]
    exact hqu
  · intro c q hc hcr hq
    rw [parentOf, hother hcr] at hq
    rw [hrank c hcr, hrank q (hne (hf.parent_used (hused hc hcr) id hq))]
    exact hf.order (hused hc hcr) id hq
  · intro c hc
    have hcr : c ≠ r := by
      rintro rfl
      rw [born_trackerSlotsUsed, update_self] at hc
      cases hc
    rw [born_trackerSlotsUsed, update_of_ne hcr] at hc
    rw [hother hcr, hf.free c hc]

/-- A new tracker is linked under a used one: it gets the next higher rank. -/
theorem Forest.create {rank : TrackerRef → ℕ} {kids : Option TrackerRef → List TrackerRef}
    (hf : Forest k rank (fun _ => False) kids) (hr : k.trackerSlotsUsed r = false)
    {p : Option TrackerRef} (hp : ∀ q, p = some q → k.trackerSlotsUsed q = true) (t : TaskRef)
    (task : Task) (entry : Word) (bases : List Word) :
    (k.born t r task (newTracker k t entry) bases).linkTrackerLocked r p =
        (k.born t r task (newTracker k t entry) bases).adopted r p ∧
      ∃ rank', Forest ((k.born t r task (newTracker k t entry) bases).adopted r p) rank'
        (fun _ => False) (update kids p (r :: kids p)) := by
  have hrank : ∀ c, c ≠ r → update rank r (p.elim 0 fun q => rank q + 1) c = rank c :=
    fun c hc => update_of_ne hc ..
  have hborn := hf.born hrank hr t task entry bases
  have hlink := hborn.link (r := r) (p := p) (update_self ..) rfl fun q hq => by
    have hqr : q ≠ r := by
      rintro rfl
      rw [hp q hq] at hr
      cases hr
    rw [born_trackerSlotsUsed, update_of_ne hqr, update_of_ne hqr,
      update_self, hq]
    exact ⟨hp q hq, Nat.lt_succ_self _⟩
  exact ⟨hlink.1, _, hlink.2.congr rfl rfl (fun _ => ⟨rfl, rfl, rfl, rfl⟩) (fun _ _ => rfl)
    fun u => ⟨False.elim, fun hu => hu.2 hu.1⟩⟩

/-- The tracker a new task is linked under. -/
def Kernel.creator (k : Kernel) (h : HartIndex) (kernelParent : Bool) : Option TrackerRef :=
  if kernelParent then none else (k.harts h).currentTask.bind fun t => (k.tasks t).tracker

/-- The creator is used. -/
theorem TrackerInv.creator (hinv : TrackerInv k X live joined) {h : HartIndex}
    {kernelParent : Bool}
    (hcur : kernelParent = false → ∀ t, (k.harts h).currentTask = some t → live t)
    {q : TrackerRef} (hq : k.creator h kernelParent = some q) :
    k.trackerSlotsUsed q = true := by
  rw [Kernel.creator] at hq
  cases kernelParent with
  | true => cases hq
  | false =>
    rw [if_neg Bool.false_ne_true, Option.bind_eq_some_iff] at hq
    obtain ⟨u, hu, huq⟩ := hq
    obtain ⟨r, hr, hused, _⟩ := hinv.ofTask (hcur rfl u hu)
    rw [huq] at hr
    cases hr
    exact hused

theorem createTaskLocked_cases (hinv : TrackerInv k (fun _ => False) live joined)
    (hzero : ∀ t, k.taskSlotsUsed t = false → k.tasks t = {}) {h : HartIndex}
    {kernelParent : Bool} (hlive : ∀ t, live t → k.taskSlotsUsed t = true)
    (hcur : kernelParent = false → ∀ t, (k.harts h).currentTask = some t → live t)
    (entry argument : Word) (space : AddressSpace) (owner : HartIndex) (idle withStack : Bool) :
    ∃ child k', k.createTaskLocked h entry argument space owner kernelParent idle withStack =
      .ok child k' ∧ CreateCase k h entry argument space owner idle withStack
        (k.creator h kernelParent) child k' := by
  obtain ⟨rank, kids, hf⟩ := hinv.forest
  rw [createTaskLocked]
  split
  · exact ⟨_, _, rfl, .refused⟩
  rcases allocateTaskLocked_cases k with halloc | ⟨t, htu, halloc⟩
  · rcases allocateTrackerLocked_cases k with halloc' | ⟨r, hru, halloc'⟩
    · simp only [halloc, halloc']
      exact ⟨_, _, rfl, .refused⟩
    · simp only [halloc, halloc', releaseTrackerLocked_eq, Outcome.andThen_ok,
        released_tracked hru (hf.free r hru)]
      exact ⟨_, _, rfl, .refused⟩
  · have hz := hzero t htu
    have hrel : (k.taken t).releaseTaskLocked t = .ok () k := by
      rw [releaseTaskLocked_eq, freed_taken htu hz] <;> simp
    rcases allocateTrackerLocked_cases (k.taken t) with halloc' | ⟨r, hru, halloc'⟩
    · simp only [halloc, halloc', hrel, Outcome.andThen_ok]
      exact ⟨_, _, rfl, .refused⟩
    · have hback : ((k.taken t).tracked r).releaseTrackerLocked r = .ok () (k.taken t) := by
        rw [releaseTrackerLocked_eq, released_tracked hru (hf.free r hru)]
      -- The stack is mapped, known or not wanted, or its mapping is refused.
      have hmap : (if withStack then ((k.taken t).tracked r).mapBootTaskStack
            (if withStack then ((k.taken t).tracked r).platform.taskStacks t else 0) kTaskStackSize
          else (true, (k.taken t).tracked r)) = (false, (k.taken t).tracked r) ∨
          ∃ bases, (if withStack then ((k.taken t).tracked r).mapBootTaskStack
            (if withStack then ((k.taken t).tracked r).platform.taskStacks t else 0) kTaskStackSize
          else (true, (k.taken t).tracked r)) =
            (true, { (k.taken t).tracked r with mappedStackBases := bases }) := by
        cases withStack with
        | true => exact mapBootTaskStack_cases ..
        | false => exact .inr ⟨_, rfl⟩
      simp only [halloc, halloc']
      rcases hmap with hmap | ⟨bases, hmap⟩
      · simp only [hmap, Bool.not_false, if_true, hback, hrel, Outcome.andThen_ok]
        exact ⟨_, _, rfl, .refused⟩
      · simp only [hmap, Bool.not_true, if_neg Bool.false_ne_true]
        refine ⟨_, _, rfl, ?_⟩
        have hlink := (hf.create hru (fun q hq => hinv.creator hcur hq) t
          (newTask k h t r entry argument space owner idle withStack) entry bases).1
        convert CreateCase.created htu hru using 1
        rw [← hlink]
        congr 1
        · simp only [modifyTask, modifyTracker, taken, tracked,
            born, update_idem, update_self]
          rfl
        · -- The creator is another task than the new one.
          rw [creator]
          cases kernelParent with
          | true => rfl
          | false =>
            rw [if_neg Bool.false_ne_true, if_neg Bool.false_ne_true]
            refine Option.bind_congr fun u hu => ?_
            have hut : u ≠ t := by
              rintro rfl
              rw [hlive u (hcur rfl u hu)] at htu
              cases htu
            simp [hut]

theorem CreateCase.inv (hinv : TrackerInv k (fun _ => False) live joined) {h : HartIndex}
    {kernelParent : Bool} (hlive : ∀ t, live t → k.taskSlotsUsed t = true)
    (hcur : kernelParent = false → ∀ t, (k.harts h).currentTask = some t → live t)
    {entry argument : Word} {space : AddressSpace} {owner : HartIndex} {idle withStack : Bool}
    {child : Option TaskRef} (hc : CreateCase k h entry argument space owner idle withStack
      (k.creator h kernelParent) child k') :
    TrackerInv k' (fun _ => False) (fun u => live u ∨ child = some u) joined := by
  obtain ⟨rank, kids, hf⟩ := hinv.forest
  cases hc with
  | refused =>
    exact hinv.congr rfl rfl rfl (fun _ _ => ⟨rfl, rfl⟩) (fun _ => by simp) fun _ => Iff.rfl
  | @created t r bases htu hru =>
    set task := newTask k h t r entry argument space owner idle withStack
    set k1 := k.born t r task (newTracker k t entry) bases
    set k2 := k1.adopted r (k.creator h kernelParent)
    have hne : ∀ {c}, k.trackerSlotsUsed c = true → c ≠ r := by
      rintro c hc rfl
      rw [hru] at hc
      cases hc
    have htne : ∀ {u}, live u → u ≠ t := by
      rintro u hu rfl
      rw [hlive u hu] at htu
      cases htu
    have hused : ∀ {c}, k1.trackerSlotsUsed c = true → c ≠ r → k.trackerSlotsUsed c = true := by
      intro c hc hcr
      rwa [born_trackerSlotsUsed, update_of_ne hcr] at hc
    -- The data of the trackers, once the links are set aside.
    have hdata : ∀ c, c ≠ r → (k2.trackers c).key = (k.trackers c).key ∧
        (k2.trackers c).task = (k.trackers c).task ∧
        (k2.trackers c).wait = (k.trackers c).wait := by
      intro c hc
      have hc1 : k1.trackers c = k.trackers c := update_of_ne hc ..
      simp only [k2, adopted, withLinks, hc1, and_self]
    have hself : (k2.trackers r).key = k.nextTid ∧ (k2.trackers r).task = some t ∧
        (k2.trackers r).wait.active = false := by
      have hr1 : k1.trackers r = newTracker k t entry := update_self ..
      simp only [k2, adopted, withLinks, hr1]
      exact ⟨rfl, rfl, rfl⟩
    have hold : ∀ u, u ≠ t → k2.tasks u = k.tasks u := fun u hu => update_of_ne hu ..
    have hnew : k2.tasks t = task := update_self ..
    obtain ⟨-, rank', hf'⟩ := hf.create hru (fun q hq => hinv.creator hcur hq) t task entry bases
    refine ⟨⟨rank', _, hf'⟩, ?_, ?_, ?_, ?_, ?_⟩
    · intro c hc _ htc
      by_cases hcr : c = r
      · rw [hcr, hself.2.1] at htc
        cases htc
      · rw [(hdata c hcr).2.1] at htc
        have hpar : k2.parentOf c = k.parentOf c := by
          have hc1 : k1.trackers c = k.trackers c := update_of_ne hcr ..
          simp only [k2, adopted, withLinks, parentOf, update_of_ne hcr, hc1]
        rw [hpar]
        exact hinv.rooted c (hused hc hcr) id htc
    · rintro u (hu | hu)
      · obtain ⟨c, hc, hcu, hct, hck⟩ := hinv.ofTask hu
        rw [hold u (htne hu)]
        refine ⟨c, hc, ?_, ?_, ?_⟩
        · exact (update_of_ne (hne hcu) ..).trans hcu
        · rw [(hdata c (hne hcu)).2.1, hct]
        · rw [(hdata c (hne hcu)).1, hck]
      · cases hu
        rw [hnew]
        exact ⟨r, rfl, update_self .., hself.2.1, hself.1⟩
    · intro c u hc htc
      by_cases hcr : c = r
      · rw [hcr, hself.2.1] at htc
        cases htc
        rw [hnew, hcr]
        exact ⟨.inr rfl, rfl⟩
      · rw [(hdata c hcr).2.1] at htc
        obtain ⟨hu, huc⟩ := hinv.ofTracker (hused hc hcr) htc
        rw [hold u (htne hu)]
        exact ⟨.inl hu, huc⟩
    · intro c hc hact
      by_cases hcr : c = r
      · rw [hcr, hself.2.2] at hact
        cases hact
      · rw [(hdata c hcr).2.2] at hact
        rw [(hdata c hcr).2.1]
        exact hinv.waiting (hused hc hcr) hact
    · intro u hu
      obtain ⟨hlu, hact⟩ := hinv.joins hu
      refine ⟨.inl hlu, fun c hc => ?_⟩
      obtain ⟨c', hc', hcu, _⟩ := hinv.ofTask hlu
      rw [hold u (htne hlu), hc'] at hc
      cases hc
      rw [(hdata c (hne hcu)).2.2]
      exact hact c hc'

theorem CreateCase.noCrash (hn : NoCrash k) {h : HartIndex} {entry argument : Word}
    {space : AddressSpace} {owner : HartIndex} {idle withStack : Bool} {q : Option TrackerRef}
    {child : Option TaskRef}
    (hc : CreateCase k h entry argument space owner idle withStack q child k') : NoCrash k' := by
  cases hc with
  | refused => exact hn
  | @created t r bases _ _ =>
    intro c hc
    simp only [adopted, withLinks, born_trackers]
    by_cases hcr : c = r
    · rw [hcr, update_self]
      exact ExitStatus.noConfusion
    · rw [update_of_ne hcr]
      refine hn c ?_
      rwa [show ((k.born t r _ _ bases).adopted r q).trackerSlotsUsed c = _ from
        update_of_ne hcr ..] at hc

end Jixia
