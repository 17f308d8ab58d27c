/-
The invariant after the bootstrap.

`bootstrap` zeroes the tables, gives every present hart an idle task and enters the
initial task.  Each phase keeps `Booting`: the invariant, and nothing but idle tasks
so far.

* `bootstrap_enters`, `bootstrap_quiescent` — where the bootstrap enters user mode, the state is
  quiescent, so every run starts there.
-/
import Jixia.Runs
import Jixia.Bootstrap
import Jixia.IpcRefinement

namespace Jixia

open Machine Proc Holding LinkedList Function Kernel

variable {legal : Prop} {k k' : Kernel} {loc : Loc} {h : HartIndex} {t : TaskRef}

/-! ### The zeroed tables -/

/-- Nothing has been created yet, and no hart is bound. -/
structure Zeroed (k : Kernel) : Prop where
  tasks : ∀ t, k.tasks t = {}
  trackers : ∀ r, k.trackers r = {}
  taskSlots : ∀ t, k.taskSlotsUsed t = false
  trackerSlots : ∀ r, k.trackerSlotsUsed r = false
  root : k.rootTasks = none
  run : ∀ q, k.runQueues q = {}
  delay : ∀ q, k.delayQueues q = none
  endpoints : k.endpoints = fun _ => {}
  slotAllocated : k.slotAllocated = fun _ => false
  unlocked : ∀ l, k.locks l = none
  harts : ∀ h, (k.harts h).idleTask = none ∧ (k.harts h).currentTask = none ∧
    (k.harts h).scheduler = false

theorem Zeroed.forest (hz : Zeroed k) : Forest k (fun _ => 0) (fun _ => False) fun _ => [] := by
  have hno : ∀ {r}, ¬ k.trackerSlotsUsed r = true := fun {r} => by simp [hz.trackerSlots r]
  refine ⟨⟨fun p => ?_, fun r => ?_, nofun⟩, nofun,
    fun hr => absurd hr hno, fun hr => absurd hr hno, fun r _ => hz.trackers r⟩
  · have hhead : k.siblingHead p = none := by
      cases p with
      | none => exact hz.root
      | some p => rw [siblingHead, hz.trackers p]
    rw [hhead]
    exact .nil
  · simp [hz.trackerSlots r]

theorem Zeroed.trackerInv (hz : Zeroed k) :
    TrackerInv k (fun _ => False) (Live fun _ => none) fun _ => False := by
  have hno : ∀ {r}, ¬ k.trackerSlotsUsed r = true := fun {r} => by simp [hz.trackerSlots r]
  refine ⟨⟨_, _, hz.forest⟩, fun r hr => absurd hr hno, ?_,
    fun hr => absurd hr hno, fun hr => absurd hr hno, False.elim⟩
  rintro t ⟨p, hp, -⟩
  cases hp

theorem Zeroed.queues (hz : Zeroed k) : QueuesOk k fun _ => none := by
  refine ⟨⟨fun _ => [], ⟨⟨fun q => ?_, fun t => ?_, nofun⟩, fun q => ?_⟩, ?_⟩,
    ⟨fun _ => [], ⟨⟨fun q => ?_, fun t => ?_, nofun⟩, fun _ => .nil⟩, ?_⟩,
    ⟨fun _ => [], (ZeroTable.inv ⟨hz.endpoints, hz.slotAllocated, fun t => ?_⟩).weaken
      fun _ hf => hf.elim, ?_⟩⟩
  · rw [hz.run]
    exact .nil
  · simp [hz.tasks t]
  · rw [hz.run]
    rfl
  · simp
  · rw [hz.delay]
    exact .nil
  · simp [hz.tasks t]
  · simp
  · rw [hz.tasks t]
  · simp

theorem Zeroed.inv (hz : Zeroed k) : Inv legal k fun _ => none := by
  refine ⟨fun t => ?_, fun t _ => hz.tasks t, hz.queues, fun _ => nofun, nofun,
    fun h => ⟨fun hb => ?_, fun i hi => ?_⟩, fun t ht => ?_,
    hz.trackerInv.congr rfl rfl rfl (fun _ _ => ⟨rfl, rfl⟩) (fun _ => Iff.rfl)
      (fun _ => by simp), fun _ r hr => ?_⟩
  · simp [hz.taskSlots t]
  · rw [(hz.harts h).2.2] at hb
    cases hb
  · rw [(hz.harts h).1] at hi
    cases hi
  · rw [hz.tasks t] at ht
    cases ht
  · rw [hz.trackerSlots r] at hr
    cases hr

/-! ### Binding a hart and giving it an idle task -/

/-- A hart without an idle task gets a new record; a bound hart stays bound. -/
theorem Inv.rebind {f : HartLocal → HartLocal} (hi : Inv legal k loc)
    (hbound : (k.harts h).scheduler = true → (f (k.harts h)).scheduler = true)
    (hhart : HartOk (k.modifyHart h f) loc h) (hnone : (k.harts h).idleTask = none) :
    Inv legal (k.modifyHart h f) loc := by
  have hother : ∀ j, j ≠ h → (k.modifyHart h f).harts j = k.harts j :=
    fun j hj => update_of_ne hj ..
  refine ⟨hi.used, hi.zero, hi.queues.congr (fun _ => ⟨rfl, rfl, rfl, rfl, rfl⟩) rfl rfl rfl rfl,
    hi.quiet, fun u p hp => ?_, fun j => ?_, fun u hu => ?_,
    hi.tracker.congr rfl rfl rfl (fun _ _ => ⟨rfl, rfl⟩) (fun _ => Iff.rfl) fun _ => Iff.rfl,
    hi.noCrash⟩
  · obtain ⟨⟨j, hj, hb⟩, hpin, hidle, hstate⟩ := hi.placed u p hp
    refine ⟨⟨j, hj, ?_⟩, hpin, hidle, ?_⟩
    · by_cases hjh : j = h
      · subst hjh
        rw [modifyHart_harts, update_self]
        exact hbound hb
      · rw [hother j hjh]
        exact hb
    · cases p <;> exact hstate
  · by_cases hj : j = h
    · rw [hj]
      exact hhart
    · refine (hi.hart j).congr ?_ fun _ _ => ⟨rfl, rfl, .inl rfl⟩
      rw [hother j hj]
      exact ⟨rfl, rfl, rfl, rfl⟩
  · obtain ⟨j, hj⟩ := hi.idleOf u hu
    have hjh : j ≠ h := by
      rintro rfl
      rw [hnone] at hj
      cases hj
    exact ⟨j, by rw [hother j hjh]; exact hj⟩

theorem Inv.bindHart (hi : Inv legal k loc) (hnone : (k.harts h).idleTask = none) :
    Inv legal (k.bindHart h) loc := by
  have hself : (k.bindHart h).harts h = _ := update_self ..
  refine hi.rebind (fun _ => rfl) ⟨fun _ => ?_, fun i hti => ?_⟩ hnone
  · rw [show (k.modifyHart h _).harts h = _ from hself]
    exact ⟨rfl, rfl⟩
  · rw [show (k.modifyHart h _).harts h = _ from hself] at hti
    rw [show (k.harts h).idleTask = some i from hti] at hnone
    cases hnone

/-- The hart `h` takes the new task `t` as its idle task. -/
def Kernel.withIdle (k : Kernel) (h : HartIndex) (t : TaskRef) : Kernel :=
  (k.modifyTask t fun task => { task with idle := true }).modifyHart h fun hart =>
    { hart with idleTask := some t, currentTask := none }

theorem Inv.withIdle (hi : Inv legal k loc) (ht : loc t = some (.own h))
    (hstate : (k.tasks t).state = .ready) (hbound : (k.harts h).scheduler = true)
    (hnone : (k.harts h).idleTask = none) : Inv legal (k.withIdle h t) loc := by
  have hhart : (k.withIdle h t).harts h =
      { k.harts h with idleTask := some t, currentTask := none } := update_self ..
  have hharts : ∀ j, j ≠ h → (k.withIdle h t).harts j = k.harts j :=
    fun j hj => update_of_ne hj ..
  have hself : (k.withIdle h t).tasks t = { k.tasks t with idle := true } :=
    update_self ..
  have hother : ∀ u, u ≠ t → (k.withIdle h t).tasks u = k.tasks u :=
    fun u hu => update_of_ne hu ..
  have hbind : ∀ j, ((k.withIdle h t).harts j).scheduler = (k.harts j).scheduler := by
    intro j
    by_cases hj : j = h
    · rw [hj, hhart]
    · rw [hharts j hj]
  refine ⟨hi.used, fun u hu => ?_, hi.queues.congr (fun u => ?_) rfl rfl rfl rfl, hi.quiet,
    fun u p hp => ?_, fun j => ?_, fun u hu => ?_,
    hi.tracker.congr rfl rfl rfl (fun u _ => ?_) (fun _ => Iff.rfl) fun _ => Iff.rfl,
    hi.noCrash⟩
  · rw [hother u fun hut => by rw [hut, ht] at hu; cases hu]
    exact hi.zero u hu
  · by_cases hut : u = t
    · rw [hut, hself]
      exact ⟨rfl, rfl, rfl, rfl, rfl⟩
    · rw [hother u hut]
      exact ⟨rfl, rfl, rfl, rfl, rfl⟩
  · obtain ⟨⟨j, hj, hb⟩, hpin, hidle, hallow⟩ := hi.placed u p hp
    by_cases hut : u = t
    · subst hut
      rw [ht] at hp
      cases hp
      rw [hself]
      exact ⟨⟨j, hj, (hbind j).trans hb⟩, hpin, nofun, trivial⟩
    · rw [hother u hut]
      refine ⟨⟨j, hj, (hbind j).trans hb⟩, hpin, hidle, ?_⟩
      cases p <;> exact hallow
  · by_cases hj : j = h
    · subst hj
      refine ⟨fun _ => ?_, fun i hti => ?_⟩
      · rw [hhart]
        exact (hi.hart j).queues hbound
      · rw [hhart] at hti
        cases hti
        rw [hself, hhart]
        exact ⟨hbound, ht, rfl, .inl hstate⟩
    · have hne : ∀ i, (k.harts j).idleTask = some i → i ≠ t := by
        rintro i hti rfl
        have hown := ((hi.hart j).idle i hti).2.1
        rw [ht] at hown
        cases hown
        exact hj rfl
      refine (hi.hart j).congr ?_ fun i hti => ⟨rfl, ?_⟩
      · rw [hharts j hj]
        exact ⟨rfl, rfl, rfl, rfl⟩
      · rw [hother i (hne i hti)]
        exact ⟨rfl, .inl rfl⟩
  · by_cases hut : u = t
    · exact ⟨h, by rw [hut, hhart]⟩
    · rw [hother u hut] at hu
      obtain ⟨j, hj⟩ := hi.idleOf u hu
      have hjh : j ≠ h := by
        rintro rfl
        rw [hnone] at hj
        cases hj
      exact ⟨j, by rw [hharts j hjh]; exact hj⟩
  · by_cases hut : u = t
    · rw [hut, hself]
      exact ⟨rfl, rfl⟩
    · rw [hother u hut]
      exact ⟨rfl, rfl⟩

/-! ### The phases -/

/-- The invariant while the harts are initialized: there are idle tasks only. -/
structure Booting (legal : Prop) (k : Kernel) (loc : Loc) : Prop where
  inv : Inv legal k loc
  unlocked : ∀ l, k.locks l = none
  own : ∀ t p, loc t = some p → ∃ h, p = .own h ∧ (k.harts h).idleTask = some t
  current : ∀ h, (k.harts h).currentTask = none
  slice : ∀ h, (k.harts h).idleTask ≠ none → (k.harts h).timesliceTicks = kTaskTimesliceTicks

theorem Zeroed.booting (hz : Zeroed k) : Booting legal k fun _ => none :=
  ⟨hz.inv, hz.unlocked, nofun, fun h => (hz.harts h).2.1, fun h hh => absurd (hz.harts h).1 hh⟩

/-- A kernel-parented task is created, or nothing happens. -/
theorem Inv.createRoot (hi : Inv legal k loc) {g owner : HartIndex}
    (hbound : (k.harts owner).scheduler = true) (entry argument : Word) (space : AddressSpace)
    (idle withStack : Bool) :
    k.createTaskLocked g entry argument space owner true idle withStack = .ok none k ∨
    ∃ t r bases, loc t = none ∧
      k.createTaskLocked g entry argument space owner true idle withStack =
        .ok (some t) ((k.born t r (newTask k g t r entry argument space owner idle withStack)
          (newTracker k t entry) bases).adopted r none) ∧
      ∀ h, Inv legal ((k.born t r (newTask k g t r entry argument space owner false withStack)
          (newTracker k t entry) bases).adopted r none)
        (update loc t (some (.own h))) := by
  obtain ⟨child, k', hexec, hcase⟩ := createTaskLocked_cases hi.tracker
    (fun t ht => hi.zero t (hi.free ht)) (fun t => hi.used_of_live)
    (fun hh : true = false => nomatch hh) entry argument space owner idle withStack
  cases hcase with
  | refused => exact .inl hexec
  | @created t r bases htu hru =>
    refine .inr ⟨t, r, bases, hi.free htu, hexec, fun h => ?_⟩
    have hcase : CreateCase k g entry argument space owner false withStack (k.creator g true)
      (some t) ((k.born t r (newTask k g t r entry argument space owner false withStack)
        (newTracker k t entry) bases).adopted r (k.creator g true)) := .created htu hru
    exact hi.created hcase hbound (hcase.inv hi.tracker (fun t => hi.used_of_live)
      fun hh : true = false => nomatch hh) (fun hl => hcase.noCrash (hi.noCrash hl)) h

/-- A write of the record of a new task. -/
theorem adopted_born_modifyTask (r : TrackerRef) (task : Task) (tracker : TaskTracker)
    (bases : List Word) (q : Option TrackerRef) (f : Task → Task) :
    ((k.born t r task tracker bases).adopted r q).modifyTask t f =
      (k.born t r (f task) tracker bases).adopted r q := by
  have hborn : (k.born t r task tracker bases).modifyTask t f =
      k.born t r (f task) tracker bases := by
    simp [modifyTask, born]
  exact congrArg (fun k => k.adopted r q) hborn

theorem initializeHart_cases (hb : Booting legal k loc) (hnone : (k.harts h).idleTask = none) :
    (∃ k', k.initializeHart h = .ok false k') ∨
    ∃ k' loc', k.initializeHart h = .ok true k' ∧ Booting legal k' loc' ∧
      (k'.harts h).idleTask ≠ none ∧
      ∀ j, j ≠ h → (k'.harts j).idleTask = (k.harts j).idleTask := by
  have hi := hb.inv.bindHart hnone
  have hself : (k.bindHart h).harts h = _ := update_self ..
  have hharts : ∀ j, j ≠ h → (k.bindHart h).harts j = k.harts j :=
    fun j hj => update_of_ne hj ..
  have hbound : ((k.bindHart h).harts h).scheduler = true := by rw [hself]
  rw [initializeHart]
  rcases hi.createRoot (g := bootHart) hbound (k.bindHart h).platform.userIdleTask 0
      (k.bindHart h).platform.bootAddressSpace true false with
    hno | ⟨t, r, bases, hfree, hexec, hinv⟩
  · simp only [hno, Outcome.andThen_ok]
    exact .inl ⟨_, rfl⟩
  simp only [hexec, Outcome.andThen_ok]
  -- The task as it would be created without the mark, then marked.
  set k1 := ((k.bindHart h).born t r (newTask (k.bindHart h) bootHart t r
    (k.bindHart h).platform.userIdleTask 0 (k.bindHart h).platform.bootAddressSpace h false false)
    (newTracker (k.bindHart h) t (k.bindHart h).platform.userIdleTask) bases).adopted r none
    with hk1
  have hstate : (k1.tasks t).state = .ready := by
    rw [show k1.tasks t = _ from update_self ..]
    rfl
  have hidle : (k1.harts h).idleTask = none := by
    rw [show k1.harts h = _ from hself]
    exact hnone
  have hinv' := (hinv h).withIdle (update_self ..) hstate
    (show (k1.harts h).scheduler = true from hbound) hidle
  refine .inr ⟨k1.withIdle h t, update loc t (some (.own h)), ?_, ⟨hinv', hb.unlocked,
    fun u p hp => ?_, fun j => ?_, fun j => ?_⟩, ?_, fun j hj => ?_⟩
  · rw [withIdle, hk1, adopted_born_modifyTask]
    rfl
  · by_cases hut : u = t
    · subst hut
      rw [update_self] at hp
      cases hp
      exact ⟨h, rfl, by rw [show (k1.withIdle h u).harts h = _ from update_self ..]⟩
    · rw [update_of_ne hut] at hp
      obtain ⟨j, rfl, hj⟩ := hb.own u p hp
      have hjh : j ≠ h := by
        rintro rfl
        rw [hnone] at hj
        cases hj
      refine ⟨j, rfl, ?_⟩
      rw [show (k1.withIdle h t).harts j = _ from update_of_ne hjh ..,
        show (k1.modifyTask t _).harts j = _ from hharts j hjh]
      exact hj
  · by_cases hj : j = h
    · rw [hj, show (k1.withIdle h t).harts h = _ from update_self ..]
    · rw [show (k1.withIdle h t).harts j = _ from update_of_ne hj ..,
        show (k1.modifyTask t _).harts j = _ from hharts j hj]
      exact hb.current j
  · by_cases hj : j = h
    · rw [hj, show (k1.withIdle h t).harts h = _ from update_self ..,
        show (k1.modifyTask t _).harts h = _ from hself]
      exact fun _ => rfl
    · rw [show (k1.withIdle h t).harts j = _ from update_of_ne hj ..,
        show (k1.modifyTask t _).harts j = _ from hharts j hj]
      exact hb.slice j
  · rw [show (k1.withIdle h t).harts h = _ from update_self ..]
    exact Option.some_ne_none t
  · rw [show (k1.withIdle h t).harts j = _ from update_of_ne hj ..,
      show (k1.modifyTask t _).harts j = _ from hharts j hj]

theorem initializeHarts_booting {l : List HartIndex} (hb : Booting legal k loc) (hl : l.Nodup)
    (hnone : ∀ h ∈ l, (k.harts h).idleTask = none)
    (hr : initializeHarts l k = .ok true k') :
    ∃ loc', Booting legal k' loc' ∧ (∀ h ∈ l, (k'.harts h).idleTask ≠ none) ∧
      ∀ h, h ∉ l → (k'.harts h).idleTask = (k.harts h).idleTask := by
  induction l generalizing k loc with
  | nil =>
    cases hr
    exact ⟨loc, hb, nofun, fun _ _ => rfl⟩
  | cons h rest ih =>
    obtain ⟨hnot, hrest⟩ := List.nodup_cons.mp hl
    rw [initializeHarts] at hr
    rcases initializeHart_cases hb (hnone h List.mem_cons_self) with
      ⟨k1, hno⟩ | ⟨k1, loc1, hyes, hb1, hset, hsame⟩
    · rw [hno] at hr
      cases hr
    · rw [hyes, Outcome.andThen_ok, if_pos rfl] at hr
      have hne : ∀ j ∈ rest, j ≠ h := fun j hj hjh => hnot (hjh ▸ hj)
      obtain ⟨loc', hb', hall, hkeep⟩ := ih hb1 hrest (fun j hj => by
        rw [hsame j (hne j hj)]
        exact hnone j (List.mem_cons_of_mem h hj)) hr
      refine ⟨loc', hb', fun j hj => ?_, fun j hj => ?_⟩
      · rcases List.mem_cons.mp hj with rfl | hj
        · rw [hkeep j hnot]
          exact hset
        · exact hall j hj
      · rw [List.mem_cons, not_or] at hj
        rw [hkeep j hj.2, hsame j hj.1]

theorem mapTaskStacks_frame (l : List TaskRef) (k : Kernel) :
    ∃ bases, (mapTaskStacks l k).2 = { k with mappedStackBases := bases } := by
  induction l generalizing k with
  | nil => exact ⟨k.mappedStackBases, rfl⟩
  | cons t rest ih =>
    rw [mapTaskStacks]
    rcases mapBootTaskStack_cases k (k.platform.taskStacks t) kTaskStackSize with
      hno | ⟨bases, hyes⟩
    · rw [hno]
      exact ⟨k.mappedStackBases, rfl⟩
    · rw [hyes]
      obtain ⟨bases', hbases'⟩ := ih { k with mappedStackBases := bases }
      exact ⟨bases', hbases'⟩

/-- The kernel once the managers are initialized. -/
theorem initializeTaskManager_zeroed (hz : Zeroed k)
    (hr : k.initializeTaskManager = (true, k')) : Zeroed k' := by
  rw [initializeTaskManager] at hr
  split at hr
  · cases hr
    exact hz
  · obtain ⟨bases, hbases⟩ := mapTaskStacks_frame (List.finRange kMaxTasks) { k with
      tasks := fun _ => {}, trackers := fun _ => {}
      taskSlotsUsed := fun _ => false, trackerSlotsUsed := fun _ => false }
    simp only at hr
    split at hr
    · cases hr
    · rename_i k1 heq
      rw [heq] at hbases
      cases hr
      subst hbases
      exact ⟨fun _ => rfl, fun _ => rfl, fun _ => rfl, fun _ => rfl, rfl, hz.run, hz.delay,
        hz.endpoints, hz.slotAllocated, hz.unlocked, hz.harts⟩

theorem cpuBootstrap_booting {count : ℕ} (hz : Zeroed k)
    (hr : k.cpuBootstrap count = .ok true k') :
    ∃ loc, Booting legal k' loc ∧ (k'.harts bootHart).idleTask ≠ none := by
  rw [cpuBootstrap] at hr
  split at hr
  · cases hr
  · rename_i k1 heq
    have hz1 : Zeroed k1 := by
      refine initializeTaskManager_zeroed ?_ heq
      exact ⟨hz.tasks, hz.trackers, hz.taskSlots, hz.trackerSlots, hz.root, fun _ => rfl,
        fun _ => rfl, hz.endpoints, hz.slotAllocated, hz.unlocked, hz.harts⟩
    rw [initializeCpus] at hr
    split at hr
    · cases hr
    · rename_i hcount
      obtain ⟨loc, hb, hall, -⟩ := initializeHarts_booting hz1.booting
        ((List.nodup_finRange _).sublist (List.take_sublist ..))
        (fun h _ => (hz1.harts h).1) hr
      refine ⟨loc, hb, hall _ ?_⟩
      -- The boot hart is the first of the list.
      cases count with
      | zero => simp at hcount
      | succ n => exact List.mem_cons_self

/-- The other harts hold at most their idle task, also once the initial task is there. -/
theorem Booting.atRest (hb : Booting legal k loc) {j : HartIndex} (hj : j ≠ h)
    (hharts : k'.harts = k.harts) (hlocks : k'.locks = k.locks) :
    AtRest False j k' (update loc t (some (.own h))) := by
  have hplace : ∀ u p, update loc t (some (.own h)) u = some p → p ≠ .own h →
      ∃ j, p = .own j ∧ (k.harts j).idleTask = some u := by
    intro u p hu hp
    by_cases hut : u = t
    · rw [hut, update_self] at hu
      exact absurd (Option.some.inj hu).symm hp
    · rw [update_of_ne hut] at hu
      exact hb.own u p hu
  right
  cases hidle : (k.harts j).idleTask with
  | none =>
    rw [Waiting, Absent, hharts]
    refine .inl ⟨⟨hb.current j, hidle⟩, fun u hu => ?_⟩
    obtain ⟨j', hj', hti⟩ := hplace u _ hu fun heq => hj (Place.own.inj heq)
    cases hj'
    rw [hidle] at hti
    cases hti
  | some i =>
    refine .inr ⟨i, ?_, ?_, ?_, fun _ _ hx => (Option.some_ne_none _ hx.symm).elim,
      fun u hu _ => ?_, fun u => ?_, fun l => ?_, False.elim, trivial⟩
    · rw [hharts]
      exact ((hb.inv.hart j).idle i hidle).1
    · rw [hharts]
      exact hidle
    · rw [hharts]
      exact hb.current j
    · obtain ⟨j', hj', hti⟩ := hplace u _ hu fun heq => hj (Place.own.inj heq)
      cases hj'
      rw [hidle] at hti
      exact (Option.some.inj hti).symm
    · refine iff_of_false (fun hu => ?_) (by simp)
      obtain ⟨j', hj', -⟩ := hplace u _ hu Place.noConfusion
      cases hj'
    · simp [hlocks, hb.unlocked l]

/-- The initial task becomes current and the boot hart enters it. -/
theorem outline_enterInit {i t : TaskRef} {x : Task} (hready : x.state = .ready) (clock : Clock) :
    Outline True legal h (do perform (.setCurrentTask t); dispatchTask h clock)
      (Holds True h ((empty i none).hold t x)) fun _ => User True h := by
  refine (outline_setCurrentTask (S := (empty i none).hold t x)
    (.inl ⟨x, hold_self .., by rw [hready]; exact TaskState.noConfusion⟩)).bind
      fun _ => .exists fun y => .pure fun hs => .pure fun hc => ?_
  rw [Holding.hold, update_idem]
  refine (outline_restore.bind fun _ => outline_arm clock).pre fun k loc _ hat => ?_
  exact ⟨i, t, y, ⟨hs, hc⟩, hat⟩

/-- The boot hart with the initial task in its hands. -/
theorem Booting.initTask {i t : TaskRef} (hb : Booting legal k loc)
    (hidle : (k.harts h).idleTask = some i)
    (hharts : k'.harts = k.harts) (hlocks : k'.locks = k.locks) :
    Holds True h ((empty i none).hold t (k'.tasks t)) k'
      (update loc t (some (.own h))) := by
  refine ⟨?_, ?_, ?_, fun u y hy => ?_, fun u hu hn => ?_, fun u => ?_, fun l => ?_,
    fun _ l j hl => ?_,
    trivial⟩
  · rw [hharts]
    exact ((hb.inv.hart h).idle i hidle).1
  · rw [hharts]
    exact hidle
  · rw [hharts]
    exact hb.current h
  · by_cases hut : u = t
    · rw [hut, hold_self] at hy
      rw [hut, update_self]
      exact ⟨rfl, Option.some.inj hy⟩
    · rw [hold_of_ne hut] at hy
      cases hy
  · have hut : u ≠ t := by
      rintro rfl
      rw [hold_self] at hn
      cases hn
    rw [update_of_ne hut] at hu
    obtain ⟨j, hj, hti⟩ := hb.own u _ hu
    cases hj
    rw [hidle] at hti
    exact (Option.some.inj hti).symm
  · refine iff_of_false (fun hu => ?_) nofun
    by_cases hut : u = t
    · rw [hut, update_self] at hu
      cases hu
    · rw [update_of_ne hut] at hu
      obtain ⟨j, hj, -⟩ := hb.own u _ hu
      cases hj
  · simp [hlocks, hb.unlocked l]
  · rw [hlocks, hb.unlocked l] at hl
    cases hl

/-- **The bootstrap ends with a program of the boot hart**, which enters the initial task with a
full slice; after it the state is quiescent. -/
theorem bootstrap_enters {platform : Platform} {count : ℕ} {clock : Clock}
    (hr : bootstrap platform count clock = .ok () k') :
    ∃ k1 t, (k1.harts bootHart).timesliceTicks = kTaskTimesliceTicks ∧
      (do perform (.setCurrentTask t); dispatchTask bootHart clock : KProc Unit).run
        (exec bootHart) k1 = .ok () k' ∧ ∃ loc, Quiescent legal k' loc := by
  have hz : Zeroed { reset platform with vmmInitialized := true } :=
    ⟨fun _ => rfl, fun _ => rfl, fun _ => rfl, fun _ => rfl, rfl, fun _ => rfl, fun _ => rfl, rfl,
      rfl, fun _ => rfl, fun _ => ⟨rfl, rfl, rfl⟩⟩
  rw [bootstrap] at hr
  cases hcpu : { reset platform with vmmInitialized := true }.cpuBootstrap count with
  | error e k =>
    rw [hcpu] at hr
    cases hr
  | ok done k =>
    rw [hcpu, Outcome.andThen_ok] at hr
    cases done with
    | false => cases hr
    | true =>
      obtain ⟨loc, hb, hsome⟩ : ∃ loc, Booting legal k loc ∧ _ := cpuBootstrap_booting hz hcpu
      obtain ⟨i, hidle⟩ := Option.ne_none_iff_exists'.mp hsome
      have hbound := ((hb.inv.hart bootHart).idle i hidle).1
      rw [Bool.not_true, if_neg Bool.false_ne_true, initTaskBootstrap] at hr
      rcases hb.inv.createRoot (g := bootHart) hbound k.platform.userInitTask 0
          k.platform.bootAddressSpace false true with
        hno | ⟨t, r, bases, hfree, hexec, hinv⟩
      · rw [hno] at hr
        cases hr
      · set k1 := (k.born t r (newTask k bootHart t r k.platform.userInitTask 0
          k.platform.bootAddressSpace bootHart false true)
          (newTracker k t k.platform.userInitTask) bases).adopted r none
        have hat : Holds True _ _ k1 _ := hb.initTask (t := t) hidle rfl rfl
        have hready : (k1.tasks t).state = .ready := by
          rw [show k1.tasks t = _ from update_self ..]
          rfl
        rw [hexec] at hr
        -- What is left of the bootstrap is a program of the boot hart.
        have hrun : (do perform (.setCurrentTask t); dispatchTask bootHart clock :
            KProc Unit).run (exec bootHart) k1 = .ok () k' := by
          cases hset : k1.setCurrentTask bootHart t with
          | error e k2 =>
            simp only [Outcome.andThen_ok, hset] at hr
            cases hr
          | ok _ k2 =>
            simp only [Outcome.andThen_ok, hset] at hr
            rw [run_perform_ok (show exec bootHart (.setCurrentTask t) k1 = .ok () k2
              from hset)]
            exact hr
        have hq := Quiescent.of_outline (outline_enterInit hready clock) (hinv bootHart)
          hat fun j hj => ?_
        · rw [hrun] at hq
          exact ⟨k1, t, hb.slice _ hsome, hrun, hq⟩
        · exact hb.atRest hj rfl rfl

theorem bootstrap_quiescent {platform : Platform} {count : ℕ} {clock : Clock}
    (hr : bootstrap platform count clock = .ok () k') : ∃ loc, Quiescent legal k' loc := by
  obtain ⟨-, -, -, -, hq⟩ := bootstrap_enters hr
  exact hq

end Jixia
