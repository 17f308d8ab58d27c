/-
What the sections of the task manager do, in terms of what the hart holds.

These sections change the tracker table and move tasks between a hart, a join and a
free slot, never between queues.  `Inv.retable` is what has to be checked of the tasks
they touch (`Replaced`).
-/
import Jixia.EndpointSpecs

namespace Jixia

open Machine Proc Function Kernel

variable {solo legal : Prop} {h : HartIndex} {S : Holding} {F G : Kernel → Loc → Prop}
  {t u : TaskRef} {x : Task} {k k' : Kernel} {loc loc' : Loc}

/-! ### Changing the task and the tracker table -/

/-- Only the tables of the task manager change. -/
def OnlyTasks (k k' : Kernel) : Prop :=
  k' = { k with
    tasks := k'.tasks, taskSlotsUsed := k'.taskSlotsUsed, trackers := k'.trackers
    trackerSlotsUsed := k'.trackerSlotsUsed, rootTasks := k'.rootTasks, nextTid := k'.nextTid
    mappedStackBases := k'.mappedStackBases }

theorem SameOutside.onlyTasks (hs : SameOutside k k') : OnlyTasks k k' := by
  rw [OnlyTasks, hs]

/-- The record says that the task is in no queue. -/
def Unlinked (task : Task) : Prop :=
  task.queued = false ∧ task.delay.queued = false ∧ task.messageWait.queued = false

/-- The task is in no queue before and after, and its record is the right one for its
new place. -/
structure Replaced (k k' : Kernel) (loc loc' : Loc) (u : TaskRef) : Prop where
  before : Unqueued loc u
  after : Unqueued loc' u
  links : SameLinks (k.tasks u) (k'.tasks u) ∨ Unlinked (k.tasks u) ∧ Unlinked (k'.tasks u)
  idle : (k.tasks u).idle = false ∧ (k'.tasks u).idle = false
  used : k'.taskSlotsUsed u = true ↔ loc' u ≠ none
  zero : loc' u = none → k'.tasks u = {}
  placed : ∀ p, loc' u = some p → Placed k' (k'.tasks u) p

/-- The task is as it was. -/
def Untouched (k k' : Kernel) (loc loc' : Loc) (u : TaskRef) : Prop :=
  loc' u = loc u ∧ k'.tasks u = k.tasks u ∧ k'.taskSlotsUsed u = k.taskSlotsUsed u

/-- Queues do not notice moves between other places. -/
theorem QueuesOk.relocate (hq : QueuesOk k loc)
    (hlinks : ∀ t, SameLinks (k.tasks t) (k'.tasks t) ∨
      Unlinked (k.tasks t) ∧ Unlinked (k'.tasks t))
    (hrun : k'.runQueues = k.runQueues) (hdelay : k'.delayQueues = k.delayQueues)
    (hep : k'.endpoints = k.endpoints) (hal : k'.slotAllocated = k.slotAllocated)
    (hloc : ∀ t, loc' t = loc t ∨ (Unqueued loc t ∧ Unqueued loc' t)) : QueuesOk k' loc' := by
  obtain ⟨⟨r, hr, hrm⟩, ⟨d, hd, hdm⟩, ⟨w, hw, hwm⟩⟩ := hq
  -- A task in a list keeps its links; the mark of a task in no list is the same.
  have hmark : ∀ t, (k'.tasks t).queued = (k.tasks t).queued ∧
      (k'.tasks t).delay.queued = (k.tasks t).delay.queued ∧
      (k'.tasks t).messageWait.queued = (k.tasks t).messageWait.queued := by
    intro t
    rcases hlinks t with ⟨h1, h2, h3, -, -⟩ | ⟨⟨h1, h2, h3⟩, ⟨h1', h2', h3'⟩⟩
    · rw [h1, h2, h3]
      exact ⟨rfl, rfl, rfl⟩
    · rw [h1, h2, h3, h1', h2', h3']
      exact ⟨rfl, rfl, rfl⟩
  have hmem : ∀ {t}, ¬ Unlinked (k.tasks t) → SameLinks (k.tasks t) (k'.tasks t) :=
    fun hn => (hlinks _).resolve_right fun hh => hn hh.1
  have hrun' : ∀ q, ∀ t ∈ r q, SameLinks (k.tasks t) (k'.tasks t) := fun q t ht => hmem fun hn =>
    absurd ((hr.queued t).mpr ⟨q, ht⟩) (by simp [hn.1])
  have hdelay' : ∀ q, ∀ t ∈ d q, SameLinks (k.tasks t) (k'.tasks t) := fun q t ht => hmem fun hn =>
    absurd ((hd.queued t).mpr ⟨q, ht⟩) (by simp [hn.2.1])
  have hwait' : ∀ e, ∀ t ∈ w e, SameLinks (k.tasks t) (k'.tasks t) := fun e t ht => hmem fun hn =>
    absurd ((hw.lists.queued t).mpr ⟨e, ht⟩) (by simp [hn.2.2])
  refine ⟨⟨r, ⟨?_, fun q => by rw [hrun]; exact hr.size q⟩, fun q t => ?_⟩,
    ⟨d, ⟨?_, fun q => ?_⟩, fun q t => ?_⟩,
    ⟨w, ⟨⟨?_, fun e => by rw [hep]; exact hw.lists.count e⟩, fun e => ?_, fun _ hn => ?_⟩,
      fun e t => ?_⟩⟩
  · refine hr.family.congr (fun q t ht => (hrun' q t ht).2.2.2.2)
      (fun q t ht => (hrun' q t ht).2.2.2.1) (fun t => ?_) (fun q => by rw [hrun])
      fun q => by rw [hrun]
    rw [(hmark t).1]
  · rw [hrm]
    rcases hloc t with heq | ⟨hb, ha⟩
    · rw [heq]
    · exact iff_of_false (hb.1 q) (ha.1 q)
  · refine hd.family.congr (fun q t ht => ?_) (fun q t ht => ?_) (fun t => ?_)
      (fun q => by rw [hdelay]) fun q => rfl
    · exact congrArg DelayNode.next (hdelay' q t ht).1
    · exact congrArg DelayNode.previous (hdelay' q t ht).1
    · rw [(hmark t).2.1]
  · refine (hd.sorted q).imp_of_mem fun {a b} ha hb hab => ?_
    rw [deadline, deadline, (hdelay' q a ha).1, (hdelay' q b hb).1]
    exact hab
  · rw [hdm]
    rcases hloc t with heq | ⟨hb, ha⟩
    · rw [heq]
    · exact iff_of_false (hb.2.1 q) (ha.2.1 q)
  · refine hw.lists.family.congr (fun e t ht => ?_) (fun e t ht => ?_) (fun t => ?_)
      (fun e => by rw [hep]) fun e => by rw [hep]
    · exact congrArg MessageWaitNode.next (hwait' e t ht).2.1
    · exact congrArg MessageWaitNode.previous (hwait' e t ht).2.1
    · rw [(hmark t).2.2]
  · rw [hep, hal]
    exact hw.slots e
  · exact absurd trivial hn
  · rw [hwm]
    rcases hloc t with heq | ⟨hb, ha⟩
    · rw [heq]
    · exact iff_of_false (hb.2.2 e) (ha.2.2 e)

/-- **The tables of the task manager change** and the invariant stays. -/
theorem Inv.retable (hi : Inv legal k loc) (hout : OnlyTasks k k')
    (hu : ∀ u, Untouched k k' loc loc' u ∨ Replaced k k' loc loc' u)
    (htr : TrackerInv k' (fun _ => False) (Live loc') fun t => loc' t = some .join)
    (hcrash : legal → NoCrash k') : Inv legal k' loc' := by
  have hharts : k'.harts = k.harts := by rw [hout]
  have hep : k'.endpoints = k.endpoints := by rw [hout]
  refine ⟨fun u => ?_, fun u hn => ?_, hi.queues.relocate (fun u => ?_) (by rw [hout])
    (by rw [hout]) hep (by rw [hout]) fun u => ?_, fun hl u e hw => ?_, fun u p hp => ?_,
    fun j => ?_, fun u hid => ?_, htr, hcrash⟩
  · rcases hu u with ⟨hloc, -, hslot⟩ | hr
    · rw [hloc, hslot]
      exact hi.used u
    · exact hr.used
  · rcases hu u with ⟨hloc, htask, -⟩ | hr
    · rw [htask]
      exact hi.zero u (hloc ▸ hn)
    · exact hr.zero hn
  · rcases hu u with ⟨-, htask, -⟩ | hr
    · rw [htask]
      exact .inl ⟨rfl, rfl, rfl, rfl, rfl⟩
    · exact hr.links
  · rcases hu u with ⟨hloc, -⟩ | hr
    · exact .inl hloc
    · exact .inr ⟨hr.before, hr.after⟩
  · rw [hep]
    rcases hu u with ⟨hloc, -⟩ | hr
    · exact hi.quiet (by rwa [hout] at hl) u e (hloc ▸ hw)
    · exact absurd hw (hr.after.2.2 e)
  · rcases hu u with ⟨hloc, htask, -⟩ | hr
    · refine (hi.placed u p (hloc ▸ hp)).congr (fun j => ?_) (fun e _ => ?_) (by rw [htask])
      · rw [hharts]
        exact ⟨rfl, rfl, rfl, rfl⟩
      · rw [hep]
        exact ⟨rfl, rfl⟩
    · exact hr.placed p hp
  · refine (hi.hart j).congr (by rw [hharts]; exact ⟨rfl, rfl, rfl, rfl⟩) fun i hji => ?_
    rcases hu i with ⟨hloc, htask, -⟩ | hr
    · rw [htask]
      exact ⟨hloc, rfl, .inl rfl⟩
    · have hii := ((hi.hart j).idle i hji).2.2.1
      rw [hr.idle.1] at hii
      cases hii
  · rw [hharts]
    rcases hu u with ⟨-, htask, -⟩ | hr
    · exact hi.idleOf u (htask ▸ hid)
    · rw [hr.idle.2] at hid
      cases hid

/-- The promise of such a change. -/
theorem guar_of_retable (hout : OnlyTasks k k')
    (hu : ∀ u, Untouched k k' loc loc' u ∨
      (Entitled h k (loc u) ∧ Entitled h k (loc' u) ∧ Unqueued loc' u)) :
    Guar h k loc k' loc' := by
  refine guar_of_moves ⟨fun u j hj hju => ?_, fun _ _ => by rw [hout], fun _ _ _ => by rw [hout],
    fun _ _ => by rw [hout], fun _ => ⟨by rw [hout], fun _ => by rw [hout]; exact ⟨rfl, rfl⟩⟩⟩
    fun u => ?_
  · rcases hu u with ⟨-, htask, -⟩ | ⟨hold, -, -⟩
    · exact htask
    · rcases hju with hju | hju <;> rw [hju] at hold <;> exact absurd hold hj
  · rcases hu u with ⟨hloc, -⟩ | ⟨hold, hnew, hun⟩
    · exact .inl hloc
    · exact .inr ⟨hold, hnew, fun e he => absurd he (hun.2.2 e)⟩

/-- A task that exists comes to another place outside of the queues. -/
theorem Inv.replaced {p p' : Place} (hi : Inv legal k loc) (hout : SameOutside k k')
    (hold : loc u = some p) (hnew : loc' u = some p') (hb : Unqueued loc u) (ha : Unqueued loc' u)
    (hlinks : SameLinks (k.tasks u) (k'.tasks u))
    (hkeep : (k'.tasks u).cpu = (k.tasks u).cpu ∧
      (k'.tasks u).affinityPinned = (k.tasks u).affinityPinned ∧
      (k'.tasks u).idle = (k.tasks u).idle)
    (hidle : (k.tasks u).idle = false) (hallow : p'.Allows k' (k'.tasks u)) :
    Replaced k k' loc loc' u := by
  obtain ⟨hcpu, hpin, hid⟩ := hkeep
  refine ⟨hb, ha, .inl hlinks, ⟨hidle, hid.trans hidle⟩, ?_, fun hn => ?_, fun q hq => ?_⟩
  · rw [show k'.taskSlotsUsed = k.taskSlotsUsed by rw [hout], hi.used, hold, hnew]
    simp
  · rw [hnew] at hn
    cases hn
  · rw [hnew] at hq
    cases hq
    have hp := hi.placed u p hold
    refine ⟨?_, hpin.trans hp.pinned, fun _ => hid.trans hidle, hallow⟩
    rw [hcpu, show k'.harts = k.harts by rw [hout]]
    exact hp.cpu

/-- A task outside of the joins is moved outside of them. -/
theorem join_outside {p : Option Place} (ht : loc t ≠ some .join) (hp : p ≠ some .join)
    (u : TaskRef) : update loc t p u = some .join ↔ loc u = some .join := by
  by_cases hu : u = t
  · rw [hu, update_self]
    exact iff_of_false hp ht
  · rw [update_of_ne hu]

/-! ### create_task -/

theorem live_created (loc : Loc) (t u : TaskRef) (h : HartIndex) :
    Live (update loc t (some (.own h))) u ↔ Live loc u ∨ some t = some u := by
  by_cases hu : u = t
  · rw [hu]
    exact iff_of_true (Inv.live_of_own (update_self ..)) (.inr rfl)
  · rw [Live, update_of_ne hu, Live, Option.some_inj]
    exact (or_iff_left (Ne.symm hu)).symm

theorem Inv.used_of_live (hi : Inv legal k loc) (hl : Live loc t) : k.taskSlotsUsed t = true := by
  obtain ⟨p, hp, -⟩ := hl
  rw [hi.used, hp]
  exact Option.some_ne_none p

theorem Inv.free (hi : Inv legal k loc) (ht : k.taskSlotsUsed t = false) : loc t = none := by
  rw [← Bool.not_eq_true, hi.used, ne_eq, not_not] at ht
  exact ht

/-- A task is born in the hands of a hart. -/
theorem Inv.created {g owner : HartIndex} {entry argument : Word} {space : AddressSpace}
    {withStack : Bool} {q : Option TrackerRef} (hi : Inv legal k loc)
    (hc : CreateCase k g entry argument space owner false withStack q (some t) k')
    (hbound : (k.harts owner).scheduler = true)
    (htr : TrackerInv k' (fun _ => False) (fun u => Live loc u ∨ some t = some u)
      fun u => loc u = some .join) (hcrash : legal → NoCrash k') (h : HartIndex) :
    Inv legal k' (update loc t (some (.own h))) := by
  cases hc with
  | @created t r bases htu hru =>
    have hloc := hi.free htu
    have hempty := hi.zero t hloc
    set task := newTask k g t r entry argument space owner false withStack
    set k' := (k.born t r task (newTracker k t entry) bases).adopted r q with hk'
    have hself : k'.tasks t = task := update_self ..
    refine hi.retable rfl (fun u => ?_) ?_ hcrash
    · by_cases hu : u = t
      · rw [hu]
        refine .inr ⟨by simp [Unqueued, hloc], by simp [Unqueued], ?_, ?_, ?_, fun hn => ?_,
          fun p hp => ?_⟩
        · rw [hself, hempty]
          exact .inl ⟨rfl, rfl, rfl, rfl, rfl⟩
        · rw [hself, hempty]
          exact ⟨rfl, rfl⟩
        · rw [update_self, show k'.taskSlotsUsed t = true from update_self ..]
          simp
        · rw [update_self] at hn
          cases hn
        · rw [update_self] at hp
          cases hp
          rw [hself]
          exact ⟨⟨owner, rfl, hbound⟩, rfl, Bool.noConfusion, trivial⟩
      · exact .inl ⟨update_of_ne hu .., update_of_ne hu ..,
          update_of_ne hu ..⟩
    · exact htr.congr rfl rfl rfl (fun _ _ => ⟨rfl, rfl⟩) (fun u => live_created loc t u h)
        (join_outside (by simp [hloc]) (by simp))

/-- A new task belongs to the hart that created it. -/
theorem outline_createTaskLocked {c : TaskRef} {owner : HartIndex} (hc : S.current = some c)
    (hx : S.tasks c = some x) (hcpu : x.cpu = some owner) (entry argument : Word)
    (space : AddressSpace) (withStack : Bool) :
    Outline solo legal h
      (perform (.createTaskLocked entry argument space owner false false withStack))
      (Holds solo h S) fun b k loc => (b = none ∧ Holds solo h S k loc) ∨
        ∃ t y, (b = some (t, y.tid) ∧ y.state = .ready ∧ y.idle = false ∧ S.tasks t = none) ∧
          Holds solo h (S.hold t y) k loc := by
  refine outline_perform (fun b => .or ((Contract.Stable.const _).and (At.stable S _))
    (.exists fun t => .exists fun y => (Contract.Stable.const _).and
      (At.stable (S.hold t y) _))) fun k loc hi hat => ⟨trivial, ?_⟩
  obtain ⟨hown, hrec⟩ := hat.owned c x hx
  have hfree : ∀ t, k.taskSlotsUsed t = false → loc t = none := fun t => hi.free
  have hcur : false = false → ∀ t, (k.harts h).currentTask = some t → Live loc t := by
    intro _ t ht
    rw [hat.current, hc] at ht
    cases ht
    exact Inv.live_of_own hown
  obtain ⟨child, k', hexec, hcase⟩ := createTaskLocked_cases hi.tracker
    (fun t ht => hi.zero t (hfree t ht)) (fun t => hi.used_of_live) hcur entry argument space owner
    false withStack
  have htr := hcase.inv hi.tracker (fun t => hi.used_of_live) hcur
  have hcrash := fun hl => hcase.noCrash (hi.noCrash hl)
  have hx' : exec h (.createTaskLocked entry argument space owner false false withStack) k =
      .ok (child.map fun t => (t, (k'.tasks t).tid)) k' := by
    show withTid _ = _
    rw [hexec]
    rfl
  refine ⟨_, k', hx', ?_⟩
  cases hcase with
  | refused =>
    exact ⟨hi, guar_of_private (.refl h k loc), .inl ⟨rfl, hat⟩⟩
  | @created t r bases htu hru =>
    have hloc := hfree t htu
    set task := newTask k h t r entry argument space owner false withStack
    set k' := (k.born t r task (newTracker k t entry) bases).adopted r (k.creator h false) with hk'
    have hself : k'.tasks t = task := update_self ..
    have hbound : (k.harts owner).scheduler = true := by
      obtain ⟨j, hj, hb⟩ := (hi.placed c _ hown).cpu
      rw [hrec, hcpu] at hj
      cases hj
      exact hb
    have htouch : Touches h k k' loc t := ⟨rfl, rfl, fun u hu _ => update_of_ne hu ..⟩
    have hkeep := hat.take (G := fun _ _ => True) htouch (by simp [hloc]) trivial
    rw [hself] at hkeep
    refine ⟨hi.created (.created htu hru) hbound htr hcrash h, guar_of_retable rfl fun u => ?_,
      .inr ⟨t, task, ⟨?_, rfl, rfl, hat.not_held (by simp [hloc])⟩, hkeep⟩⟩
    · by_cases hu : u = t
      · rw [hu, hloc]
        refine .inr ⟨trivial, ?_, ?_⟩
        · exact show Entitled h k (update loc t _ t) by rw [update_self]; rfl
        · exact show Unqueued (update loc t (some (.own h))) t by simp [Unqueued]
      · exact .inl ⟨update_of_ne hu .., update_of_ne hu ..,
          update_of_ne hu ..⟩
    · rw [Option.map_some, hself]

/-! ### end_task -/

/-- Whatever stops `end_task` is a crash. -/
theorem EndCase.crashPark {r : TrackerRef} {returnValue : Word} {status : ExitStatus} {e : Halt}
    (hc : EndCase k t r returnValue status (.error e k')) (hr : (k.tasks t).tracker = some r)
    (hended : (k.tasks t).state = .ended) : CrashPark e k' := by
  have hself := exited_self k r returnValue status
  cases hc with
  | detachedCrashed hd hs => exact .inl ⟨rfl, t, r, hended, hd, hr, by rw [hself]; exact hs⟩
  | rootCrashed _ hp hs =>
    refine .inr (.inl ⟨rfl, t, r, hended, hr, ?_, by rw [hself]; exact hs⟩)
    rw [parentOf, hself]
    exact hp
  | orphan _ _ ho =>
    obtain ⟨he, c, -, ⟨hu, hs⟩, hp, ht⟩ := ho
    exact .inr (.inr ⟨he, c, hu, hp, ht, hs⟩)

/-- The task that `end_task` makes ready was blocked in a join. -/
theorem EndCase.joined {r : TrackerRef} {returnValue : Word} {status : ExitStatus}
    {X : TrackerRef → Prop} {live joined : TaskRef → Prop} (h : TrackerInv k X live joined)
    (hr : k.trackerSlotsUsed r = true)
    (hc : EndCase k t r returnValue status (.ok (some u) k')) : joined u := by
  obtain ⟨rank, kids, hf⟩ := h.forest
  cases hc with
  | woken _ hp hact _ htask _ =>
    obtain ⟨w, hw, hj⟩ := h.waiting (hf.parent_used hr not_false hp) hact
    rw [htask] at hw
    cases hw
    exact hj

/-- The places before and after `end_task`: the task is being freed, and the waiting
parent belongs to the hart. -/
structure Ended (h : HartIndex) (t : TaskRef) (waiter : Option TaskRef) (loc loc' : Loc) :
    Prop where
  own : loc t = some (.own h)
  reaped : loc' t = some (.reaped h)
  join : ∀ u, waiter = some u → loc u = some .join
  woken : ∀ u, waiter = some u → loc' u = some (.own h)
  other : ∀ u, u ≠ t → waiter ≠ some u → loc' u = loc u

theorem Ended.of_track (hown : loc t = some (.own h)) {waiter : Option TaskRef}
    (hjoin : ∀ u, waiter = some u → loc u = some .join) (returnValue : Word)
    (status : ExitStatus) :
    Ended h t waiter loc (track h (.endTaskLocked t returnValue status) waiter loc) := by
  cases waiter with
  | none =>
    exact ⟨hown, update_self .., hjoin, (fun _ hu => nomatch hu),
      fun u hu _ => update_of_ne hu ..⟩
  | some w =>
    have hwt : t ≠ w := by
      rintro rfl
      rw [hjoin t rfl] at hown
      cases hown
    refine ⟨hown, ?_, hjoin, fun u hu => ?_, fun u hut huw => ?_⟩
    · show update (update loc t (some (.reaped h))) w _ t = _
      rw [update_of_ne hwt, update_self]
    · cases hu
      exact update_self ..
    · have huw' : u ≠ w := fun hh => huw (congrArg some hh.symm)
      show update (update loc t _) w _ u = _
      rw [update_of_ne huw', update_of_ne hut]

theorem not_live_reaped (ht : loc t = some (.reaped h)) : ¬ Live loc t := by
  rintro ⟨p, hp, hne⟩
  rw [ht] at hp
  exact hne h (Option.some.inj hp).symm

namespace Ended

variable {waiter : Option TaskRef}

theorem waiter_ne (he : Ended h t waiter loc loc') (hu : waiter = some u) : u ≠ t := by
  rintro rfl
  have := he.join u hu
  rw [he.own] at this
  cases this

theorem live_iff (he : Ended h t waiter loc loc') (u : TaskRef) :
    Live loc' u ↔ Live loc u ∧ u ≠ t := by
  by_cases hut : u = t
  · rw [hut]
    exact iff_of_false (not_live_reaped he.reaped) fun hh => hh.2 rfl
  · rw [and_iff_left hut]
    by_cases huw : waiter = some u
    · refine iff_of_true (Inv.live_of_own (he.woken u huw)) ⟨.join, he.join u huw, ?_⟩
      exact fun _ => Place.noConfusion
    · rw [Live, he.other u hut huw, Live]

theorem join_iff (he : Ended h t waiter loc loc') (u : TaskRef) :
    loc' u = some .join ↔ stillJoined (fun v => loc v = some .join) waiter u := by
  rw [stillJoined]
  by_cases hut : u = t
  · rw [hut, he.reaped, he.own]
    simp
  · by_cases huw : waiter = some u
    · rw [he.woken u huw]
      simp [huw]
    · rw [he.other u hut huw]
      exact (and_iff_left huw).symm

end Ended

/-- The records after `end_task`: only `a0` of the waiting parent is written. -/
theorem EndCase.untouched {r : TrackerRef} {returnValue : Word} {status : ExitStatus}
    {waiter : Option TaskRef} (hc : EndCase k t r returnValue status (.ok waiter k'))
    (hu : waiter ≠ some u) : k'.tasks u = k.tasks u := by
  rw [hc.tasks]
  cases waiter with
  | none => rfl
  | some w => exact update_of_ne (fun hh => hu (congrArg some hh.symm)) ..

theorem EndCase.wokenTask {r : TrackerRef} {returnValue : Word} {status : ExitStatus}
    (hc : EndCase k t r returnValue status (.ok (some u) k')) :
    k'.tasks u = { k.tasks u with
      context := (k.tasks u).context.setX 10 (k.tasks t).tid } := by
  rw [hc.tasks]
  exact update_self ..

/-- **The invariant after `end_task`.** -/
theorem Inv.ended {r : TrackerRef} {returnValue : Word} {status : ExitStatus}
    {waiter : Option TaskRef} (hi : Inv legal k loc) (he : Ended h t waiter loc loc')
    (hr : (k.tasks t).tracker = some r) (hended : (k.tasks t).state = .ended)
    (hidle : (k.tasks t).idle = false)
    (hc : EndCase k t r returnValue status (.ok waiter k')) (hcrash : legal → NoCrash k') :
    Inv legal k' loc' := by
  have hlive : Live loc t := Inv.live_of_own he.own
  have hout := hc.sameOutside
  refine hi.retable hout.onlyTasks (fun u => ?_) ?_ hcrash
  · by_cases hut : u = t
    · have htask := hc.untouched fun hw => he.waiter_ne hw rfl
      rw [hut]
      refine .inr (hi.replaced hout he.own he.reaped (by simp [Unqueued, he.own])
        (by simp [Unqueued, he.reaped]) ?_ ?_ hidle ?_)
      · rw [htask]
        exact ⟨rfl, rfl, rfl, rfl, rfl⟩
      · rw [htask]
        exact ⟨rfl, rfl, rfl⟩
      · exact (congrArg Task.state htask).trans hended
    · by_cases huw : waiter = some u
      · have hp := hi.placed u _ (he.join u huw)
        have htask := (huw ▸ hc).wokenTask
        refine .inr (hi.replaced hout (he.join u huw) (he.woken u huw)
          (by simp [Unqueued, he.join u huw]) (by simp [Unqueued, he.woken u huw]) ?_ ?_
          (hp.idle rfl) trivial)
        · rw [htask]
          exact ⟨rfl, rfl, rfl, rfl, rfl⟩
        · rw [htask]
          exact ⟨rfl, rfl, rfl⟩
      · exact .inl ⟨he.other u hut huw, hc.untouched huw, by rw [hout]⟩
  · exact (hc.inv hi.tracker hlive (by simp [he.own]) hr).congr rfl rfl rfl
      (fun _ _ => ⟨rfl, rfl⟩) he.live_iff he.join_iff

/-- The promise of `end_task`: a join is ended under the manager's lock. -/
theorem Ended.guar {r : TrackerRef} {returnValue : Word} {status : ExitStatus}
    {waiter : Option TaskRef} (he : Ended h t waiter loc loc')
    (hc : EndCase k t r returnValue status (.ok waiter k'))
    (hlock : k.locks .taskManager = some h) : Guar h k loc k' loc' := by
  refine guar_of_retable hc.sameOutside.onlyTasks fun u => ?_
  by_cases hut : u = t
  · rw [hut, he.own, he.reaped]
    exact .inr ⟨rfl, rfl, by simp [Unqueued, he.reaped]⟩
  · by_cases huw : waiter = some u
    · rw [he.join u huw, he.woken u huw]
      exact .inr ⟨hlock, rfl, by simp [Unqueued, he.woken u huw]⟩
    · exact .inl ⟨he.other u hut huw, hc.untouched huw, by rw [hc.sameOutside]⟩

/-- A hart ends a task: it has to free the slot, and to make a waiting parent ready. -/
theorem outline_endTaskLocked (hx : S.tasks t = some x) (hended : x.state = .ended)
    (hidle : x.idle = false) (hreaped : S.reaped = none) (hlock : .taskManager ∈ S.locks)
    (returnValue : Word) {status : ExitStatus} (hstatus : legal → status = .exitedClean) :
    Outline solo legal h (perform (.endTaskLocked t returnValue status)) (Holds solo h S)
      fun b k loc => (b = none ∧ Holds solo h ({ S with reaped := some t }.drop t) k loc) ∨
        ∃ u y, (b = some u ∧ y.state = .blockedJoin ∧ y.idle = false ∧ u ≠ t ∧
          S.tasks u = none) ∧
          Holds solo h (({ S with reaped := some t }.drop t).hold u y) k loc := by
  refine Valid.perform (fun k loc hi hat => ?_) fun b => .or ((Contract.Stable.const _).and
    (At.stable ({ S with reaped := some t }.drop t) _)) (.exists fun u => .exists fun y =>
      (Contract.Stable.const _).and (At.stable (({ S with reaped := some t }.drop t).hold u y) _))
  obtain ⟨hown, hrec⟩ := hat.owned t x hx
  refine ⟨hown, ?_⟩
  have hlive : Live loc t := Inv.live_of_own hown
  have hjoin : ¬ loc t = some .join := by simp [hown]
  obtain ⟨r, hr, hused, -⟩ := hi.tracker.ofTask hlive
  have hcase := endTaskLocked_cases hi.tracker hlive hjoin hr returnValue status
  have hclean : legal → ∃ waiter k', k.endTaskLocked t returnValue status = .ok waiter k' ∧
      NoCrash k' := by
    intro hl
    rw [hstatus hl] at hcase ⊢
    exact hcase.clean (hi.noCrash hl)
  rw [show (machine legal).exec h (.endTaskLocked t returnValue status) k =
    k.endTaskLocked t returnValue status from rfl]
  generalize k.endTaskLocked t returnValue status = out at hcase hclean ⊢
  cases out with
  | error e k' =>
    refine .inr (.inr ⟨fun hl => ?_, hcase.crashPark hr (hrec ▸ hended)⟩)
    obtain ⟨_, _, hh, -⟩ := hclean hl
    cases hh
  | ok waiter k' =>
    have hcrash : legal → NoCrash k' := by
      intro hl
      obtain ⟨_, _, hh, hn⟩ := hclean hl
      cases hh
      exact hn
    have hjoined : ∀ u, waiter = some u → loc u = some .join := by
      rintro u rfl
      exact hcase.joined hi.tracker hused
    have he := Ended.of_track hown hjoined returnValue status
    have hidle' : (k.tasks t).idle = false := hrec ▸ hidle
    refine ⟨hi.ended he hr (hrec ▸ hended) hidle' hcase hcrash, ?_, ?_⟩
    · exact he.guar hcase ((hat.locks _).mpr hlock)
    · have htouch : Touches h k k' loc t := by
        refine ⟨by rw [hcase.sameOutside], by rw [hcase.sameOutside], fun u hut hou => ?_⟩
        refine hcase.untouched fun huw => ?_
        rw [he.join u huw] at hou
        cases hou
      have hkeep : Holds solo h ({ S with reaped := some t }.drop t) k'
          (update loc t (some (.reaped h))) := by
        refine hat.relocate htouch (fun _ hy => nomatch hy) (fun hh => nomatch hh) (fun u => ?_)
          trivial
        rw [hreaped]
        by_cases hut : u = t
        · simp [hut]
        · simp [hut, Ne.symm hut]
      cases waiter with
      | none => exact .inl ⟨rfl, hkeep⟩
      | some u =>
        have hut := he.waiter_ne rfl
        have hp := hi.placed u _ (he.join u rfl)
        have hloc : update loc t (some (.reaped h)) u = some .join := by
          rw [update_of_ne hut]
          exact he.join u rfl
        refine .inr ⟨u, k'.tasks u, ⟨rfl, ?_, ?_, hut, hat.not_held (by simp [he.join u rfl])⟩,
          hkeep.take ⟨rfl, rfl, fun _ _ _ => rfl⟩ (by simp [hloc]) trivial⟩
        · rw [hcase.wokenTask]
          exact hp.state
        · rw [hcase.wokenTask]
          exact hp.idle rfl

theorem live_freed (ht : loc t = some (.reaped h)) (u : TaskRef) :
    Live (update loc t none) u ↔ Live loc u := by
  by_cases hut : u = t
  · rw [hut]
    refine iff_of_false ?_ (not_live_reaped ht)
    rintro ⟨p, hp, -⟩
    rw [update_self] at hp
    cases hp
  · rw [Live, update_of_ne hut, Live]

/-- The slot of an ended task is freed. -/
theorem outline_releaseTaskLocked (hreaped : S.reaped = some t) :
    Outline solo legal h (perform (.releaseTaskLocked t)) (Holds solo h S) fun _ =>
      Holds solo h { S with reaped := none } := by
  refine outline_perform (fun _ => At.stable { S with reaped := none } _) fun k loc hi hat => ?_
  have hloc : loc t = some (.reaped h) := (hat.reaped t).mpr hreaped
  have hnone := hat.not_held (t := t) (by simp [hloc])
  obtain ⟨hq, hd, hw⟩ := hi.unqueued (t := t) (by simp [hloc]) (by simp [hloc]) (by simp [hloc])
  have hself : (k.freed t).tasks t = {} := update_self ..
  have hother : ∀ u, u ≠ t → Untouched k (k.freed t) loc (update loc t none) u :=
    fun u hu => ⟨update_of_ne hu .., update_of_ne hu ..,
      update_of_ne hu ..⟩
  have hplaced := hi.placed t _ hloc
  have hrep : Replaced k (k.freed t) loc (update loc t none) t := by
    refine ⟨by simp [Unqueued, hloc], by simp [Unqueued], ?_, ⟨hplaced.idle rfl, ?_⟩, ?_,
      fun _ => hself, fun p hp => ?_⟩
    · exact .inr ⟨⟨hq, hd, hw⟩, by rw [hself]; exact ⟨rfl, rfl, rfl⟩⟩
    · rw [hself]
    · rw [update_self, show (k.freed t).taskSlotsUsed t = false from
        update_self ..]
      simp
    · rw [update_self] at hp
      cases hp
  refine ⟨hloc, (), k.freed t, releaseTaskLocked_eq hq hd hw, ?_, ?_, ?_⟩
  · refine hi.retable rfl (fun u => ?_) ?_ hi.noCrash
    · by_cases hu : u = t
      · exact .inr (hu ▸ hrep)
      · exact .inl (hother u hu)
    · refine hi.tracker.congr rfl rfl rfl (fun u hu => ?_) (live_freed hloc)
        (join_outside (by simp [hloc]) (by simp))
      rw [(hother u fun hut => not_live_reaped hloc (hut ▸ hu)).2.1]
      exact ⟨rfl, rfl⟩
  · refine guar_of_retable rfl fun u => ?_
    by_cases hu : u = t
    · refine .inr ⟨?_, ?_, hu ▸ hrep.after⟩
      · rw [hu, hloc]
        rfl
      · rw [hu]
        exact show Entitled h k (update loc t _ t) by rw [update_self]; trivial
    · exact .inl (hother u hu)
  · have htouch : Touches h k (k.freed t) loc t := ⟨rfl, rfl, fun u hu _ => (hother u hu).2.1⟩
    have hkeep : At solo h { S with tasks := update S.tasks t none, reaped := none }
        (fun _ _ => True) (k.freed t) (update loc t none) := by
      refine hat.relocate htouch (fun _ hy => (Option.some_ne_none _ hy.symm).elim) (by simp)
        (fun u => ?_) trivial
      rw [hreaped]
      by_cases hut : u = t
      · simp [hut]
      · simp [hut, Ne.symm hut]
    rwa [update_eq_self_iff.mpr hnone.symm] at hkeep

/-! ### wait_task and detach_task -/

/-- The task is blocked in a join. -/
def Joining (t : TaskRef) (_ : Kernel) (loc : Loc) : Prop := loc t = some .join

instance {L : List Lock} : Frame h (.taskManager :: L) (Joining t) :=
  ⟨fun hv => (hv.join t).mpr, fun hl hr => (hr.join (hl _ List.mem_cons_self) t).mpr⟩

theorem nowJoined_blocked (loc : Loc) (t u : TaskRef) :
    update loc t (some .join) u = some .join ↔
      nowJoined (fun v => loc v = some .join) t .blocked u := by
  rw [nowJoined]
  by_cases hut : u = t
  · simp [hut]
  · rw [update_of_ne hut]
    simp [hut]

/-- The tracker table changes and the caller stays where it is. -/
theorem At.tracked {context : TaskContext} (hat : Holds solo h S k loc) (hi : Inv legal k loc)
    (hx : S.tasks t = some x) (hidle : x.idle = false) (hout : SameOutside k k')
    (hother : ∀ u, u ≠ t → k'.tasks u = k.tasks u)
    (hself : k'.tasks t = { k.tasks t with context := context })
    (htr : TrackerInv k' (fun _ => False) (Live loc) fun t => loc t = some .join)
    (hcrash : legal → NoCrash k') :
    Inv legal k' loc ∧ Guar h k loc k' loc ∧
      Holds solo h (S.hold t { x with context := context }) k' loc := by
  obtain ⟨hown, hrec⟩ := hat.owned t x hx
  have hsame : ∀ u, u ≠ t → Untouched k k' loc loc u :=
    fun u hu => ⟨rfl, hother u hu, by rw [hout]⟩
  have hun : Unqueued loc t := by simp [Unqueued, hown]
  refine ⟨hi.retable hout.onlyTasks (fun u => ?_) htr hcrash,
    guar_of_retable hout.onlyTasks fun u => ?_, ?_⟩
  · by_cases hu : u = t
    · rw [hu]
      refine .inr (hi.replaced hout hown hown hun hun ?_ ?_ (hrec ▸ hidle) trivial)
      · rw [hself]
        exact ⟨rfl, rfl, rfl, rfl, rfl⟩
      · rw [hself]
        exact ⟨rfl, rfl, rfl⟩
    · exact .inl (hsame u hu)
  · by_cases hu : u = t
    · rw [hu, hown]
      exact .inr ⟨rfl, rfl, hun⟩
    · exact .inl (hsame u hu)
  · have htouch : Touches h k k' loc t := ⟨by rw [hout], by rw [hout], fun u hu _ => hother u hu⟩
    have hkeep := hat.take (G := fun _ _ => True) htouch (by simp [hown]) trivial
    rwa [hself, hrec, update_eq_self_iff.mpr hown.symm] at hkeep

/-- The caller goes on, or is blocked in a join. -/
theorem outline_waitTaskLocked [Frame h S.locks (Joining t)] (hx : S.tasks t = some x)
    (hidle : x.idle = false) (hlock : .taskManager ∈ S.locks) (tid : Word) :
    Outline solo legal h (perform (.waitTaskLocked t tid)) (Holds solo h S) fun b k loc =>
      (∃ context, b ≠ .blocked ∧ Holds solo h (S.hold t { x with context := context }) k loc) ∨
      (b = .blocked ∧ At solo h (S.drop t) (Joining t) k loc) := by
  refine outline_perform (fun b => .or (.exists fun c => (Contract.Stable.const _).and
    (At.stable (S.hold t { x with context := c }) _)) ((Contract.Stable.const _).and
      (At.stable (S.drop t) _))) fun k loc hi hat => ?_
  obtain ⟨hown, hrec⟩ := hat.owned t x hx
  have hlive : Live loc t := Inv.live_of_own hown
  obtain ⟨r, hr, -⟩ := hi.tracker.ofTask hlive
  obtain ⟨result, k', hexec, hcase⟩ := waitTaskLocked_cases hi.tracker hr tid
  refine ⟨hown, result, k', hexec, ?_⟩
  have htr := hcase.inv hi.tracker hlive hr
  have hout := hcase.sameOutside
  obtain ⟨hother, hself⟩ := hcase.tasks
  have hcrash := fun hl => hcase.noCrash (hi.noCrash hl)
  have hidle' : (k.tasks t).idle = false := hrec ▸ hidle
  cases result with
  | noChild =>
    obtain ⟨hi', hguar, hkeep⟩ := hat.tracked hi hx hidle hout hother hself htr hcrash
    exact ⟨hi', hguar, .inl ⟨_, WaitResult.noConfusion, hkeep⟩⟩
  | completed =>
    obtain ⟨value, hself⟩ := hself
    obtain ⟨hi', hguar, hkeep⟩ := hat.tracked hi hx hidle hout hother hself htr hcrash
    exact ⟨hi', hguar, .inl ⟨_, WaitResult.noConfusion, hkeep⟩⟩
  | blocked =>
    have hnew : update loc t (some .join) t = some .join := update_self ..
    have hun : Unqueued (update loc t (some .join)) t := by simp [Unqueued]
    have hsame : ∀ u, u ≠ t → Untouched k k' loc (update loc t (some .join)) u :=
      fun u hu => ⟨update_of_ne hu .., hother u hu, by rw [hout]⟩
    refine ⟨hi.retable hout.onlyTasks (fun u => ?_) ?_ hcrash,
      guar_of_retable hout.onlyTasks fun u => ?_, .inr ⟨rfl, ?_⟩⟩
    · by_cases hu : u = t
      · rw [hu]
        refine .inr (hi.replaced hout hown hnew (by simp [Unqueued, hown]) hun ?_ ?_ hidle' ?_)
        · rw [hself]
          exact ⟨rfl, rfl, rfl, rfl, rfl⟩
        · rw [hself]
          exact ⟨rfl, rfl, rfl⟩
        · rw [hself]
          rfl
      · exact .inl (hsame u hu)
    · refine htr.congr rfl rfl rfl (fun _ _ => ⟨rfl, rfl⟩) (fun u => ?_)
        (nowJoined_blocked loc t)
      by_cases hu : u = t
      · rw [hu]
        exact iff_of_true ⟨.join, hnew, fun _ => Place.noConfusion⟩ hlive
      · show Live (update loc t _) u ↔ _
        rw [Live, update_of_ne hu, Live]
    · by_cases hu : u = t
      · refine .inr ⟨?_, ?_, hu ▸ hun⟩
        · rw [hu, hown]
          rfl
        · rw [hu]
          show Entitled h k (update loc t _ t)
          rw [hnew]
          exact (hat.locks _).mpr hlock
      · exact .inl (hsame u hu)
    · have htouch : Touches h k k' loc t :=
        ⟨by rw [hout], by rw [hout], fun u hu _ => hother u hu⟩
      exact hat.give htouch hx ⟨Place.noConfusion, Place.noConfusion⟩ hnew

/-- The caller is detached. -/
theorem outline_detachTaskLocked (hx : S.tasks t = some x) (hstate : x.state ≠ .ended) :
    Outline solo legal h (perform (.detachTaskLocked t)) (Holds solo h S) fun b k loc =>
      b = true ∧ Holds solo h (S.hold t { x with detached := true }) k loc := by
  refine outline_perform (fun _ => (Contract.Stable.const _).and
    (At.stable (S.hold t { x with detached := true }) _)) fun k loc hi hat => ?_
  obtain ⟨hown, hrec⟩ := hat.owned t x hx
  have hexec : exec h (.detachTaskLocked t) k =
      .ok true (k.modifyTask t fun task => { task with detached := true }) := by
    show Outcome.total (k.detachTaskLocked t) = _
    rw [detachTaskLocked, if_neg (by rw [hrec]; simpa using hstate)]
    rfl
  exact ⟨hown, true, _, hexec,
    hi.write hown ⟨⟨rfl, rfl, rfl, rfl, rfl⟩, rfl, ⟨rfl, rfl, rfl, rfl⟩, fun _ => .inl rfl⟩,
    guar_of_private ((Private.refl h k loc).modifyTask hown _), rfl,
    hat.modifyTask hx fun task => { task with detached := true }⟩

end Jixia
