/-
Outlines of the scheduler and of the time manager.

`outline_addTask`: a held task is published in a run queue.  `outline_setNextRunnable`:
the hart takes the next task, or its idle task, and makes it current.  The loop of
`check_release_tasks` ends because every round takes a sleeper out.
-/
import Jixia.TaskSpecs

namespace Jixia

open Machine Proc KProc Function

variable {solo legal : Prop} {h : HartIndex} {S : Holding} {F G : Kernel → Loc → Prop}
  {t : TaskRef} {x : Task} {k : Kernel} {loc : Loc} {α : Type}

/-- The hart holds no queue lock: the scheduler takes those last. -/
structure Leaf (S : Holding) : Prop where
  run : ∀ q, .runQueue q ∉ S.locks
  delay : ∀ q, .delayQueue q ∉ S.locks

/-! ### Publishing a task -/

theorem outline_runQueueInsert_locked [Frame h S.locks F] (q : RunQueueRef)
    (hx : S.tasks t = some x) (hidle : x.idle = false) (hstate : x.state ≠ .ended)
    (hq : .runQueue q ∉ S.locks) :
    Outline solo legal h (runQueueInsert q t) (At solo h S F) fun b k loc =>
      b = true ∧ At solo h (S.drop t) F k loc ∧ (solo → loc t ≠ none) := by
  refine outline_locked (outline_acquire hq fun _ _ _ hf => hf)
    (outline_runQueueInsert q hx hidle hstate) fun b => .pure fun hb => ?_
  refine (outline_keep (outline_release rfl hq (fun _ _ hf => hf) fun hh => nomatch hh)
    (fun _ _ => rfl) fun loc => loc t ≠ none).post fun _ _ _ _ hpost => ⟨hb, hpost⟩

theorem outline_addTask [Frame h S.locks F] (hx : S.tasks t = some x) (hidle : x.idle = false)
    (hstate : x.state ≠ .ended) (hL : Leaf S) :
    Outline solo legal h (addTask t) (At solo h S F) fun b k loc =>
      b = true ∧ At solo h (S.drop t) F k loc ∧ (solo → loc t ≠ none) := by
  refine (outline_loadTask hx).bind fun b => .pure ?_
  rintro ⟨rfl, hown⟩
  obtain ⟨j, hj⟩ := hown.cpu
  rw [if_neg (by simp [hstate, hidle, hj, hown.delayed, hown.queued, hown.waiting]),
    if_neg (by simp [hown.pinned])]
  exact outline_runQueueInsert_locked _ hx hidle hstate (hL.run _)

/-- A wake: the task is published, whatever happens to it next. -/
theorem outline_wake [Frame h S.locks F] (hx : S.tasks t = some x) (hidle : x.idle = false)
    (hstate : x.state ≠ .ended) (hL : Leaf S) (site : ParkSite) :
    Outline solo legal h (do let added ← addTask t; parkUnless added site) (At solo h S F)
      fun _ => At solo h (S.drop t) F := by
  refine (outline_addTask hx hidle hstate hL).bind fun b => .pure fun hb => ?_
  exact (outline_parkUnless hb).pre fun _ _ _ hp => hp.1

/-- The idle task of the hart need not be in its hands. -/
theorem At.dropIdle (hat : At solo h S F k loc) (hi : Inv legal k loc) (hx : S.tasks t = some x)
    (hidle : x.idle = true) : At solo h (S.drop t) F k loc := by
  obtain ⟨hown, hrec⟩ := hat.owned t x hx
  have ht : t = S.idle := by
    have hh := hi.idleTask_of_own hown (hrec ▸ hidle)
    rw [hat.idle] at hh
    exact (Option.some.inj hh).symm
  refine ⟨hat.bound, hat.idle, hat.current, fun u y hy => ?_, fun u hu hn => ?_, hat.reaped,
    hat.locks, hat.alone, hat.frame⟩
  · have hut : u ≠ t := by
      rintro rfl
      rw [Holding.drop_self] at hy
      cases hy
    rw [Holding.drop_of_ne hut] at hy
    exact hat.owned u y hy
  · by_cases hut : u = t
    · exact hut.trans ht
    · rw [Holding.drop_of_ne hut] at hn
      exact hat.only u hu hn

/-- A task that is not idle is not the idle task of the hart. -/
theorem At.ne_idle (hat : At solo h S F k loc) (hi : Inv legal k loc) (hx : S.tasks t = some x)
    (hidle : x.idle = false) : t ≠ S.idle := by
  rintro rfl
  have hh := ((hi.hart h).idle _ hat.idle).2.2.1
  rw [(hat.owned _ x hx).2, hidle] at hh
  cases hh

theorem outline_requeue [Frame h S.locks F] (hx : S.tasks t = some x) (hstate : x.state ≠ .ended)
    (hL : Leaf S) :
    Outline solo legal h (requeue t) (At solo h S F) fun _ k loc =>
      At solo h (S.drop t) F k loc ∧ (solo → loc t ≠ none) := by
  refine (outline_loadTask hx).bind fun b => .pure ?_
  rintro ⟨rfl, -⟩
  by_cases hidle : b.idle = true
  · rw [if_pos hidle]
    refine .ret fun k loc hi hat => ⟨hat.dropIdle hi hx hidle, fun _ => ?_⟩
    rw [(hat.owned t b hx).1]
    exact Option.some_ne_none _
  · rw [if_neg hidle]
    rw [Bool.not_eq_true] at hidle
    refine (outline_addTask hx hidle hstate hL).bind fun b => .pure fun hb => ?_
    exact outline_parkUnless hb

theorem outline_returnRunnable [Frame h S.locks F] (hc : S.current = some t)
    (hx : S.tasks t = some x) (hstate : x.state ≠ .ended) (hL : Leaf S) :
    Outline solo legal h (returnRunnable h) (At solo h S F) fun _ k loc =>
      At solo h (S.drop t) F k loc ∧ (solo → loc t ≠ none) := by
  refine outline_loadHart.bind fun hart => .pure fun hhart => ?_
  rw [hhart.current, hc]
  exact outline_requeue hx hstate hL

/-! ### Selecting a task -/

/-- What a hart may find in a run queue. -/
def Found (solo : Prop) (h : HartIndex) (S : Holding) (F : Kernel → Loc → Prop)
    (b : Option TaskRef) (k : Kernel) (loc : Loc) : Prop :=
  (b = none ∧ At solo h S F k loc) ∨
    ∃ t x, (b = some t ∧ x.state = .ready ∧ x.idle = false ∧ S.tasks t = none) ∧
      At solo h (S.hold t x) F k loc

theorem outline_runQueueRemove_locked [Frame h S.locks F] {q : RunQueueRef}
    (hq : .runQueue q ∉ S.locks) :
    Outline solo legal h (runQueueRemove q) (At solo h S F) (Found solo h S F) := by
  refine outline_locked (outline_acquire hq fun _ _ _ hf => hf) (outline_runQueueRemove q)
    fun b => .or (.pure fun hb => ?_) (.exists fun t => .exists fun x => .pure fun hb => ?_)
  · exact (outline_release rfl hq (fun _ _ hf => hf) fun hh => nomatch hh).post
      fun _ _ _ _ hat => .inl ⟨hb, hat⟩
  · exact (outline_release rfl hq (fun _ _ hf => hf) fun hh => nomatch hh).post
      fun _ _ _ _ hat => .inr ⟨t, x, hb, hat⟩

theorem outline_removeGlobal [Frame h S.locks F] (hL : Leaf S) :
    Outline solo legal h removeGlobal (At solo h S F) (Found solo h S F) := by
  have hsize : Outline solo legal h (runQueueSize .globalRunQueue) (At solo h S F)
      fun _ => At solo h S F :=
    outline_locked (outline_acquire (hL.run _) fun _ _ _ hf => hf)
      (outline_readAny (fun _ _ => trivial) (fun _ => ⟨_, rfl⟩) fun _ _ => rfl)
      fun _ => outline_release rfl (hL.run _) (fun _ _ hf => hf) fun hh => nomatch hh
  refine hsize.bind fun size => ?_
  by_cases hz : (size != 0) = true
  · rw [if_pos hz]
    exact outline_runQueueRemove_locked (hL.run _)
  · rw [if_neg hz]
    exact .ret fun _ _ _ hat => .inl ⟨rfl, hat⟩

theorem outline_removeNext [Frame h S.locks F] (hL : Leaf S) {hart : HartLocal}
    (hhart : OwnHart h S hart) :
    Outline solo legal h (removeNext hart) (At solo h S F) (Found solo h S F) := by
  rw [removeNext, removeLocal, hhart.extra]
  refine (outline_runQueueRemove_locked (hL.run _)).bind fun b => .or (.pure ?_)
    (.exists fun t => .exists fun x => .pure ?_)
  · rintro rfl
    exact outline_removeGlobal hL
  · rintro ⟨rfl, hx⟩
    exact .ret fun _ _ _ hat => .inr ⟨t, x, ⟨rfl, hx⟩, hat⟩

/-- Reading the delay queue of the hart. -/
theorem outline_ticksUntilNext [Frame h S.locks F] (hL : Leaf S) (now maximum : Word) :
    Outline solo legal h (locked (.delayQueue h)
      (perform (.delayQueueTicksUntilNext h now maximum))) (At solo h S F)
      fun _ => At solo h S F :=
  outline_locked (outline_acquire (hL.delay _) fun _ _ _ hf => hf)
    (outline_readAny (fun _ _ => trivial) (fun _ => ⟨_, rfl⟩) fun _ _ => rfl)
    fun _ => outline_release rfl (hL.delay _) (fun _ _ hf => hf) fun hh => nomatch hh

/-- A selected task: a ready one, or the idle task. -/
def Selected (solo : Prop) (h : HartIndex) (S : Holding) (F : Kernel → Loc → Prop)
    (b : Option TaskRef) (k : Kernel) (loc : Loc) : Prop :=
  (b = some S.idle ∧ At solo h S F k loc) ∨
    ∃ t x, (b = some t ∧ x.state = .ready ∧ x.idle = false ∧ S.tasks t = none) ∧
      At solo h (S.hold t x) F k loc

theorem outline_selectOrIdle [Frame h S.locks F] (hL : Leaf S) {hart : HartLocal}
    (hhart : OwnHart h S hart) (clock : Clock) (b : Option TaskRef) :
    Outline solo legal h (selectOrIdle hart clock b) (Found solo h S F b)
      (Selected solo h S F) := by
  refine .or (.pure ?_) (.exists fun t => .exists fun x => .pure ?_)
  · rintro rfl
    rw [selectOrIdle, idleTimesliceTicks, hhart.delay]
    refine (outline_ticksUntilNext hL _ _).bind fun ticks => (outline_setTimeslice ticks).bind
      fun _ => .ret fun _ _ _ hat => .inl ⟨hhart.idle, hat⟩
  · rintro ⟨rfl, hx⟩
    exact (outline_setTimeslice _).bind fun _ => .ret fun _ _ _ hat => .inr ⟨t, x, ⟨rfl, hx⟩, hat⟩

/-- **The hart has a new current task.** -/
theorem outline_setNextRunnable [Frame h S.locks F] (hL : Leaf S) (hidle : S.tasks S.idle = none)
    (clock : Clock) :
    Outline solo legal h (setNextRunnable h clock) (At solo h S F) fun b k loc =>
      ∃ u x, (b = some u ∧ S.tasks u = none ∧ x.state = .running ∧ x.cpu = some h) ∧
        At solo h ({ S with current := some u }.hold u x) F k loc := by
  refine outline_loadHart.bind fun hart => .pure fun hhart => ?_
  refine (outline_removeNext hL hhart).bind fun ready =>
    (outline_selectOrIdle hL hhart clock ready).bind fun selected => ?_
  refine .or (.pure ?_) (.exists fun u => .exists fun y => .pure ?_)
  · rintro rfl
    refine (outline_setCurrentTask (.inr rfl)).bind fun _ => .exists fun x => .ret ?_
    rintro k loc - ⟨hs, hc, hat⟩
    exact ⟨S.idle, x, ⟨rfl, hidle, hs, hc⟩, hat⟩
  · rintro ⟨rfl, hready, -, hnone⟩
    refine (outline_setCurrentTask (S := S.hold u y) (.inl ⟨y, Holding.hold_self .., ?_⟩)).bind
      fun _ => .exists fun x => .ret ?_
    · rw [hready]
      exact TaskState.noConfusion
    · rintro k loc - ⟨hs, hc, hat⟩
      rw [Holding.hold, update_idem] at hat
      exact ⟨u, x, ⟨rfl, hnone, hs, hc⟩, hat⟩

/-! ### Sleeping -/

theorem Holding.hold_hold (S : Holding) (t : TaskRef) (x y : Task) :
    (S.hold t x).hold t y = S.hold t y := by
  rw [hold, update_idem]

theorem Holding.hold_drop (S : Holding) (t : TaskRef) (x : Task) :
    (S.hold t x).drop t = S.drop t := by
  rw [drop, update_idem]

theorem Holding.drop_none {S : Holding} (ht : S.tasks t = none) : S.drop t = S := by
  rw [drop, update_eq_self_iff.mpr ht.symm]

theorem outline_delayUntil (hx : S.tasks t = some x) (hidle : x.idle = false) (hL : Leaf S)
    (deadline : Word) :
    Outline solo legal h (delayUntil t h deadline) (Holds solo h S) fun b k loc =>
      b = true ∧ At solo h (S.drop t) (Sleeping h t) k loc := by
  refine (outline_setState hx hidle .blockedSleep).bind fun _ => ?_
  refine (outline_setStateInfo (Holding.hold_self ..) deadline).bind fun _ => ?_
  rw [Holding.hold_hold]
  set y : Task := { x with state := .blockedSleep, stateInfo := deadline }
  have hinsert : Outline solo legal h (locked (.delayQueue h)
      (perform (.delayQueueInsert h t deadline))) (Holds solo h (S.hold t y)) fun b k loc =>
        b = true ∧ At solo h ((S.hold t y).drop t) (Sleeping h t) k loc := by
    refine outline_locked (outline_acquire (S := S.hold t y) (hL.delay h) fun _ _ _ hf => hf)
      (outline_delayQueueInsert (x := y) deadline (Holding.hold_self ..) hidle rfl)
      fun b => .pure fun hb => ?_
    exact (outline_release rfl (hL.delay h) (fun _ _ hf => hf) fun hh => nomatch hh).post
      fun _ _ _ _ hat => ⟨hb, hat⟩
  rw [Holding.hold_drop] at hinsert
  refine hinsert.bind fun b => .pure ?_
  rintro rfl
  exact .ret fun k loc _ hat => ⟨rfl, hat⟩

theorem outline_delayTask (hx : S.tasks t = some x)
    (hidle : x.idle = false) (hcpu : x.cpu = some h) (hL : Leaf S)
    (seconds nanoseconds : Word) (clock : Clock) :
    Outline solo legal h (delayTask h t seconds nanoseconds clock) (Holds solo h S)
      fun b k loc => (b = false ∧ Holds solo h S k loc) ∨
        (b = true ∧ At solo h (S.drop t) (Sleeping h t) k loc) := by
  have hrefuse : Outline solo legal h (pure false : KProc Bool) (Holds solo h S) fun b k loc =>
      (b = false ∧ Holds solo h S k loc) ∨
        (b = true ∧ At solo h (S.drop t) (Sleeping h t) k loc) :=
    .ret fun _ _ _ hat => .inl ⟨rfl, hat⟩
  refine (outline_readAny (a := .timeManagerInitialized) (fun _ _ => trivial)
    (fun _ => ⟨_, rfl⟩) fun _ _ => rfl).bind fun initialized => outline_loadHart.bind fun hart =>
      .pure fun hhart => (outline_loadTask hx).bind fun task => .pure ?_
  rintro ⟨rfl, -⟩
  rw [hcpu]
  simp only
  split
  · exact hrefuse
  split
  · exact hrefuse
  refine outline_loadHart.bind fun owner => .pure fun howner => ?_
  rw [howner.delay]
  simp only
  split
  · exact hrefuse
  · exact (outline_delayUntil hx hidle hL _).post fun _ _ _ _ hq => .inr hq

/-- A sleeper that is due, or none. -/
def Expired (solo : Prop) (h : HartIndex) (S : Holding) (n : ℕ) (b : Option TaskRef) (k : Kernel)
    (loc : Loc) : Prop :=
  (b = none ∧ At solo h S (SleepersBelow h (n + 1)) k loc) ∨
    ∃ t x, (b = some t ∧ x.state = .blockedSleep ∧ x.idle = false ∧ S.tasks t = none) ∧
      At solo h (S.hold t x) (SleepersBelow h n) k loc

theorem outline_removeExpired_locked (hL : Leaf S) (now : Word) (n : ℕ) :
    Outline solo legal h (locked (.delayQueue h) (perform (.delayQueueRemoveExpired h now)))
      (At solo h S (SleepersBelow h (n + 1))) (Expired solo h S n) := by
  refine outline_locked (outline_acquire (hL.delay h) fun _ _ _ hf => hf)
    (outline_delayQueueRemoveExpired now) fun b => .or (.pure fun hb => ?_)
      (.exists fun t => .exists fun x => .pure fun hb => ?_)
  · exact (outline_release rfl (hL.delay h) (fun _ _ hf => hf) fun hh => nomatch hh).post
      fun _ _ _ _ hat => .inl ⟨hb, hat⟩
  · exact (outline_release rfl (hL.delay h) (fun _ _ hf => hf) fun hh => nomatch hh).post
      fun _ _ _ _ hat => .inr ⟨t, x, hb, hat⟩

/-- Every round of the loop takes a sleeper out of the delay queue. -/
theorem outline_releaseExpired (hL : Leaf S) (clock : Clock) (n : ℕ) :
    Outline solo legal h (releaseExpired h clock n) (At solo h S (SleepersBelow h n)) fun _ =>
      Holds solo h S := by
  induction n with
  | zero =>
    -- No delay queue has fewer than zero tasks.
    refine Valid.perform (fun k loc _ hat => absurd hat.frame (Nat.not_lt_zero _))
      fun _ => At.stable S _
  | succ n ih =>
    refine (outline_removeExpired_locked hL clock.release n).bind fun b => ?_
    refine .or (.pure ?_) (.exists fun t => .exists fun x => .pure ?_)
    · rintro rfl
      exact .ret fun _ _ _ hat => hat.imp trivial
    · rintro ⟨rfl, hstate, hidle, hnone⟩
      refine (outline_setStateInfo (Holding.hold_self ..) 0).bind fun _ => ?_
      rw [Holding.hold_hold]
      set y : Task := { x with stateInfo := 0 }
      have hready : y.state ≠ .ended := by
        rw [show y.state = x.state from rfl, hstate]
        exact TaskState.noConfusion
      have hadd : Outline solo legal h (addTask t) (At solo h (S.hold t y) (SleepersBelow h n)) _ :=
        outline_addTask (Holding.hold_self ..) hidle hready ⟨hL.run, hL.delay⟩
      rw [Holding.hold_drop, Holding.drop_none hnone] at hadd
      exact hadd.bind fun b => .pure fun hb => (outline_parkUnless hb).bind fun _ =>
        ih.pre fun k loc _ hat => hat.1

theorem outline_checkReleaseTasks (hL : Leaf S) (clock : Clock) :
    Outline solo legal h (checkReleaseTasks h clock) (Holds solo h S) fun _ => Holds solo h S := by
  refine outline_loadHart.bind fun hart => .pure fun hhart => ?_
  rw [hhart.delay]
  refine (outline_releaseExpired hL clock _).pre fun k loc _ hat => hat.imp ?_
  refine Nat.lt_succ_of_le ((Finset.card_filter_le _ _).trans ?_)
  rw [Finset.card_univ, Fintype.card_fin]

/-! ### Arming the timer -/

theorem outline_armCurrentTimeslice [Frame h S.locks F] (hc : S.current = some t)
    (hx : S.tasks t = some x) (hL : Leaf S) (clock : Clock) :
    Outline solo legal h (armCurrentTimeslice h clock) (At solo h S F) fun _ =>
      At solo h S F := by
  refine outline_loadHart.bind fun hart => .pure fun hhart => ?_
  have hticks : Outline solo legal h (currentTicks hart clock) (At solo h S F) fun _ =>
      At solo h S F := by
    rw [currentTicks, hhart.current, hc]
    refine (outline_loadTask hx).bind fun task => .pure fun _ => ?_
    split
    · rw [idleTicks, hhart.delay]
      exact outline_ticksUntilNext hL _ _
    · exact .ret fun _ _ _ hat => hat
  exact hticks.bind fun ticks => outline_setCompare _

end Jixia
