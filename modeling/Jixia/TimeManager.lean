/-
The arithmetic of the time manager.

A duration becomes a number of ticks, a number of ticks a deadline, and the earliest
deadline the value of the timer.  Every step is 64-bit arithmetic with a guard in front
of it; this module says what the guards buy, over the natural numbers.

* `durationToTicks_toNat`, `durationToTicksChecked_eq` — a duration is converted exactly or
  refused, and no operation on the way overflows;
* `delayTask_run` — a task that sleeps is queued with its exact deadline, and a refusal
  changes nothing;
* `sliceDeadline_toNat`, `armCurrentTimeslice_run` — the value of the timer;
* `IdleYields.compare_le` — yields of the idle task leave the timer in front of the sleepers.
-/
import Jixia.EndpointTraps
import Jixia.Ownership

namespace Jixia

open Proc KProc Function Kernel

/-- The last instant that the clock can show. -/
abbrev kEndOfTime : ℕ := 18446744073709551615

/-! ### Durations -/

/-- The ticks of a duration, rounded up to the next tick of 100 ns. -/
def ticksOf (seconds nanoseconds : ℕ) : ℕ := seconds * 10000000 + (nanoseconds + 99) / 100

/-- The duration is not one that can be slept. -/
def Unrepresentable (seconds nanoseconds : Word) : Prop :=
  1000000000 ≤ nanoseconds.toNat ∨ kEndOfTime < ticksOf seconds.toNat nanoseconds.toNat

namespace Checked

/-- Sum, unless it overflows. -/
def add (a b : Word) : Option Word := if BitVec.uaddOverflow a b then none else some (a + b)

/-- Difference, unless it wraps below zero. -/
def sub (a b : Word) : Option Word := if BitVec.usubOverflow a b then none else some (a - b)

/-- Product, unless it overflows. -/
def mul (a b : Word) : Option Word := if BitVec.umulOverflow a b then none else some (a * b)

variable {a b : Word}

theorem add_eq (h : a.toNat + b.toNat ≤ kEndOfTime) : add a b = some (a + b) := by
  have hno : BitVec.uaddOverflow a b = false := by
    rw [BitVec.uaddOverflow, decide_eq_false_iff_not]
    rw [kEndOfTime] at h
    omega
  rw [add, hno, if_neg Bool.false_ne_true]

theorem sub_eq (h : b.toNat ≤ a.toNat) : sub a b = some (a - b) := by
  have hno : BitVec.usubOverflow a b = false := by
    rw [BitVec.usubOverflow, decide_eq_false_iff_not]
    omega
  rw [sub, hno, if_neg Bool.false_ne_true]

theorem mul_eq (h : a.toNat * b.toNat ≤ kEndOfTime) : mul a b = some (a * b) := by
  have hno : BitVec.umulOverflow a b = false := by
    rw [BitVec.umulOverflow, decide_eq_false_iff_not]
    rw [kEndOfTime] at h
    omega
  rw [mul, hno, if_neg Bool.false_ne_true]

end Checked

/-- `TimeManager::duration_to_ticks`, stopping at the first operation that overflows. -/
def durationToTicksChecked (seconds nanoseconds : Word) : Option Word :=
  if kNanosecondsPerSecond ≤ nanoseconds then some 0
  else if seconds > BitVec.allOnes 64 / kFrequencyHz then some 0
  else
    (Checked.mul seconds kFrequencyHz).bind fun secondsTicks =>
    (Checked.mul nanoseconds kFrequencyHz).bind fun product =>
    (Checked.add product kNanosecondsPerSecond).bind fun sum =>
    (Checked.sub sum 1).bind fun rounded =>
    let nanosecondsTicks := rounded / kNanosecondsPerSecond
    (Checked.sub (BitVec.allOnes 64) nanosecondsTicks).bind fun room =>
    if secondsTicks > room then some 0
    else
      (Checked.add secondsTicks nanosecondsTicks).bind fun ticks =>
      some (if ticks == 0 then 1 else ticks)

section Durations

variable {seconds nanoseconds : Word}

theorem allOnes_toNat : (BitVec.allOnes 64).toNat = kEndOfTime := rfl

theorem frequency_toNat : kFrequencyHz.toNat = 10000000 := rfl

theorem nanosecondsPerSecond_toNat : kNanosecondsPerSecond.toNat = 1000000000 := rfl

theorem kNanosecondsPerSecond_le_iff :
    kNanosecondsPerSecond ≤ nanoseconds ↔ 1000000000 ≤ nanoseconds.toNat := Iff.rfl

theorem lt_seconds_iff :
    seconds > BitVec.allOnes 64 / kFrequencyHz ↔ 1844674407370 < seconds.toNat := Iff.rfl

/-- The product of the seconds fits when the guard lets it pass. -/
theorem secondsTicks_toNat (hs : seconds.toNat ≤ 1844674407370) :
    (seconds * kFrequencyHz).toNat = seconds.toNat * 10000000 := by
  rw [BitVec.toNat_mul, frequency_toNat]
  omega

theorem product_toNat (hn : nanoseconds.toNat < 1000000000) :
    (nanoseconds * kFrequencyHz).toNat = nanoseconds.toNat * 10000000 := by
  rw [BitVec.toNat_mul, frequency_toNat]
  omega

theorem sum_toNat (hn : nanoseconds.toNat < 1000000000) :
    (nanoseconds * kFrequencyHz + kNanosecondsPerSecond).toNat =
      nanoseconds.toNat * 10000000 + 1000000000 := by
  rw [BitVec.toNat_add, product_toNat hn, nanosecondsPerSecond_toNat]
  omega

theorem rounded_toNat (hn : nanoseconds.toNat < 1000000000) :
    (nanoseconds * kFrequencyHz + kNanosecondsPerSecond - 1).toNat =
      nanoseconds.toNat * 10000000 + 999999999 := by
  have h1 : (1 : Word).toNat = 1 := rfl
  rw [BitVec.toNat_sub, sum_toNat hn, h1]
  omega

/-- The nanoseconds are rounded up to ticks of 100 ns. -/
theorem nanosecondsTicks_toNat (hn : nanoseconds.toNat < 1000000000) :
    ((nanoseconds * kFrequencyHz + kNanosecondsPerSecond - 1) / kNanosecondsPerSecond).toNat =
      (nanoseconds.toNat + 99) / 100 := by
  rw [BitVec.toNat_udiv, rounded_toNat hn, nanosecondsPerSecond_toNat]
  omega

theorem room_toNat (hn : nanoseconds.toNat < 1000000000) :
    (BitVec.allOnes 64 - (nanoseconds * kFrequencyHz + kNanosecondsPerSecond - 1) /
      kNanosecondsPerSecond).toNat = kEndOfTime - (nanoseconds.toNat + 99) / 100 := by
  rw [BitVec.toNat_sub, nanosecondsTicks_toNat hn, allOnes_toNat, kEndOfTime]
  omega

/-- The last guard is passed when the ticks can be represented. -/
theorem lt_room_iff (hs : seconds.toNat ≤ 1844674407370) (hn : nanoseconds.toNat < 1000000000) :
    seconds * kFrequencyHz > BitVec.allOnes 64 -
      (nanoseconds * kFrequencyHz + kNanosecondsPerSecond - 1) / kNanosecondsPerSecond ↔
    kEndOfTime < ticksOf seconds.toNat nanoseconds.toNat := by
  rw [gt_iff_lt, BitVec.lt_def, secondsTicks_toNat hs, room_toNat hn, ticksOf, kEndOfTime]
  omega

theorem ticks_toNat (hs : seconds.toNat ≤ 1844674407370) (hn : nanoseconds.toNat < 1000000000)
    (hfit : ticksOf seconds.toNat nanoseconds.toNat ≤ kEndOfTime) :
    (seconds * kFrequencyHz + (nanoseconds * kFrequencyHz + kNanosecondsPerSecond - 1) /
      kNanosecondsPerSecond).toNat = ticksOf seconds.toNat nanoseconds.toNat := by
  rw [BitVec.toNat_add, secondsTicks_toNat hs, nanosecondsTicks_toNat hn]
  rw [ticksOf, kEndOfTime] at hfit
  rw [ticksOf]
  omega

/-- A sleep of no length lasts one tick. -/
theorem clamp_toNat (ticks : Word) :
    (if ticks == 0 then 1 else ticks).toNat = max 1 ticks.toNat := by
  by_cases h0 : ticks = 0
  · subst h0
    rfl
  · have hpos : ticks.toNat ≠ 0 := fun hz => h0 (BitVec.eq_of_toNat_eq hz)
    rw [if_neg (by simpa using h0)]
    omega

/-- **A duration that can be slept is converted exactly.** -/
theorem durationToTicks_toNat (h : ¬ Unrepresentable seconds nanoseconds) :
    (durationToTicks seconds nanoseconds).toNat =
      max 1 (ticksOf seconds.toNat nanoseconds.toNat) := by
  rw [Unrepresentable, not_or, Nat.not_le, Nat.not_lt] at h
  obtain ⟨hn, hfit⟩ := h
  have hs : seconds.toNat ≤ 1844674407370 := by
    rw [ticksOf, kEndOfTime] at hfit
    omega
  rw [durationToTicks, if_neg fun hle => by rw [kNanosecondsPerSecond_le_iff] at hle; omega,
    if_neg fun hgt => by rw [lt_seconds_iff] at hgt; omega]
  dsimp only
  rw [if_neg fun hgt => by rw [lt_room_iff hs hn] at hgt; omega, clamp_toNat,
    ticks_toNat hs hn hfit]

/-- Any other one is refused. -/
theorem durationToTicks_eq_zero (h : Unrepresentable seconds nanoseconds) :
    durationToTicks seconds nanoseconds = 0 := by
  rw [durationToTicks]
  by_cases hn : kNanosecondsPerSecond ≤ nanoseconds
  · exact if_pos hn
  · rw [if_neg hn]
    by_cases hs : seconds > BitVec.allOnes 64 / kFrequencyHz
    · exact if_pos hs
    · rw [if_neg hs]
      rw [kNanosecondsPerSecond_le_iff, Nat.not_le] at hn
      rw [lt_seconds_iff, Nat.not_lt] at hs
      refine if_pos ((lt_room_iff hs hn).mpr ?_)
      rcases h with h | h
      · omega
      · exact h

theorem durationToTicks_eq_zero_iff :
    durationToTicks seconds nanoseconds = 0 ↔ Unrepresentable seconds nanoseconds := by
  refine ⟨fun h0 => ?_, durationToTicks_eq_zero⟩
  by_contra hrep
  have htoNat := durationToTicks_toNat hrep
  rw [h0] at htoNat
  have : (0 : Word).toNat = 0 := rfl
  omega

/-- **No operation of the conversion overflows.** -/
theorem durationToTicksChecked_eq :
    durationToTicksChecked seconds nanoseconds = some (durationToTicks seconds nanoseconds) := by
  rw [durationToTicksChecked, durationToTicks]
  by_cases hn : kNanosecondsPerSecond ≤ nanoseconds
  · rw [if_pos hn, if_pos hn]
  · rw [if_neg hn, if_neg hn]
    by_cases hs : seconds > BitVec.allOnes 64 / kFrequencyHz
    · rw [if_pos hs, if_pos hs]
    · rw [if_neg hs, if_neg hs]
      rw [kNanosecondsPerSecond_le_iff, Nat.not_le] at hn
      rw [lt_seconds_iff, Nat.not_lt] at hs
      have hmul : Checked.mul seconds kFrequencyHz = some (seconds * kFrequencyHz) :=
        Checked.mul_eq (by rw [frequency_toNat, kEndOfTime]; omega)
      have hprod : Checked.mul nanoseconds kFrequencyHz = some (nanoseconds * kFrequencyHz) :=
        Checked.mul_eq (by rw [frequency_toNat, kEndOfTime]; omega)
      have hsum : Checked.add (nanoseconds * kFrequencyHz) kNanosecondsPerSecond =
          some (nanoseconds * kFrequencyHz + kNanosecondsPerSecond) :=
        Checked.add_eq (by
          rw [product_toNat hn, nanosecondsPerSecond_toNat, kEndOfTime]
          omega)
      have hone : Checked.sub (nanoseconds * kFrequencyHz + kNanosecondsPerSecond) 1 =
          some (nanoseconds * kFrequencyHz + kNanosecondsPerSecond - 1) :=
        Checked.sub_eq (by
          rw [sum_toNat hn, show (1 : Word).toNat = 1 from rfl]
          omega)
      rw [hmul, Option.bind_some, hprod, Option.bind_some, hsum, Option.bind_some, hone,
        Option.bind_some]
      have hpart := nanosecondsTicks_toNat hn
      have hfit := lt_room_iff hs hn
      generalize (nanoseconds * kFrequencyHz + kNanosecondsPerSecond - 1) /
        kNanosecondsPerSecond = part at hpart hfit ⊢
      have hroom : Checked.sub (BitVec.allOnes 64) part = some (BitVec.allOnes 64 - part) :=
        Checked.sub_eq (by
          rw [hpart, allOnes_toNat, kEndOfTime]
          omega)
      dsimp only
      rw [hroom, Option.bind_some]
      by_cases hgt : seconds * kFrequencyHz > BitVec.allOnes 64 - part
      · rw [if_pos hgt, if_pos hgt]
      · rw [if_neg hgt, if_neg hgt]
        have hadd : Checked.add (seconds * kFrequencyHz) part =
            some (seconds * kFrequencyHz + part) :=
          Checked.add_eq (by
            rw [hfit, ticksOf] at hgt
            rw [secondsTicks_toNat hs, hpart]
            omega)
        rw [hadd, Option.bind_some]

end Durations

/-! ### Sleeping -/

/-- The task waits for an instant. -/
def Kernel.blockedUntil (k : Kernel) (t : TaskRef) (deadline : Word) : Kernel :=
  k.modifyTask t fun task => { task with state := .blockedSleep, stateInfo := deadline }

/-- The kernel after `t` went to sleep in the queue `q`, which was the list `l`: it stands
behind every deadline that is not later. -/
def Kernel.asleep (k : Kernel) (q : HartIndex) (t : TaskRef) (deadline : Word)
    (l : List TaskRef) : Kernel :=
  (k.blockedUntil t deadline).delayed q t deadline
    (l.takeWhile fun u => k.deadline u ≤ deadline) (l.dropWhile fun u => k.deadline u ≤ deadline)

section Sleeping

variable {legal : Prop} {k k' : Kernel} {loc : Loc} {h q : HartIndex} {t : TaskRef}
  {d : HartIndex → List TaskRef} {deadline seconds nanoseconds : Word}

theorem blockedUntil_delay (u : TaskRef) :
    ((k.blockedUntil t deadline).tasks u).delay = (k.tasks u).delay := by
  rw [blockedUntil, modifyTask_tasks]
  by_cases hu : u = t
  · subst hu
    rw [update_self]
  · rw [update_of_ne hu]

theorem blockedUntil_self : (k.blockedUntil t deadline).tasks t =
    { k.tasks t with state := .blockedSleep, stateInfo := deadline } := update_self ..

theorem delayLists_blockedUntil (hd : DelayLists k d) : DelayLists (k.blockedUntil t deadline) d :=
  hd.congr rfl blockedUntil_delay

/-- A task that is in no queue is never refused by the delay queue. -/
theorem delayUntil_run (hd : DelayLists k d) (hqueued : (k.tasks t).queued = false)
    (hdelay : (k.tasks t).delay.queued = false) (hfree : k.locks (.delayQueue q) = none) :
    (delayUntil t q deadline).run (exec h) k = .ok true (k.asleep q t deadline (d q)) := by
  have hstate : ((k.modifyTask t fun task => { task with state := .blockedSleep }).modifyTask t
      fun task => { task with stateInfo := deadline }) = k.blockedUntil t deadline := by
    rw [blockedUntil, modifyTask, modifyTask, modifyTask]
    simp only [update_self, update_idem]
  have hd' : DelayLists ((k.blockedUntil t deadline).setLock (.delayQueue q) (some h)) d :=
    (delayLists_blockedUntil hd).congr rfl fun _ => rfl
  have hinsert := @DelayLists.delayQueueInsert_eq _ _ q t deadline hd' (by
    rw [setLock_tasks, blockedUntil_self]
    simp only [hqueued, hdelay]
    rfl)
  have hsame : ∀ u, ((k.blockedUntil t deadline).setLock (.delayQueue q) (some h)).deadline u =
      k.deadline u := fun u => congrArg DelayNode.deadline (blockedUntil_delay u)
  simp only [hsame] at hinsert
  have hlocked : (locked (.delayQueue q) (perform (.delayQueueInsert q t deadline))).run (exec h)
      (k.blockedUntil t deadline) = .ok true (k.asleep q t deadline (d q)) := by
    have hbody : (perform (.delayQueueInsert q t deadline) : KProc Bool).run (exec h)
        ((k.blockedUntil t deadline).setLock (.delayQueue q) (some h)) =
        .ok true ((k.asleep q t deadline (d q)).setLock (.delayQueue q) (some h)) :=
      run_act_ok hinsert
    have hfree1 : (k.blockedUntil t deadline).locks (.delayQueue q) = none := hfree
    have hfree2 : (k.asleep q t deadline (d q)).locks (.delayQueue q) = none := hfree
    rw [locked_ok hfree1 hbody, setLock_restore hfree2]
  rw [delayUntil, run_perform_ok rfl, run_perform_ok rfl, hstate, run_bind_ok hlocked]
  rfl

/-- **What `delay_task` does for the current task.**  It is refused before anything is
written, or it is queued with the exact deadline. -/
theorem delayTask_run {c : HartIndex} (hd : DelayLists k d) (hqueued : (k.tasks t).queued = false)
    (hdelay : (k.tasks t).delay.queued = false) (hfree : k.locks (.delayQueue q) = none)
    (hinit : k.timeManagerInitialized = true) (hcur : (k.harts h).currentTask = some t)
    (hcpu : (k.tasks t).cpu = some c) (hlist : (k.harts c).delayList = some q) (clock : Clock) :
    (delayTask h t seconds nanoseconds clock).run (exec h) k =
      if durationToTicks seconds nanoseconds ≠ 0 ∧
          clock.delay.toNat + (durationToTicks seconds nanoseconds).toNat ≤ kEndOfTime then
        .ok true (k.asleep q t (clock.delay + durationToTicks seconds nanoseconds) (d q))
      else .ok false k := by
  generalize hticks : durationToTicks seconds nanoseconds = ticks
  rw [delayTask, run_perform_ok rfl, run_perform_ok rfl, run_perform_ok rfl, hcpu, hinit, hcur]
  simp only [hticks, Bool.not_true, bne_self_eq_false, Bool.or_self, Bool.false_eq_true, if_false]
  by_cases h0 : ticks = 0
  · rw [if_pos (beq_iff_eq.mpr h0), if_neg fun hand => hand.1 h0]
    rfl
  · rw [if_neg fun hz => h0 (beq_iff_eq.mp hz), run_perform_ok rfl, hlist]
    -- The guard in front of the sum is the one over the natural numbers.
    have hguard : clock.delay > BitVec.allOnes 64 - ticks ↔
        ¬ clock.delay.toNat + ticks.toNat ≤ kEndOfTime := by
      have hlt := ticks.isLt
      rw [gt_iff_lt, BitVec.lt_def, BitVec.toNat_sub, allOnes_toNat, kEndOfTime]
      omega
    by_cases hroom : clock.delay.toNat + ticks.toNat ≤ kEndOfTime
    · rw [if_pos ⟨h0, hroom⟩]
      dsimp only
      rw [if_neg fun hgt => hguard.mp hgt hroom, delayUntil_run hd hqueued hdelay hfree]
    · rw [if_neg fun hand => hroom hand.2]
      dsimp only
      rw [if_pos (hguard.mpr hroom)]
      rfl

/-- Between `k` and `k'` the task was put to sleep until the instant `deadline`: into the
delay queue of its hart, behind every deadline that is not later. -/
structure Slept (k : Kernel) (t : TaskRef) (deadline : ℕ) (k' : Kernel) : Prop where
  state : (k'.tasks t).state = .blockedSleep
  due : (k'.deadline t).toNat = deadline
  info : (k'.tasks t).stateInfo = k'.deadline t
  queue : ∃ q d l1 l2, (k.tasks t).cpu = some q ∧ DelayLists k d ∧ d q = l1 ++ l2 ∧
    (∀ u ∈ l1, (k.deadline u).toNat ≤ deadline) ∧ (∀ u ∈ l2, deadline < (k.deadline u).toNat) ∧
    DelayLists k' (update d q (l1 ++ t :: l2))

theorem asleep_slept (hd : DelayLists k d) (hdelay : (k.tasks t).delay.queued = false)
    (hcpu : (k.tasks t).cpu = some q) :
    Slept k t deadline.toNat (k.asleep q t deadline (d q)) := by
  have hself : (k.asleep q t deadline (d q)).deadline t = deadline := if_pos rfl
  have hrecord : ((k.asleep q t deadline (d q)).tasks t).state = .blockedSleep ∧
      ((k.asleep q t deadline (d q)).tasks t).stateInfo = deadline := by
    have htask := @blockedUntil_self k t deadline
    exact ⟨congrArg Task.state htask, congrArg Task.stateInfo htask⟩
  refine ⟨hrecord.1, by rw [hself], hrecord.2.trans hself.symm, q, d, _, _, hcpu, hd,
    List.takeWhile_append_dropWhile.symm, fun u hu => ?_, fun u hu => hd.lt_of_mem_dropWhile hu, ?_⟩
  · have hle := List.mem_takeWhile_imp hu
    exact of_decide_eq_true hle
  · have hsame : ∀ u, (k.blockedUntil t deadline).deadline u = k.deadline u :=
      fun u => congrArg DelayNode.deadline (blockedUntil_delay u)
    have hnot : ((k.blockedUntil t deadline).tasks t).delay.queued = false :=
      (congrArg DelayNode.queued (blockedUntil_delay t)).trans hdelay
    have hlists := @DelayLists.delayed _ _ q t deadline (delayLists_blockedUntil hd) hnot
    simp only [hsame] at hlists
    exact hlists

end Sleeping

/-- **Sleep durations are converted exactly or refused.**  The conversion never overflows;
the current task goes to sleep exactly when its deadline can be represented, and a call
that is refused leaves the executive as it was. -/
theorem sleep_exact_or_refused (seconds nanoseconds : Word) :
    ((durationToTicks seconds nanoseconds = 0 ↔ Unrepresentable seconds nanoseconds) ∧
      (¬ Unrepresentable seconds nanoseconds → (durationToTicks seconds nanoseconds).toNat =
        max 1 (ticksOf seconds.toNat nanoseconds.toNat)) ∧
      durationToTicksChecked seconds nanoseconds = some (durationToTicks seconds nanoseconds)) ∧
    ∀ {legal : Prop} {platform : Platform} {count : ℕ} {k : Kernel} {h : HartIndex} {t : TaskRef}
      (clock : Clock), Run legal platform count k → (k.harts h).currentTask = some t →
      k.timeManagerInitialized = true →
      let ticks := (durationToTicks seconds nanoseconds).toNat
      let result := (delayTask h t seconds nanoseconds clock).run (exec h) k
      (ticks ≠ 0 ∧ clock.delay.toNat + ticks ≤ kEndOfTime →
        ∃ k', result = .ok true k' ∧ Slept k t (clock.delay.toNat + ticks) k') ∧
      (¬ (ticks ≠ 0 ∧ clock.delay.toNat + ticks ≤ kEndOfTime) → result = .ok false k) := by
  refine ⟨⟨durationToTicks_eq_zero_iff, durationToTicks_toNat, durationToTicksChecked_eq⟩, ?_⟩
  intro legal platform count k h t clock hr hcur hinit
  obtain ⟨loc, hq⟩ := hr.quiescent
  obtain ⟨i, ⟨-, hcpu⟩, hat⟩ := (hq.rest h).caller hcur
  have hown : loc t = some (.own h) := (hat.owned t _ (Holding.caller_self i t _)).1
  obtain ⟨d, hd, -⟩ := hq.inv.queues.delay
  obtain ⟨hqueued, hdelay, -⟩ := hq.inv.unqueued_of_own hown
  obtain ⟨j, hj, hsched⟩ := (hq.inv.placed t _ hown).cpu
  obtain rfl : h = j := Option.some.inj (hcpu.symm.trans hj)
  have hrun : (delayTask h t seconds nanoseconds clock).run (exec h) k = _ :=
    delayTask_run hd hqueued hdelay (hq.unlocked _) hinit hcur hcpu
      ((hq.inv.hart h).queues hsched).2 clock
  have hzero : durationToTicks seconds nanoseconds ≠ 0 ↔
      (durationToTicks seconds nanoseconds).toNat ≠ 0 :=
    not_congr ⟨fun h0 => congrArg BitVec.toNat h0, fun h0 => BitVec.eq_of_toNat_eq h0⟩
  simp only [hzero] at hrun
  refine ⟨fun hcond => ?_, fun hcond => by rw [if_neg hcond] at hrun; exact hrun⟩
  rw [if_pos hcond] at hrun
  refine ⟨_, hrun, ?_⟩
  have hsum : (clock.delay + durationToTicks seconds nanoseconds).toNat =
      clock.delay.toNat + (durationToTicks seconds nanoseconds).toNat := by
    have hle := hcond.2
    rw [kEndOfTime] at hle
    rw [BitVec.toNat_add]
    omega
  rw [← hsum]
  exact asleep_slept hd hdelay hcpu

/-- The initial task sleeps for a second and a half. -/
theorem sleep_exact_or_refused_sample :
    ∃ k', (delayTask 0 1 1 500000000 .zero).run (exec 0) sampleBoot = .ok true k' ∧
      Slept sampleBoot 1 15000000 k' :=
  ((sleep_exact_or_refused 1 500000000).2 .zero
    (.boot sampleBoot_eq : Run True .sample 1 sampleBoot) (by decide +kernel)
    (by decide +kernel)).1 (by decide +kernel)

/-! ### Slices -/

/-- The instants at which the tasks of a queue are due. -/
def Kernel.deadlines (k : Kernel) (l : List TaskRef) : List ℕ := l.map fun t => (k.deadline t).toNat

/-- What the timer is set to at the instant `now` while the idle task is current and
`earliest` is the earliest deadline. -/
def idleDeadline (now : ℕ) : Option ℕ → ℕ
  | none => min kEndOfTime (now + 1000000)
  | some earliest => min kEndOfTime (min (now + 1000000) (max (now + 1) earliest))

/-- What it is set to for a task with a slice of `ticks`. -/
def taskDeadline (now ticks : ℕ) : ℕ := min kEndOfTime (now + max 1 ticks)

section Slices

variable {k k' : Kernel} {h q : HartIndex} {d : HartIndex → List TaskRef} {now ticks : Word}

/-- **The deadline of a slice saturates.** -/
theorem sliceDeadline_toNat (now ticks : Word) :
    (sliceDeadline now ticks).toNat = taskDeadline now.toNat ticks.toNat := by
  rw [sliceDeadline, taskDeadline, ← clamp_toNat ticks]
  generalize hclamp : (if ticks == 0 then 1 else ticks) = slice
  have hpos : slice.toNat = max 1 ticks.toNat := by rw [← hclamp, clamp_toNat]
  have hnow := now.isLt
  have hguard : now > BitVec.allOnes 64 - slice ↔ kEndOfTime < now.toNat + slice.toNat := by
    rw [gt_iff_lt, BitVec.lt_def, BitVec.toNat_sub, allOnes_toNat, kEndOfTime]
    omega
  by_cases hgt : now > BitVec.allOnes 64 - slice
  · rw [if_pos hgt, allOnes_toNat]
    have := hguard.mp hgt
    omega
  · rw [if_neg hgt, BitVec.toNat_add]
    have hle := Nat.not_lt.mp (hguard.not.mp hgt)
    rw [kEndOfTime] at hle ⊢
    omega

/-- The head of a delay queue is the task with the earliest deadline. -/
theorem DelayLists.min_deadlines (hd : DelayLists k d) (q : HartIndex) :
    (k.deadlines (d q)).min? = (k.delayQueues q).map fun t => (k.deadline t).toNat := by
  rw [(hd.family.holds q).head_eq]
  have hsorted := hd.sorted q
  generalize d q = l at hsorted ⊢
  cases l with
  | nil => rfl
  | cons t l =>
    rw [List.pairwise_cons] at hsorted
    refine List.min?_eq_some_iff.mpr ⟨List.mem_cons_self, fun b hb => ?_⟩
    rw [deadlines, List.mem_map] at hb
    obtain ⟨u, hu, rfl⟩ := hb
    rcases List.mem_cons.mp hu with rfl | hu
    · exact Nat.le_refl _
    · exact hsorted.1 u hu

theorem idleTimesliceTicks_toNat : kIdleTimesliceTicks.toNat = 1000000 := rfl

/-- The slice of the idle task ends with the earliest deadline. -/
theorem taskDeadline_ticksUntilNext (hd : DelayLists k d) (now : Word) :
    taskDeadline now.toNat (k.delayQueueTicksUntilNext q now kIdleTimesliceTicks).toNat =
      idleDeadline now.toNat (k.deadlines (d q)).min? := by
  rw [hd.min_deadlines, delayQueueTicksUntilNext]
  cases k.delayQueues q with
  | none =>
    simp only [Option.map_none, idleDeadline, taskDeadline, idleTimesliceTicks_toNat]
    omega
  | some t =>
    simp only [Option.map_some, idleDeadline, taskDeadline]
    change min _ (_ + max 1 (if k.deadline t ≤ now then (1 : Word)
      else if k.deadline t - now < kIdleTimesliceTicks then k.deadline t - now
        else kIdleTimesliceTicks).toNat) = _
    generalize k.deadline t = deadline
    have hone : (1 : Word).toNat = 1 := rfl
    by_cases hdue : deadline ≤ now
    · rw [if_pos hdue, hone]
      rw [BitVec.le_def] at hdue
      omega
    · rw [if_neg hdue]
      rw [BitVec.le_def, Nat.not_le] at hdue
      have hdiff : (deadline - now).toNat = deadline.toNat - now.toNat :=
        BitVec.toNat_sub_of_le (Nat.le_of_lt hdue)
      by_cases hshort : deadline - now < kIdleTimesliceTicks
      · rw [if_pos hshort, hdiff]
        rw [BitVec.lt_def, hdiff, idleTimesliceTicks_toNat] at hshort
        omega
      · rw [if_neg hshort, idleTimesliceTicks_toNat]
        rw [BitVec.lt_def, hdiff, idleTimesliceTicks_toNat] at hshort
        omega

/-- The current task of the hart is an idle task. -/
def Kernel.idles (k : Kernel) (h : HartIndex) : Bool :=
  match (k.harts h).currentTask with
  | none => false
  | some t => (k.tasks t).idle

/-- The slice of the current task. -/
def Kernel.currentSlice (k : Kernel) (h q : HartIndex) (now : Word) : Word :=
  if k.idles h then k.delayQueueTicksUntilNext q now kIdleTimesliceTicks
  else (k.harts h).timesliceTicks

/-- The timer of the hart is set. -/
def Kernel.armed (k : Kernel) (h : HartIndex) (value : Word) : Kernel :=
  k.modifyHart h fun hart => { hart with compare := value }

/-- The choice of the slice reads the state and leaves it. -/
theorem currentTicks_run (hlist : k.idles h = true → (k.harts h).delayList = some q ∧
      k.locks (.delayQueue q) = none) (clock : Clock) :
    (currentTicks (k.harts h) clock).run (exec h) k =
      .ok (k.currentSlice h q clock.arm) k := by
  rw [currentSlice]
  rw [idles] at hlist ⊢
  rw [currentTicks]
  cases hcur : (k.harts h).currentTask with
  | none => rfl
  | some t =>
    rw [hcur] at hlist
    simp only [run_perform_ok (show exec h (.loadTask t) k = .ok (k.tasks t) k from rfl)]
    by_cases hidle : (k.tasks t).idle = true
    · obtain ⟨hq, hfree⟩ := hlist hidle
      rw [if_pos hidle, if_pos hidle, idleTicks, hq]
      exact locked_same hfree rfl
    · rw [if_neg hidle, if_neg hidle]
      rfl

/-- **What `arm_current_timeslice` does.** -/
theorem armCurrentTimeslice_run (hlist : k.idles h = true → (k.harts h).delayList = some q ∧
      k.locks (.delayQueue q) = none) (clock : Clock) :
    (armCurrentTimeslice h clock).run (exec h) k =
      .ok () (k.armed h (sliceDeadline clock.arm (k.currentSlice h q clock.arm))) := by
  rw [armCurrentTimeslice, run_perform_ok rfl, run_bind_ok (currentTicks_run hlist clock)]
  rfl

/-- The idle task is armed only where there is a delay queue, and its lock is free. -/
theorem armCurrentTimeslice_free {clock : Clock} (hidle : k.idles h = true)
    (hr : (armCurrentTimeslice h clock).run (exec h) k = .ok () k') :
    ∃ q, (k.harts h).delayList = some q ∧ k.locks (.delayQueue q) = none := by
  rw [armCurrentTimeslice, run_perform_ok rfl] at hr
  obtain ⟨ticks, k1, hr, -⟩ := run_bind_inv hr
  rw [idles] at hidle
  rw [currentTicks] at hr
  cases hcur : (k.harts h).currentTask with
  | none =>
    rw [hcur] at hidle
    cases hidle
  | some t =>
    rw [hcur] at hidle hr
    simp only [run_perform_ok (show exec h (.loadTask t) k = .ok (k.tasks t) k from rfl)] at hr
    rw [if_pos hidle, idleTicks] at hr
    cases hq : (k.harts h).delayList with
    | none =>
      rw [hq] at hr
      cases hr
    | some q =>
      rw [hq] at hr
      refine ⟨q, rfl, ?_⟩
      obtain ⟨_, k2, hacq, -⟩ := run_perform_inv hr
      simp only [exec, acquire] at hacq
      split at hacq
      · assumption
      · cases hacq

/-- The arming changes the record of its hart only. -/
theorem armCurrentTimeslice_armed {clock : Clock}
    (hr : (armCurrentTimeslice h clock).run (exec h) k = .ok () k') :
    ∃ value, k' = k.armed h value := by
  by_cases hidle : k.idles h = true
  · obtain ⟨q, hq, hfree⟩ := armCurrentTimeslice_free hidle hr
    rw [armCurrentTimeslice_run fun _ => ⟨hq, hfree⟩] at hr
    cases hr
    exact ⟨_, rfl⟩
  · rw [armCurrentTimeslice_run (q := h) fun hid => absurd hid hidle] at hr
    cases hr
    exact ⟨_, rfl⟩

end Slices

/-! ### Yields of the idle task -/

/-- The idle task of the hart yields and is selected again. -/
structure IdleYield (h : HartIndex) (clock : Clock) (k k' : Kernel) : Prop where
  idle : k.idles h = true
  again : k'.idles h = true
  call : ∃ c frame, (k.harts h).currentTask = some c ∧ frame.isSyscall = true ∧
    Syscall.ofNumber (frame.x 17) = some .yield ∧
    (dispatch h c (k.tasks c).tid frame clock).run (exec h) k = .ok () k'

/-- The delay queue of the hart holds tasks with these deadlines. -/
def Kernel.Sleepers (k : Kernel) (h : HartIndex) (deadlines : List ℕ) : Prop :=
  ∃ d q, DelayLists k d ∧ (k.harts h).delayList = some q ∧ k.deadlines (d q) = deadlines

/-- Yields of the idle task of the hart, one after the other, with the clock that each of
them reads and the state that it leaves.  Between them other harts may take traps, as long
as the delay queue of the hart stays what it is. -/
inductive IdleYields (h : HartIndex) (deadlines : List ℕ) : Kernel → List (Clock × Kernel) → Prop
  | nil {k : Kernel} : IdleYields h deadlines k []
  | yield {k k' : Kernel} {clock : Clock} {l : List (Clock × Kernel)} : IdleYield h clock k k' →
      k'.Sleepers h deadlines → IdleYields h deadlines k' l →
      IdleYields h deadlines k ((clock, k') :: l)
  | other {k k' : Kernel} {j : HartIndex} {p : KProc Unit} {l : List (Clock × Kernel)} : j ≠ h →
      p.run (exec j) k = .ok () k' → k'.Sleepers h deadlines → IdleYields h deadlines k' l →
      IdleYields h deadlines k l

section Yields

variable {k k' : Kernel} {h : HartIndex} {clock : Clock} {deadlines : List ℕ}
  {l : List (Clock × Kernel)}

/-- YIELD always leads to the arming of the timer. -/
theorem yieldCall_true {c : TaskRef} {tid : TaskId} {rescheduled : Bool}
    (hr : (yieldCall h c tid clock).run (exec h) k = .ok rescheduled k') : rescheduled = true := by
  obtain ⟨_, _, -, hr⟩ := run_perform_inv hr
  obtain ⟨_, _, -, hr⟩ := run_perform_inv hr
  obtain ⟨_, _, -, hr⟩ := run_bind_inv hr
  obtain ⟨_, _, -, hr⟩ := run_perform_inv hr
  obtain ⟨_, _, -, hr⟩ := run_bind_inv hr
  obtain ⟨_, _, -, hr⟩ := run_perform_inv hr
  cases hr
  rfl

/-- A yield ends with the arming of the timer. -/
theorem yield_arms {c : TaskRef} {tid : TaskId} {frame : TrapFrame}
    (hcur : (k.harts h).currentTask = some c) (hsys : frame.isSyscall = true)
    (hnum : Syscall.ofNumber (frame.x 17) = some .yield)
    (hr : (dispatch h c tid frame clock).run (exec h) k = .ok () k') :
    ∃ k1, (armCurrentTimeslice h clock).run (exec h) k1 = .ok () k' := by
  rw [dispatch_eq hcur hsys, hnum] at hr
  obtain ⟨rescheduled, k1, hyield, hr⟩ := run_bind_inv hr
  obtain ⟨_, k2, -, hr⟩ := run_perform_inv hr
  rw [yieldCall_true hyield, if_pos rfl] at hr
  exact ⟨k2, hr⟩

/-- **After a yield of the idle task the timer stands on the earliest deadline.** -/
theorem IdleYield.compare_eq (hy : IdleYield h clock k k') (hs : k'.Sleepers h deadlines) :
    (k'.harts h).compare.toNat = idleDeadline clock.arm.toNat deadlines.min? := by
  obtain ⟨c, frame, hcur, hsys, hnum, hr⟩ := hy.call
  obtain ⟨k1, harm⟩ := yield_arms hcur hsys hnum hr
  have hagain := hy.again
  -- Only the timer changes at the end, so the idle task was current before it.
  have hidle : k1.idles h = true := by
    by_contra hnot
    rw [armCurrentTimeslice_run (q := h) (fun hid => absurd hid hnot)] at harm
    cases harm
    refine hnot ?_
    simpa [idles, armed] using hagain
  obtain ⟨q, hq, hfree⟩ := armCurrentTimeslice_free hidle harm
  rw [armCurrentTimeslice_run fun _ => ⟨hq, hfree⟩] at harm
  cases harm
  obtain ⟨d, q', hd, hq', rfl⟩ := hs
  have hqq : q = q' := by
    simp only [armed, modifyHart_harts, update_self] at hq'
    exact Option.some.inj (hq.symm.trans hq')
  subst hqq
  have hvalue : ((k1.armed h (sliceDeadline clock.arm
      (k1.currentSlice h q clock.arm))).harts h).compare =
      sliceDeadline clock.arm (k1.currentSlice h q clock.arm) := by
    rw [armed, modifyHart_harts, update_self]
  have hd1 : DelayLists k1 d := hd.congr rfl fun _ => rfl
  rw [hvalue, sliceDeadline_toNat, currentSlice, if_pos hidle]
  exact taskDeadline_ticksUntilNext hd1 clock.arm

theorem idleDeadline_le {now earliest : ℕ} (h : now < earliest) :
    idleDeadline now (some earliest) ≤ earliest := by
  rw [idleDeadline]
  omega

/-- No re-arm of a sequence goes past the earliest deadline. -/
theorem IdleYields.compare_le (hys : IdleYields h deadlines k l) {earliest : ℕ}
    (hmin : deadlines.min? = some earliest) :
    ∀ p ∈ l, p.1.arm.toNat < earliest → (p.2.harts h).compare.toNat ≤ earliest := by
  induction hys with
  | nil =>
    intro p hp
    cases hp
  | yield hy hs _ ih =>
    intro p hp hlt
    rcases List.mem_cons.mp hp with rfl | hp
    · rw [hy.compare_eq hs, hmin]
      exact idleDeadline_le hlt
    · exact ih p hp hlt
  | other _ _ _ _ ih => exact ih

end Yields

/-- **The timer is armed exactly, and never wraps.**  With an idle task current it is set to
the earliest deadline, at least one tick and at most one idle slice ahead; otherwise to the
end of the slice.  Hence no sequence of yields of the idle task, whatever the clock reads,
moves it past a deadline that is still ahead. -/
theorem timer_armed_exactly :
    (∀ {k : Kernel} {h q : HartIndex} {d : HartIndex → List TaskRef} (clock : Clock),
      DelayLists k d → (k.harts h).delayList = some q → k.locks (.delayQueue q) = none →
      ∃ value, (armCurrentTimeslice h clock).run (exec h) k = .ok () (k.armed h value) ∧
        value.toNat = if k.idles h then idleDeadline clock.arm.toNat (k.deadlines (d q)).min?
          else taskDeadline clock.arm.toNat (k.harts h).timesliceTicks.toNat) ∧
    ∀ {h : HartIndex} {deadlines : List ℕ} {k : Kernel} {l : List (Clock × Kernel)},
      IdleYields h deadlines k l → ∀ earliest, deadlines.min? = some earliest →
        ∀ p ∈ l, p.1.arm.toNat < earliest → (p.2.harts h).compare.toNat ≤ earliest := by
  refine ⟨fun {k h q d} clock hd hq hfree => ?_, fun hys _ hmin => hys.compare_le hmin⟩
  refine ⟨_, armCurrentTimeslice_run (fun _ => ⟨hq, hfree⟩) clock, ?_⟩
  rw [sliceDeadline_toNat, currentSlice]
  by_cases hidle : k.idles h = true
  · rw [if_pos hidle, if_pos hidle]
    exact taskDeadline_ticksUntilNext hd clock.arm
  · rw [if_neg hidle, if_neg hidle]

/-- The initial task asks for a sleep of one second. -/
def sleepFrame : TrapFrame :=
  { x := fun r => if r = 17 then 5 else if r = 10 then 1 else 0, mcause := 8 }

/-- The initial task sleeps. -/
def sampleSleep : Kernel := Outcome.state
  ((dispatch 0 1 (sampleBoot.tasks 1).tid sleepFrame .zero).run (exec 0) sampleBoot)

/-- A clock that stands one tick before the end of the sleep. -/
def lateClock : Clock := ⟨9999999, 9999999, 9999999, 9999999⟩

/-- The idle task yields meanwhile. -/
def sampleIdle : Kernel := Outcome.state
  ((dispatch 0 0 (sampleSleep.tasks 0).tid (callFrame 0) lateClock).run (exec 0) sampleSleep)

theorem sampleSleep_run : Run True .sample 1 sampleSleep :=
  (Run.boot sampleBoot_eq).trap (.call (by decide +kernel)) (Outcome.eq_ok (by decide +kernel))

theorem sampleIdle_run : Run True .sample 1 sampleIdle :=
  sampleSleep_run.trap (h := 0) (.trap (by decide +kernel) (.inl (callFrame_isSyscall 0))
    (fun _ _ => by decide +kernel) fun _ _ => by decide +kernel)
    (Outcome.eq_ok (by decide +kernel))

/-- The idle task yields just before the sleeper is due. -/
theorem timer_armed_exactly_sample : ∃ deadlines, deadlines.min? = some 10000000 ∧
    IdleYields 0 deadlines sampleSleep [(lateClock, sampleIdle)] ∧
    (sampleIdle.harts 0).compare.toNat ≤ 10000000 := by
  obtain ⟨loc, hq⟩ := sampleIdle_run.quiescent
  obtain ⟨d, hd, -⟩ := hq.inv.queues.delay
  have hmin : (sampleIdle.deadlines (d 0)).min? = some 10000000 := by
    rw [hd.min_deadlines]
    decide +kernel
  have hyield : IdleYield 0 lateClock sampleSleep sampleIdle :=
    ⟨by decide +kernel, by decide +kernel, 0, callFrame 0, by decide +kernel,
      callFrame_isSyscall 0, by decide +kernel, Outcome.eq_ok (by decide +kernel)⟩
  have hys : IdleYields 0 (sampleIdle.deadlines (d 0)) sampleSleep [(lateClock, sampleIdle)] :=
    .yield hyield ⟨d, 0, hd, by decide +kernel, rfl⟩ .nil
  exact ⟨_, hmin, hys, timer_armed_exactly.2 hys _ hmin _ List.mem_cons_self (by decide +kernel)⟩

end Jixia
