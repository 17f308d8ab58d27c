/-
What every run guarantees.

* `legal_tasks_never_park` — no sequence of legal traps parks a hart, and with crashes
  admitted only a crash does;
* `single_ownership` — along every interleaving of the harts each task is in one
  place, and a task that runs in user mode is in no queue.
-/
import Jixia.BootInvariant

namespace Jixia

open Machine Proc Holding Kernel

variable {legal : Prop} {platform : Platform} {count : ℕ} {k k' : Kernel} {loc : Loc}
  {h : HartIndex} {p : KProc Unit}

/-- The states that traps lead to, each handled as a whole, from the state the
bootstrap leaves. -/
inductive Run (legal : Prop) (platform : Platform) (count : ℕ) : Kernel → Prop
  | boot {k : Kernel} {clock : Clock} : bootstrap platform count clock = .ok () k →
      Run legal platform count k
  | trap {k k' : Kernel} {h : HartIndex} {p : KProc Unit} : Run legal platform count k →
      Starts legal h k p → p.run (exec h) k = .ok () k' → Run legal platform count k'

theorem Run.quiescent (hr : Run legal platform count k) : ∃ loc, Quiescent legal k loc := by
  induction hr with
  | boot hb => exact bootstrap_quiescent hb
  | trap _ hs hx ih =>
    obtain ⟨loc, hq⟩ := ih
    have hrun := hq.run hs
    rwa [hx] at hrun

/-! ### Parking -/

/-- **Tasks cannot park the executive by legal means.**  Every trap with a defined
syscall number is handled to its end; with undefined numbers, a hart stops only when
the crashed task was detached or kernel-parented, or when a crashed child that had
completed became kernel-parented. -/
theorem legal_tasks_never_park (platform : Platform) (count : ℕ) :
    (∀ k h p, Run True platform count k → Starts True h k p →
      ∃ k', p.run (exec h) k = .ok () k') ∧
    ∀ k h p e k', Run False platform count k → Starts False h k p →
      p.run (exec h) k = .error e k' → CrashPark e k' := by
  refine ⟨fun k h p hr hs => ?_, fun k h p e k' hr hs hx => ?_⟩
  · obtain ⟨loc, hq⟩ := hr.quiescent
    have hrun := hq.run hs
    cases hx : p.run (exec h) k with
    | ok b k' => exact ⟨k', rfl⟩
    | error e k' =>
      rw [hx] at hrun
      exact absurd trivial hrun.1
  · obtain ⟨loc, hq⟩ := hr.quiescent
    have hrun := hq.run hs
    rw [hx] at hrun
    exact hrun.2

/-- All clock readings are zero. -/
def Clock.zero : Clock := ⟨0, 0, 0, 0⟩

/-- The sample platform with one hart, after the bootstrap. -/
def sampleBoot : Kernel := Outcome.state (bootstrap .sample 1 .zero)

theorem sampleBoot_eq : bootstrap .sample 1 .zero = .ok () sampleBoot :=
  Outcome.eq_ok (by decide +kernel)

/-- An environment call of the current task with this number. -/
def callFrame (number : Word) : TrapFrame :=
  { x := fun r => if r = 17 then number else 0, mcause := 8 }

theorem callFrame_isSyscall (number : Word) : (callFrame number).isSyscall = true := by
  show (isException 8 8 && (0 : Word) &&& kMstatusMppMask == 0) = true
  decide

/-- A call with this number and first argument. -/
def argumentFrame (number argument : Word) : TrapFrame :=
  { x := fun r => if r = 17 then number else if r = 10 then argument else 0, mcause := 8 }

/-- The initial task makes the call. -/
def sampleCall (number : Word) : KProc Unit :=
  dispatch 0 1 (sampleBoot.tasks 1).tid (callFrame number) .zero

theorem sampleBoot_call {number : Word} (hlegal : legal → Syscall.ofNumber number ≠ none) :
    Starts legal 0 sampleBoot (sampleCall number) := by
  refine .trap (by decide +kernel) (.inl (callFrame_isSyscall number)) (fun hl _ => ?_)
    fun hidle => ?_
  · exact hlegal hl
  · exact absurd hidle (by decide +kernel)

/-- The initial task yields; or it crashes, and it is kernel-parented. -/
theorem legal_tasks_never_park_sample :
    (∃ k', (sampleCall 0).run (exec 0) sampleBoot = .ok () k') ∧
    CrashPark (.park .endTaskRootCrashed)
      (Outcome.state ((sampleCall 99).run (exec 0) sampleBoot)) :=
  ⟨(legal_tasks_never_park .sample 1).1 _ _ _ (.boot sampleBoot_eq)
      (sampleBoot_call fun _ => by decide),
    (legal_tasks_never_park .sample 1).2 _ _ _ _ _ (.boot sampleBoot_eq)
      (sampleBoot_call False.elim) (Outcome.eq_error (by decide +kernel))⟩

/-! ### Ownership -/

/-- **Each task is in one place.**  The auxiliary state records the place of every task;
the kernel's own lists, marks and pointers agree with it.  A hart runs in user mode
when it executes no kernel code and has a current task. -/
structure SingleOwner (c : Config HartIndex Kernel Loc Action) : Prop where
  /-- A task exists exactly when it has a place. -/
  used : ∀ t, c.state.taskSlotsUsed t = true ↔ c.aux t ≠ none
  /-- A live task, which its tracker still points to, is not about to be freed. -/
  live : ∀ r t, c.state.trackerSlotsUsed r = true → (c.state.trackers r).task = some t →
    ∃ p, c.aux t = some p ∧ ∀ h, p ≠ .reaped h
  /-- The tasks placed in a run queue are in its list, once. -/
  run : ∃ r, RunLists c.state r ∧ ∀ q, (r q).Nodup ∧ ∀ t, t ∈ r q ↔ c.aux t = some (.run q)
  delay : ∃ d, DelayLists c.state d ∧ ∀ q, (d q).Nodup ∧ ∀ t, t ∈ d q ↔ c.aux t = some (.delay q)
  wait : ∃ w, WaitLists c.state w ∧ ∀ e, (w e).Nodup ∧ ∀ t, t ∈ w e ↔ c.aux t = some (.wait e)
  /-- A tracker waits exactly when its task is blocked in a join. -/
  join : ∀ r t, c.state.trackerSlotsUsed r = true → (c.state.trackers r).task = some t →
    ((c.state.trackers r).wait.active = true ↔ c.aux t = some .join)
  /-- The task that runs on a hart in user mode belongs to that hart. -/
  user : ∀ h t, c.thread h = .idle → (c.state.harts h).currentTask = some t →
    c.aux t = some (.own h)
  /-- Between two kernel paths a hart owns its current task and its idle task only. -/
  held : ∀ h t, c.thread h = .idle → c.aux t = some (.own h) →
    (c.state.harts h).currentTask = some t ∨ (c.state.harts h).idleTask = some t
  /-- No two harts run the same task. -/
  exclusive : ∀ h h' t, c.thread h = .idle → c.thread h' = .idle →
    (c.state.harts h).currentTask = some t → (c.state.harts h').currentTask = some t → h = h'
  /-- A task that runs in user mode is in no queue and waits for no child. -/
  unqueued : ∀ h t, c.thread h = .idle → (c.state.harts h).currentTask = some t →
    (c.state.tasks t).queued = false ∧ (c.state.tasks t).delay.queued = false ∧
    (c.state.tasks t).messageWait.queued = false ∧
    ∀ r, (c.state.tasks t).tracker = some r → (c.state.trackers r).wait.active = false

theorem AtRest.current {solo : Prop} (hrest : AtRest solo h k loc) {t : TaskRef}
    (hc : (k.harts h).currentTask = some t) : loc t = some (.own h) := by
  obtain ⟨i, -, hat⟩ := hrest.caller hc
  exact (hat.owned t _ (caller_self i t _)).1

theorem AtRest.held {solo : Prop} (hrest : AtRest solo h k loc) {t : TaskRef}
    (ht : loc t = some (.own h)) :
    (k.harts h).currentTask = some t ∨ (k.harts h).idleTask = some t := by
  rcases hrest with ⟨i, c, x, -, hat⟩ | ⟨-, hnone⟩ | ⟨i, hat⟩
  · by_cases htc : t = c
    · exact .inl (htc ▸ hat.current)
    · rw [hat.only t ht (caller_other htc)]
      exact .inr hat.idle
  · exact absurd ht (hnone t)
  · rw [hat.only t ht rfl]
    exact .inr hat.idle

theorem singleOwner_of_ok {c : Config HartIndex Kernel Loc Action}
    (hok : hartOutlines.Ok c) : SingleOwner c := by
  have hi : Inv True c.state c.aux := hok.inv
  have hrest : ∀ h, c.thread h = .idle → AtRest False h c.state c.aux := by
    intro h hidle
    have hthread := hok.thread h
    rwa [hidle] at hthread
  have huser : ∀ h t, c.thread h = .idle → (c.state.harts h).currentTask = some t →
      c.aux t = some (.own h) := fun h t hidle hc => (hrest h hidle).current hc
  have hjoin : ∀ r t, c.state.trackerSlotsUsed r = true → (c.state.trackers r).task = some t →
      ((c.state.trackers r).wait.active = true ↔ c.aux t = some .join) := by
    intro r t hr ht
    constructor
    · intro hact
      obtain ⟨u, hu, hj⟩ := hi.tracker.waiting hr hact
      rw [ht] at hu
      cases hu
      exact hj
    · exact fun hj => (hi.tracker.joins hj).2 r (hi.tracker.ofTracker hr ht).2
  obtain ⟨r, hr, hrm⟩ := hi.queues.run
  obtain ⟨d, hd, hdm⟩ := hi.queues.delay
  obtain ⟨w, hw, hwm⟩ := hi.queues.wait
  refine ⟨hi.used, fun r t hr ht => (hi.tracker.ofTracker hr ht).1,
    ⟨r, hr, fun q => ⟨(hr.family.holds q).nodup, hrm q⟩⟩,
    ⟨d, hd, fun q => ⟨(hd.family.holds q).nodup, hdm q⟩⟩,
    ⟨w, hw.lists, fun e => ⟨(hw.lists.holds e).nodup, hwm e⟩⟩, hjoin, huser,
    fun h t hidle ht => (hrest h hidle).held ht, fun h h' t hidle hidle' hc hc' => ?_,
    fun h t hidle hc => ?_⟩
  · have hown := huser h t hidle hc
    rw [huser h' t hidle' hc'] at hown
    exact (Place.own.inj (Option.some.inj hown)).symm
  · have hown := huser h t hidle hc
    obtain ⟨hq, hdq, hwq⟩ := hi.unqueued_of_own hown
    refine ⟨hq, hdq, hwq, fun r hr => ?_⟩
    obtain ⟨hused, htask, -⟩ := hi.tracker.tracked (Inv.live_of_own hown) hr
    rw [← Bool.not_eq_true, hjoin r t hused htask, hown]
    exact nofun

/-- **Single execution ownership across harts.**  In every interleaving of the harts
from the state the bootstrap leaves, each task is in one place. -/
theorem single_ownership {clock : Clock} (hb : bootstrap platform count clock = .ok () k) :
    ∃ loc, ∀ c, (machine True).Steps ⟨k, loc, fun _ => .idle⟩ c → SingleOwner c := by
  obtain ⟨loc, hq⟩ := (bootstrap_quiescent hb : ∃ loc, Quiescent True k loc)
  refine ⟨loc, fun c hs => singleOwner_of_ok (hartOutlines.reachable ?_ hs)⟩
  exact ⟨hq.inv, hq.rest⟩

/-- The sample platform with two harts, after the bootstrap. -/
def pairBoot : Kernel := Outcome.state (bootstrap .sample 2 .zero)

/-- The initial task makes a child. -/
def pairCall : KProc Unit := dispatch 0 2 (pairBoot.tasks 2).tid (argumentFrame 1 0x1100) .zero

/-- The initial task has made the child. -/
def pairCreate : Kernel := Outcome.state (pairCall.run (exec 0) pairBoot)

/-- The second hart has taken the child up. -/
def pairStart : Kernel := Outcome.state ((secondaryBootstrap 1 .zero).run (exec 1) pairCreate)

theorem pairBoot_eq : bootstrap .sample 2 .zero = .ok () pairBoot :=
  Outcome.eq_ok (by decide +kernel)

theorem pairCreate_eq : pairCall.run (exec 0) pairBoot = .ok () pairCreate :=
  Outcome.eq_ok (by decide +kernel)

theorem pairStart_eq : (secondaryBootstrap 1 .zero).run (exec 1) pairCreate = .ok () pairStart :=
  Outcome.eq_ok (by decide +kernel)

theorem pairBoot_call : Starts legal 0 pairBoot pairCall := .call (by decide +kernel)

theorem pairCreate_start : Starts legal 1 pairCreate (secondaryBootstrap 1 .zero) :=
  .secondary (by decide +kernel) (by decide +kernel)

theorem pairCreate_run : Run legal .sample 2 pairCreate :=
  (Run.boot pairBoot_eq).trap pairBoot_call pairCreate_eq

theorem pairStart_run : Run legal .sample 2 pairStart :=
  pairCreate_run.trap pairCreate_start pairStart_eq

/-- The initial task makes a child, and the second hart takes it up: each hart owns one of
them. -/
theorem single_ownership_sample : ∃ loc loc',
    (machine True).Steps ⟨pairBoot, loc, fun _ => .idle⟩ ⟨pairStart, loc', fun _ => .idle⟩ ∧
    loc' 2 = some (.own 0) ∧ loc' 3 = some (.own 1) ∧
    SingleOwner ⟨pairStart, loc', fun _ => .idle⟩ := by
  obtain ⟨loc, hall⟩ := single_ownership pairBoot_eq
  have hcreate := start_steps (machine True) (i := 0) (c := ⟨pairBoot, loc, fun _ => .idle⟩)
    rfl pairBoot_call pairCreate_eq
  have hsteps := hcreate.trans
    (start_steps (machine True) (i := 1) rfl pairCreate_start pairStart_eq)
  have howner := hall _ hsteps
  have hfirst : (pairStart.harts 0).currentTask = some 2 := by decide +kernel
  have hsecond : (pairStart.harts 1).currentTask = some 3 := by decide +kernel
  exact ⟨loc, _, hsteps, howner.user 0 2 rfl hfirst, howner.user 1 3 rfl hsecond,
    howner⟩

end Jixia
