/-
What becomes of a task between two moments.

The harts handle traps in any interleaving.  A task in a run queue, asleep, or blocked on a
message or in a join stays there until a section hands it out, and its record stays its own
until the slot is freed.

* `track_place`, `exec_entry` — one action;
* `tasks_never_lost` — no task drops out of its list, and no sleeper is released early;
* `records_stay` — what CREATE and YIELD read of a task that other harts may already run;
* `some_hart_proceeds` — as long as a hart is in the kernel, some hart gets on.
-/
import Jixia.DispatchOrder
import Jixia.SpinlockOrder

namespace Jixia

open Machine Function Kernel

variable {legal : Prop} {h : HartIndex} {k k' : Kernel} {loc : Loc} {t : TaskRef} {p : Place}
  {β : Type} {a : Action β} {b : β}

/-! ### Handing out -/

/-- The sections that take a task off a list, out of a join or out of its slot. -/
inductive TaskEvent
  | dispatched (q : RunQueueRef) (t : TaskRef)
  | released (q : HartIndex) (t : TaskRef) (now : Word)
  | woken (e : EndpointRef) (t : TaskRef)
  | joined (t : TaskRef)
  | freed (t : TaskRef)
  deriving DecidableEq

def taskEvents (_ : HartIndex) : {β : Type} → Action β → Kernel → β → List TaskEvent
  | _, .runQueueRemove q, _, some t => [.dispatched q t]
  | _, .delayQueueRemoveExpired q now, _, some t => [.released q t now]
  | _, .sendLocked _ parsed _, _, .wake t => [.woken parsed.slot t]
  | _, .destroyPop e, _, some t => [.woken e t]
  | _, .endTaskLocked .., _, some t => [.joined t]
  | _, .releaseTaskLocked t, _, _ => [.freed t]
  | _, _, _, _ => []

/-- How a task leaves the place where it waits. -/
def Place.EndsBy (due : Word) (t : TaskRef) : Place → TaskEvent → Prop
  | .run q, e => e = .dispatched q t
  | .delay q, e => ∃ now, e = .released q t now ∧ due ≤ now
  | .wait endpoint, e => e = .woken endpoint t
  | .join, e => e = .joined t
  | _, _ => False

theorem runQueueRemove_mem {r : RunQueueRef → List TaskRef} {q : RunQueueRef} (hr : RunLists k r)
    (hx : k.runQueueRemove q = .ok (some t) k') : t ∈ r q := by
  cases hq : r q with
  | nil =>
    rw [hr.runQueueRemove_nil hq] at hx
    cases hx
  | cons u rest =>
    rw [hr.runQueueRemove_cons hq] at hx
    split at hx <;> cases hx
    exact List.mem_cons_self

theorem delayQueueRemoveExpired_mem {d : HartIndex → List TaskRef} {q : HartIndex} {now : Word}
    (hd : DelayLists k d) (hx : k.delayQueueRemoveExpired q now = (some t, k')) :
    t ∈ d q ∧ k.deadline t ≤ now := by
  cases hq : d q with
  | nil =>
    rw [hd.delayQueueRemoveExpired_nil hq] at hx
    cases hx
  | cons u rest =>
    rw [hd.delayQueueRemoveExpired_cons hq] at hx
    split at hx <;> cases hx
    exact ⟨List.mem_cons_self, BitVec.not_lt.mp ‹_›⟩

theorem endTaskLocked_case (hi : Inv legal k loc) (hown : loc t = some (.own h)) {value : Word}
    {status : ExitStatus} {waiter : Option TaskRef}
    (hx : k.endTaskLocked t value status = .ok waiter k') :
    ∃ r, k.trackerSlotsUsed r = true ∧ EndCase k t r value status (.ok waiter k') := by
  obtain ⟨r, hr, hused, -⟩ := hi.tracker.ofTask (Inv.live_of_own hown)
  exact ⟨r, hused, hx ▸ endTaskLocked_cases hi.tracker (Inv.live_of_own hown)
    (by rw [hown]; simp) hr value status⟩

/-- **One action** leaves a waiting task where it is or hands it out. -/
theorem track_place (hi : Inv legal k loc) (hpre : Pre h a k loc) (hx : exec h a k = .ok b k')
    (ht : loc t = some p) (hp : ∀ i, p ≠ .own i ∧ p ≠ .reaped i) :
    track h a b loc t = some p ∨ ∃ e ∈ taskEvents h a k b, p.EndsBy (k.deadline t) t e := by
  -- A task that a hart holds is another one.
  have hother : ∀ {u x}, loc u = some (.own h) ∨ loc u = some (.reaped h) ∨ loc u = none →
      update loc u x t = some p := by
    intro u x hu
    have hne : t ≠ u := by
      rintro rfl
      rw [ht] at hu
      simp [hp] at hu
    rw [update_of_ne hne, ht]
  have hhand : ∀ {loc : Loc} {u p' e x}, loc t = some p → loc u = some p' →
      p'.EndsBy (k.deadline u) u e → update loc u x t = some p ∨
        ∃ e' ∈ [e], p.EndsBy (k.deadline t) t e' := by
    intro loc u p' e x ht hu he
    by_cases hne : t = u
    · subst hne
      cases ht.symm.trans hu
      exact .inr ⟨e, List.mem_singleton_self e, he⟩
    · exact .inl (by rw [update_of_ne hne, ht])
  obtain ⟨w, hw, hwait⟩ := hi.queues.wait
  cases a <;> first | exact .inl ht | skip
  case runQueueInsert _ u | delayQueueInsert _ u _ | recvLocked u _ | waitTaskLocked u _ =>
    cases b <;> first | exact .inl ht | exact .inl (hother (.inl hpre))
  case releaseTaskLocked u => exact .inl (hother (.inr (.inl hpre)))
  case createTaskLocked =>
    rcases create_frame hi hx with ⟨rfl, -⟩ | ⟨u, rfl, -, hfree, -⟩
    · exact .inl ht
    · exact .inl (hother (.inr (.inr (hi.free hfree))))
  case runQueueRemove q =>
    obtain ⟨r, hr, hrun⟩ := hi.queues.run
    cases b with
    | none => exact .inl ht
    | some u => exact hhand ht ((hrun q u).mp (runQueueRemove_mem hr hx)) rfl
  case delayQueueRemoveExpired q now =>
    obtain ⟨d, hd, hdelay⟩ := hi.queues.delay
    cases b with
    | none => exact .inl ht
    | some u =>
      obtain ⟨hmem, hdue⟩ := delayQueueRemoveExpired_mem hd
        (Prod.ext (EStateM.Result.ok.inj hx).1 (EStateM.Result.ok.inj hx).2)
      exact hhand ht ((hdelay q u).mp hmem) ⟨now, rfl, hdue⟩
  case endTaskLocked u value status =>
    cases b with
    | none => exact .inl (hother (.inl hpre))
    | some v =>
      obtain ⟨r, hused, hcase⟩ := endTaskLocked_case hi hpre hx
      have hv : update loc u (some (.reaped h)) v = some .join := by
        have hj : loc v = some .join := hcase.joined hi.tracker hused
        rw [update_of_ne (by rintro rfl; cases hpre.symm.trans hj), hj]
      exact hhand (hother (.inl hpre)) hv rfl
  case destroyPop e =>
    cases hl : w e with
    | nil =>
      cases (congrArg Outcome.total (destroyPop_nil hw.lists hl)).symm.trans hx
      exact .inl ht
    | cons u rest =>
      cases (congrArg Outcome.total (destroyPop_cons hw.lists hl)).symm.trans hx
      exact hhand ht ((hwait e u).mp (by simp [hl])) rfl
  case sendLocked sender parsed words =>
    obtain ⟨step, k1, hexec, hcase⟩ := sendLocked_cases hw sender parsed words
    cases hexec.symm.trans hx
    cases hcase with
    | @wake u rest _ hl => exact hhand ht ((hwait parsed.slot u).mp (by simp [hl])) rfl
    | _ => exact .inl ht

/-! ### The record of a task -/

/-- A steady action leaves the deadline of a task alone that its hart does not hold. -/
theorem steady_deadline (ha : isSteady a = true) (hi : Inv legal k loc) (hpre : Pre h a k loc)
    (hx : exec h a k = .ok b k') (ht : loc t ≠ some (.own h)) :
    k'.deadline t = k.deadline t := by
  have hne : ∀ {u}, loc u = some (.own h) → t ≠ u := fun hu htu => ht (htu ▸ hu)
  have hmod : ∀ {u} {f : Task → Task}, loc u = some (.own h) →
      (k.modifyTask u f).deadline t = k.deadline t := fun hu => by
    rw [deadline, modifyTask_tasks, update_of_ne (hne hu)]
    rfl
  cases a <;> first
    | cases ha; done
    | exact (congrArg (·.delay.deadline) ((exec_schedFrame rfl hx).task t)).trans rfl
    | skip
  case endTaskLocked u value status =>
    obtain ⟨r, -, hcase⟩ := endTaskLocked_case hi hpre hx
    rw [deadline, hcase.tasks]
    cases b with
    | none => rfl
    | some w => by_cases hw : t = w <;> simp [setReg, deadline, hw]
  case waitTaskLocked u tid =>
    obtain ⟨r, hr, -⟩ := hi.tracker.ofTask (Inv.live_of_own hpre)
    obtain ⟨result, k1, hx', hcase⟩ := waitTaskLocked_cases hi.tracker hr tid
    cases hx'.symm.trans hx
    rw [deadline, hcase.tasks.1 t (hne hpre)]
    rfl
  case delayQueueInsert q u due =>
    obtain ⟨d, hd, -⟩ := hi.queues.delay
    cases hu : ((k.tasks u).delay.queued || (k.tasks u).queued || (k.tasks u).state == .ended) with
    | true =>
      cases (DelayLists.delayQueueInsert_refused hu).symm.trans hx
      rfl
    | false =>
      cases (hd.delayQueueInsert_eq hu).symm.trans hx
      exact if_neg (hne hpre)
  case delayQueueRemoveExpired q now =>
    obtain ⟨d, hd, -⟩ := hi.queues.delay
    cases hq : d q with
    | nil =>
      cases (congrArg Outcome.total (hd.delayQueueRemoveExpired_nil hq)).symm.trans hx
      rfl
    | cons u rest =>
      cases (congrArg Outcome.total (hd.delayQueueRemoveExpired_cons hq)).symm.trans hx
      split <;> rfl
  case saveCurrentContext =>
    obtain ⟨u, hu, hown⟩ := hpre
    simp only [exec, saveCurrentContext, hu] at hx
    cases hx
    exact hmod hown
  case restoreCurrentContext =>
    simp only [exec, restoreCurrentContext] at hx
    split at hx <;> cases hx
    rfl
  case detachTaskLocked u =>
    simp only [exec, Outcome.total, detachTaskLocked] at hx
    split at hx <;> cases hx
    · rfl
    · dsimp only
      exact hmod hpre
  all_goals cases hx
  case enterTrap => rfl
  all_goals exact hmod hpre

/-- **One action** leaves the id of a task alone, and its deadline if no hart holds it, unless
it frees the slot. -/
theorem exec_entry (hi : Inv legal k loc) (hpre : Pre h a k loc) (hx : exec h a k = .ok b k')
    (ht : loc t = some p) : p = .reaped h ∧ .freed t ∈ taskEvents h a k b ∨
      k'.taskSlotsUsed t = true ∧ (k'.tasks t).tid = (k.tasks t).tid ∧
        ((∀ i, p ≠ .own i) → k'.deadline t = k.deadline t) := by
  have hused : k.taskSlotsUsed t = true := (hi.used t).mpr (by simp [ht])
  by_cases hs : isSteady a = true
  · have hsteady := exec_steady hs hi hpre hx
    refine .inr ⟨(congrFun hsteady.used t).trans hused, (hsteady.task t).tid, fun hp => ?_⟩
    exact steady_deadline hs hi hpre hx (ht ▸ fun hown => hp h (Option.some.inj hown))
  have hsame : k'.taskSlotsUsed t = k.taskSlotsUsed t → k'.tasks t = k.tasks t →
      k'.taskSlotsUsed t = true ∧ (k'.tasks t).tid = (k.tasks t).tid ∧
        ((∀ i, p ≠ .own i) → k'.deadline t = k.deadline t) := fun hu htask => by
    rw [deadline, htask, hu]
    exact ⟨hused, rfl, fun _ => rfl⟩
  cases a <;> first
    | exact absurd rfl hs
    | (have hf := exec_sectionFrame rfl hx
       exact .inr ⟨(congrFun (congrArg taskSlotsUsed hf.rest) t).trans hused,
         (congrArg Task.tid (hf.task t) :), fun _ => congrArg (·.delay.deadline) (hf.task t)⟩)
    | (have hf := exec_schedFrame rfl hx
       exact .inr ⟨(congrFun (congrArg taskSlotsUsed hf.rest) t).trans hused,
         (congrArg Task.tid (hf.task t) :),
         fun _ => (congrArg (·.delay.deadline) (hf.task t)).trans rfl⟩)
    | skip
  case createTaskLocked =>
    rcases create_frame hi hx with ⟨-, htasks, hf⟩ | ⟨u, -, hf, hfree, -⟩
    · exact .inr (hsame (congrFun hf.used t) (congrFun htasks t))
    · have hne : t ≠ u := by
        rintro rfl
        cases hused.symm.trans hfree
      exact .inr (hsame (hf.used t hne) (hf.task t hne))
  case releaseTaskLocked u =>
    have hf := (release_frame hi hpre hx).1
    by_cases hne : t = u
    · subst hne
      exact .inl ⟨Option.some.inj (ht.symm.trans hpre), List.mem_singleton_self _⟩
    · exact .inr (hsame (hf.used t hne) (hf.task t hne))

/-! ### Interleavings of the harts -/

/-- The harts, with the history of what became of the tasks. -/
def taskMachine : Machine HartIndex Kernel (List TaskEvent) Halt Action :=
  (machine True).recording taskEvents

variable {c c' : Config HartIndex Kernel (List TaskEvent) Action}

/-- The moment `c'` of an interleaving comes after `c`; its history is what happened since. -/
def Later (c c' : Config HartIndex Kernel (List TaskEvent) Action) : Prop :=
  ∃ platform count k, Run True platform count k ∧
    taskMachine.Steps ⟨k, [], fun _ => .idle⟩ c ∧ taskMachine.Steps ⟨c.state, [], c.thread⟩ c'

/-- What is known of the tasks of a state at a later moment, with the history in between. -/
def Followed (k0 : Kernel) (loc0 : Loc) (k : Kernel) (loc : Loc) (log : List TaskEvent) : Prop :=
  ∀ t, (∀ p, loc0 t = some p → (∀ i, p ≠ .own i ∧ p ≠ .reaped i) →
      loc t = some p ∧ k.deadline t = k0.deadline t ∨
        ∃ e ∈ log, p.EndsBy (k0.deadline t) t e) ∧
    (k0.taskSlotsUsed t = true → .freed t ∈ log ∨
      k.taskSlotsUsed t = true ∧ (k.tasks t).tid = (k0.tasks t).tid)

theorem Followed.step {k0 : Kernel} {loc0 : Loc} {log : List TaskEvent}
    (hf : Followed k0 loc0 k loc log) (hi : Inv legal k loc) (hpre : Pre h a k loc)
    (hx : exec h a k = .ok b k') :
    Followed k0 loc0 k' (track h a b loc) (log ++ taskEvents h a k b) := by
  refine fun t => ⟨fun p ht hp => ?_, fun hu => ?_⟩
  · rcases (hf t).1 p ht hp with ⟨hstay, hdue⟩ | ⟨e, he, hends⟩
    · rcases track_place hi hpre hx hstay hp with hplace | ⟨e, he, hends⟩
      · rcases exec_entry hi hpre hx hstay with ⟨hr, -⟩ | ⟨-, -, hkeep⟩
        · exact absurd hr (hp h).2
        · exact .inl ⟨hplace, (hkeep fun i => (hp i).1).trans hdue⟩
      · exact .inr ⟨e, List.mem_append_right _ he, hdue ▸ hends⟩
    · exact .inr ⟨e, List.mem_append_left _ he, hends⟩
  · rcases (hf t).2 hu with hfreed | ⟨hused, htid⟩
    · exact .inl (List.mem_append_left _ hfreed)
    · obtain ⟨p, hp⟩ := Option.ne_none_iff_exists'.mp ((hi.used t).mp hused)
      rcases exec_entry hi hpre hx hp with ⟨-, hfreed⟩ | ⟨hused', htid', -⟩
      · exact .inl (List.mem_append_right _ hfreed)
      · exact .inr ⟨hused', htid'.trans htid⟩

/-- **From one moment to a later one**, in every interleaving. -/
theorem Later.followed (hl : Later c c') : ∃ loc loc', Inv True c.state loc ∧
    Inv True c'.state loc' ∧ Followed c.state loc c'.state loc' c'.aux := by
  obtain ⟨platform, count, k, hr, hs, hs'⟩ := hl
  obtain ⟨loc0, hq⟩ := hr.quiescent
  obtain ⟨loc, hok, -⟩ := Outlines.recorded (O := hartOutlines) (R := fun _ _ _ => True)
    (fun _ _ _ _ _ _ _ _ _ _ _ _ => trivial) hs (g := loc0) ⟨hq.inv, hq.rest⟩ trivial
  obtain ⟨loc', hok', hf⟩ := Outlines.recorded (O := hartOutlines) (R := Followed c.state loc)
    (fun _ _ _ _ _ _ _ hi hpre hx _ hf => hf.step hi hpre hx) hs' (g := loc) hok
    fun t => ⟨fun p ht _ => .inl ⟨ht, rfl⟩, fun hu => .inr ⟨hu, rfl⟩⟩
  exact ⟨loc, loc', hok.inv, hok'.inv, hf⟩

/-- The lists of the queues are the tasks that have their places there. -/
theorem Inv.mem_lists (hi : Inv legal k loc) (t : TaskRef) :
    (∀ q, t ∈ k.runList q ↔ loc t = some (.run q)) ∧
    (∀ q, t ∈ k.sleepers q ↔ loc t = some (.delay q)) ∧
    ∀ e, t ∈ k.waiters e ↔ loc t = some (.wait e) := by
  obtain ⟨r, hr, hrun⟩ := hi.queues.run
  obtain ⟨d, hd, hdelay⟩ := hi.queues.delay
  obtain ⟨w, hw, hwait⟩ := hi.queues.wait
  refine ⟨fun q => ?_, fun q => ?_, fun e => ?_⟩
  · rw [hr.runList_eq, hrun]
  · rw [hd.sleepers_eq, hdelay]
  · rw [waiters_eq hw.lists, hwait]

/-- **No task is lost and no sleeper is released early.**  In every interleaving of the harts, a
task in the list of a run queue stays in it until a dispatch takes it from there, a sleeping one
keeps its place in its delay queue and its deadline until it is released at a reading of the clock
that has reached the deadline, and a blocked receiver stays in the FIFO of its endpoint until a
send to it or its destruction takes it out. -/
theorem tasks_never_lost (hl : Later c c') (t : TaskRef) :
    (∀ q, t ∈ c.state.runList q → t ∈ c'.state.runList q ∨ .dispatched q t ∈ c'.aux) ∧
    (∀ q, t ∈ c.state.sleepers q →
      t ∈ c'.state.sleepers q ∧ c'.state.deadline t = c.state.deadline t ∨
        ∃ now, .released q t now ∈ c'.aux ∧ c.state.deadline t ≤ now) ∧
    ∀ e, t ∈ c.state.waiters e → t ∈ c'.state.waiters e ∨ .woken e t ∈ c'.aux := by
  obtain ⟨loc, loc', hi, hi', hf⟩ := hl.followed
  obtain ⟨hrun, hdelay, hwait⟩ := hi.mem_lists t
  obtain ⟨hrun', hdelay', hwait'⟩ := hi'.mem_lists t
  refine ⟨fun q hq => ?_, fun q hq => ?_, fun e he => ?_⟩
  · rcases (hf t).1 _ ((hrun q).mp hq) (by simp) with ⟨hstay, -⟩ | ⟨event, hmem, rfl⟩
    · exact .inl ((hrun' q).mpr hstay)
    · exact .inr hmem
  · rcases (hf t).1 _ ((hdelay q).mp hq) (by simp) with
      ⟨hstay, hdue⟩ | ⟨event, hmem, now, rfl, hdue⟩
    · exact .inl ⟨(hdelay' q).mpr hstay, hdue⟩
    · exact .inr ⟨now, hmem, hdue⟩
  · rcases (hf t).1 _ ((hwait e).mp he) (by simp) with ⟨hstay, -⟩ | ⟨event, hmem, rfl⟩
    · exact .inl ((hwait' e).mpr hstay)
    · exact .inr hmem

/-- The initial task has made a child; then the second hart starts. -/
theorem pair_later : Later ⟨pairCreate, [], fun _ => .idle⟩
    ⟨pairStart, [.dispatched .globalRunQueue 3], fun _ => .idle⟩ := by
  have hcreate := start_steps taskMachine (i := 0) (c := ⟨pairBoot, [], fun _ => .idle⟩)
    rfl pairBoot_call pairCreate_eq
  have hstart := start_steps taskMachine (i := 1) (c := ⟨pairCreate, [], fun _ => .idle⟩)
    rfl pairCreate_start pairStart_eq
  rw [show taskMachine.runAux 0 pairCall pairBoot [] = [] by decide +kernel] at hcreate
  rw [show taskMachine.runAux 1 (secondaryBootstrap 1 .zero) pairCreate [] =
    [.dispatched .globalRunQueue 3] by decide +kernel] at hstart
  exact ⟨.sample, 2, pairBoot, .boot pairBoot_eq, hcreate, hstart⟩

/-- The child has left the run queue, so it was dispatched. -/
theorem tasks_never_lost_sample : 3 ∈ pairCreate.runList .globalRunQueue ∧
    3 ∉ pairStart.runList .globalRunQueue ∧
    (3 ∈ pairStart.runList .globalRunQueue ∨
      .dispatched .globalRunQueue 3 ∈ [TaskEvent.dispatched .globalRunQueue 3]) :=
  ⟨by decide +kernel, by decide +kernel, (tasks_never_lost pair_later 3).1 _ (by decide +kernel)⟩

/-- **The record of a task stays its own until the slot is freed.**  CREATE reads the id of a
child and YIELD the hart of its caller while other harts may already run these tasks: the read
gives the id that the task had, and follows no null pointer. -/
theorem records_stay (hl : Later c c') (h : HartIndex) {t : TaskRef}
    (ht : c.state.taskSlotsUsed t = true) : .freed t ∈ c'.aux ∨
      exec h (.createdTid t (c.state.tasks t).tid) c'.state =
        .ok (c.state.tasks t).tid c'.state ∧
      exec h (.yieldScheduler t (c.state.tasks t).tid) c'.state = .ok () c'.state := by
  obtain ⟨loc, loc', -, hi', hf⟩ := hl.followed
  rcases (hf t).2 ht with hfreed | ⟨hused, htid⟩
  · exact .inl hfreed
  · obtain ⟨p, hp⟩ := Option.ne_none_iff_exists'.mp ((hi'.used t).mp hused)
    exact .inr ⟨by rw [exec, htid], schedulerOf_eq hi' hp⟩

/-- The first hart reads the record of the child while the second one runs it. -/
theorem records_stay_sample : (pairStart.harts 1).currentTask = some 3 ∧
    exec 0 (.createdTid 3 (pairCreate.tasks 3).tid) pairStart =
      .ok (pairCreate.tasks 3).tid pairStart ∧
    exec 0 (.yieldScheduler 3 (pairCreate.tasks 3).tid) pairStart = .ok () pairStart :=
  ⟨by decide +kernel, (records_stay pair_later 0 (by decide +kernel)).resolve_left (by decide)⟩

/-- **The harts never stall.**  As long as a hart is in the kernel and no lock was left behind
by a hart that has stopped, some hart in the kernel is not waiting for a lock. -/
theorem some_hart_proceeds {c c' : Config HartIndex Kernel Loc Action}
    (hc : (lockView c).Initial) (hs : (machine legal).Steps c c')
    (hlocks : ∀ l i, c'.state.locks l = some i → c'.thread i ≠ .halted) {q : KProc Unit}
    (hbusy : c'.thread h = .busy q) : ∃ i q, c'.thread i = .busy q ∧
      ∀ l, (lockView c').Wants lockUse i l → c'.state.locks l = none := by
  by_contra hstall
  push Not at hstall
  obtain ⟨held, hok⟩ := locks_ok_of_steps hc hs
  refine LockOrder.Config.Ok.no_waiting_set ⟨held, hok⟩ (S := { i | ∃ q, c'.thread i = .busy q })
    ⟨h, q, hbusy⟩ fun i hi => ?_
  obtain ⟨q, hq⟩ := hi
  obtain ⟨l, hw, hl⟩ := hstall i q hq
  obtain ⟨j, hj⟩ := Option.ne_none_iff_exists'.mp hl
  refine ⟨l, hw, j, ?_, hj⟩
  -- An idle hart holds no lock.
  cases ht : c'.thread j with
  | busy q => exact ⟨q, ht⟩
  | halted => exact absurd ht (hlocks l j hj)
  | idle =>
    have hidle := hok.thread j
    rw [show (lockView c').thread j = .idle from ht] at hidle
    have hmem := (hok.owner l j).mp hj
    rw [show held j = [] from hidle] at hmem
    cases hmem

section Sample

variable {clock : Clock}

/-- A call that makes an endpoint comes to the lock of the table, -/
theorem endpointCreate_wants (clock : Clock) (hcur : (k.harts h).currentTask = some t) :
    ∃ next, Proc.Reaches (exec h) (dispatch h t (k.tasks t).tid (callFrame 6) clock) k
      (.act (.acquire .table) next) (k.entered h t (callFrame 6)) :=
  ⟨_, (dispatch_reaches hcur (callFrame_isSyscall 6)).trans (.perform rfl .refl)⟩

/-- and takes it if it is free. -/
theorem endpointCreate_takes (clock : Clock) (hcur : (k.harts h).currentTask = some t)
    (hfree : k.locks .table = none) :
    ∃ q k', Proc.Reaches (exec h) (dispatch h t (k.tasks t).tid (callFrame 6) clock) k q k' ∧
      k' = (k.entered h t (callFrame 6)).setLock .table (some h) := by
  obtain ⟨next, hreach⟩ := endpointCreate_wants clock hcur
  refine ⟨next (), _, hreach.trans (.act ?_ .refl), rfl⟩
  rw [exec, acquire, show (k.entered h t (callFrame 6)).locks .table = none from hfree]

end Sample

/-- Both harts make an endpoint: the first one holds the lock of the table, and the second one
wants it. -/
theorem some_hart_proceeds_sample : ∃ c : Config HartIndex Kernel Loc Action,
    c.state.locks .table = some 0 ∧ (lockView c).Wants lockUse 1 .table ∧
    ∃ i q, c.thread i = .busy q ∧
      ∀ l, (lockView c).Wants lockUse i l → c.state.locks l = none := by
  obtain ⟨loc, hq⟩ := (pairStart_run.quiescent : ∃ loc, Quiescent True pairStart loc)
  have hstart : Starts True 0 pairStart
      (dispatch 0 2 (pairStart.tasks 2).tid (callFrame 6) .zero) := .call (by decide +kernel)
  obtain ⟨q, k1, hfirst, hk1⟩ := endpointCreate_takes (h := 0) (t := 2) (k := pairStart)
    .zero (by decide +kernel) (hq.unlocked _)
  obtain ⟨g, hsteps⟩ := start_reaches (machine True) (c := ⟨pairStart, loc, fun _ => .idle⟩) rfl
    hstart hfirst
  have hcall : (k1.harts 1).currentTask = some 3 ∧ (k1.tasks 3).idle = false ∧
      (callFrame 6).isSyscall = true ∧ Syscall.ofNumber ((callFrame 6).x 17) ≠ none := by
    rw [hk1]
    decide +kernel
  obtain ⟨next, hsecond⟩ := endpointCreate_wants .zero hcall.1
  obtain ⟨g', hsteps'⟩ := start_reaches (machine True) (i := 1)
    (c := ⟨k1, g, update (fun _ => .idle) 0 (.busy q)⟩) rfl (.call hcall) hsecond
  have hsteps2 := hsteps.trans hsteps'
  have hinit : (lockView ⟨pairStart, loc, fun _ => .idle⟩).Initial := ⟨hq.unlocked, fun _ => rfl⟩
  have hbusy := some_hart_proceeds hinit hsteps2 (fun l i _ => ?_) (h := 1)
    (q := .act (.acquire .table) next) rfl
  · refine ⟨_, ?_, ⟨Unit, .acquire .table, next, rfl, rfl⟩, hbusy⟩
    rw [hk1]
    rfl
  · intro hhalt
    simp only [update_apply] at hhalt
    split at hhalt
    · cases hhalt
    · split at hhalt <;> cases hhalt

end Jixia
