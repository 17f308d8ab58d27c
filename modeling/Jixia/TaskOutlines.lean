/-
Outlines of the task manager and of the endpoint manager.

Every function runs from a hart that holds its caller and ends with the caller in its
hands again, or with the caller blocked and another task current (`User`).
-/
import Jixia.SchedulerOutlines

namespace Jixia

open Machine Proc KProc Function EndpointHandle

variable {solo legal : Prop} {h : HartIndex} {S : Holding} {t c i : TaskRef} {x y : Task}

/-! ### Whole holdings -/

namespace Holding

/-- Nothing is held. -/
abbrev empty (i : TaskRef) (current : Option TaskRef) : Holding :=
  { idle := i, current := current, tasks := fun _ => none }

/-- The hart holds its current task. -/
abbrev caller (i c : TaskRef) (x : Task) : Holding := (empty i (some c)).hold c x

/-- The same under locks. -/
abbrev under (S : Holding) (L : List Lock) : Holding := { S with locks := L }

theorem caller_self (i c : TaskRef) (x : Task) : (caller i c x).tasks c = some x := hold_self ..

theorem caller_other (hne : t ≠ c) : (caller i c x).tasks t = none := hold_of_ne hne ..

theorem caller_drop (i c : TaskRef) (x : Task) : (caller i c x).drop c = empty i (some c) := by
  rw [hold_drop, drop_none rfl]

theorem caller_under_hold (i c : TaskRef) (x y : Task) (L : List Lock) :
    ((caller i c x).under L).hold c y = (caller i c y).under L :=
  congrArg (fun S => under S L) (hold_hold (empty i (some c)) c x y)

theorem caller_under_drop (i c : TaskRef) (x : Task) (L : List Lock) :
    ((caller i c x).under L).drop c = (empty i (some c)).under L :=
  congrArg (fun S => under S L) (caller_drop i c x)

theorem hold_drop_comm (hne : t ≠ c) (S : Holding) (x : Task) :
    (S.hold t x).drop c = (S.drop c).hold t x :=
  congrArg (fun T => { S with tasks := T }) (update_comm hne (some x) none S.tasks)

end Holding

open Holding

/-- The hart holds its current task, which is running, and the locks `L`. -/
def Ready (solo : Prop) (h : HartIndex) (L : List Lock) (k : Kernel) (loc : Loc) : Prop :=
  ∃ i c x, (x.state = .running ∧ x.cpu = some h) ∧ Holds solo h ((caller i c x).under L) k loc

/-- A hart at the border to user mode. -/
abbrev User (solo : Prop) (h : HartIndex) : Kernel → Loc → Prop := Ready solo h []

/-- The record of the caller of a syscall. -/
structure Calling (h : HartIndex) (i c : TaskRef) (x : Task) : Prop where
  running : x.state = .running
  cpu : x.cpu = some h
  idle : x.idle = false
  ne : c ≠ i

theorem Calling.context (hx : Calling h i c x) (context : TaskContext) :
    Calling h i c { x with context := context } :=
  ⟨hx.running, hx.cpu, hx.idle, hx.ne⟩

/-- Another task is made current once the caller is given away. -/
theorem outline_dispatchNext {L : List Lock} (hL : Leaf ((empty i none).under L)) (clock : Clock)
    (c : Option TaskRef) {F : Kernel → Loc → Prop} [Frame h L F] :
    Outline solo legal h (setNextRunnable h clock) (At solo h ((empty i c).under L) F) fun _ =>
      Ready solo h L := by
  refine (outline_setNextRunnable (S := (empty i c).under L) ⟨hL.run, hL.delay⟩ rfl clock).post ?_
  rintro b k loc - ⟨u, x, ⟨-, -, hs, hc⟩, hat⟩
  exact ⟨i, u, x, ⟨hs, hc⟩, hat.imp trivial⟩

theorem outline_release_ready {l : Lock} {L : List Lock} (hl : l ∉ L) (hne : l ≠ .table) :
    Outline solo legal h (perform (.release l)) (Ready solo h (l :: L)) fun _ =>
      Ready solo h L := by
  refine .exists fun i => .exists fun c => .exists fun x => .pure fun hx => ?_
  refine (outline_release rfl hl (fun _ _ hf => hf) fun hh => absurd hh hne).post ?_
  exact fun _ k loc _ hat => ⟨i, c, x, hx, hat⟩

theorem leaf_of_locks {S : Holding} (hL : ∀ l ∈ S.locks, (∀ q, l ≠ .runQueue q) ∧
    ∀ q, l ≠ .delayQueue q) : Leaf S :=
  ⟨fun q hq => (hL _ hq).1 q rfl, fun q hq => (hL _ hq).2 q rfl⟩

theorem leaf_nil {S : Holding} (hL : S.locks = []) : Leaf S :=
  leaf_of_locks (by simp [hL])

/-! ### The task manager -/

theorem outline_createTask (hx : Calling h i c x) (entry argument : Word) (space : AddressSpace) :
    Outline solo legal h (createTask entry argument space h false) (Holds solo h (caller i c x))
      fun b k loc => (b = none ∧ Holds solo h (caller i c x) k loc) ∨
        ∃ t y, (b = some (t, y.tid) ∧ y.state = .ready ∧ y.idle = false ∧ t ≠ c) ∧
          Holds solo h ((caller i c x).hold t y) k loc := by
  refine outline_locked (outline_acquire List.not_mem_nil fun _ _ _ hf => hf)
    (outline_createTaskLocked (S := (caller i c x).under [.taskManager]) rfl (caller_self i c x)
      hx.cpu entry argument space true)
    fun b => .or (.pure fun hb => ?_) (.exists fun t => .exists fun y => .pure ?_)
  · exact (outline_release (l := .taskManager) rfl List.not_mem_nil (fun _ _ hf => hf)
      fun hh => nomatch hh).post fun _ _ _ _ hat => .inl ⟨hb, hat⟩
  · rintro ⟨hb, hs, hid, hnone⟩
    refine (outline_release (l := .taskManager) rfl List.not_mem_nil (fun _ _ hf => hf)
      fun hh => nomatch hh).post fun _ _ _ _ hat => .inr ⟨t, y, ⟨hb, hs, hid, ?_⟩, hat⟩
    rintro rfl
    rw [caller_self] at hnone
    cases hnone

/-- A waiting parent is made ready. -/
theorem outline_joinWake (hL : Leaf S) (waiter : Option TaskRef) :
    Outline solo legal h (joinWake waiter)
      (fun k loc => (waiter = none ∧ Holds solo h S k loc) ∨
        ∃ u y, (waiter = some u ∧ y.state = .blockedJoin ∧ y.idle = false ∧ S.tasks u = none) ∧
          Holds solo h (S.hold u y) k loc) fun _ => Holds solo h S := by
  refine .or (.pure ?_) (.exists fun u => .exists fun y => .pure ?_)
  · rintro rfl
    exact .ret fun _ _ _ hat => hat
  · rintro ⟨rfl, hstate, hidle, hnone⟩
    have hwake : Outline solo legal h (do let added ← addTask u; parkUnless added .endTaskJoinWake)
        (Holds solo h (S.hold u y)) _ :=
      outline_wake (hold_self ..) hidle (by rw [hstate]; exact TaskState.noConfusion)
        ⟨hL.run, hL.delay⟩ .endTaskJoinWake
    rw [hold_drop, drop_none hnone] at hwake
    exact (outline_scheduler_held (hold_self ..)).bind fun _ => hwake

/-- The ended task is freed. -/
theorem outline_reap (hx : S.tasks t = some x) (hended : x.state = .ended)
    (hidle : x.idle = false) (hreaped : S.reaped = none) (hlocks : S.locks = [])
    (returnValue : Word)
    {status : ExitStatus} (hstatus : legal → status = .exitedClean) :
    Outline solo legal h (reap t returnValue status) (Holds solo h S) fun _ =>
      Holds solo h (S.drop t) := by
  obtain ⟨i, c, T, R, L⟩ := S
  cases hlocks
  cases hreaped
  refine outline_locked (outline_acquire List.not_mem_nil fun _ _ _ hf => hf)
    ((outline_endTaskLocked (S := ⟨i, c, T, none, [.taskManager]⟩) hx hended hidle rfl
      List.mem_cons_self returnValue hstatus).bind fun waiter => ?_)
    fun _ => outline_release (S := ⟨i, c, update T t none, none, [.taskManager]⟩)
      (l := .taskManager) rfl List.not_mem_nil (fun _ _ hf => hf) fun hh => nomatch hh
  refine ((outline_joinWake (S := ⟨i, c, update T t none, some t, [.taskManager]⟩)
    (leaf_of_locks (by simp)) waiter).pre ?_).bind fun _ => outline_releaseTaskLocked rfl
  · rintro k loc - (hn | ⟨u, y, ⟨hb, hs, hid, hut, hnone⟩, hat⟩)
    · exact .inl hn
    · refine .inr ⟨u, y, ⟨hb, hs, hid, ?_⟩, hat⟩
      exact (update_of_ne hut ..).trans hnone

/-- **A task ends**: the hart goes on with another one. -/
theorem outline_endTask (hx : Calling h i c x) (returnValue : Word) {status : ExitStatus}
    (hstatus : legal → status = .exitedClean) (clock : Clock) :
    Outline solo legal h (endTask h c returnValue status clock) (Holds solo h (caller i c x))
      fun _ => User solo h := by
  refine outline_loadHart.bind fun hart => .pure fun hhart =>
    (outline_loadTask (caller_self i c x)).bind fun task => .pure fun _ => ?_
  rw [if_pos (by rw [hhart.current]; exact beq_self_eq_true _)]
  refine (outline_setState (caller_self i c x) hx.idle .ended).bind fun _ => ?_
  rw [hold_hold]
  refine (outline_scheduler_held (caller_self ..)).bind fun _ => ?_
  refine (outline_setNextRunnable (leaf_nil rfl) (caller_other hx.ne.symm) clock).bind
    fun b => .exists fun u => .exists fun y => .pure ?_
  rintro ⟨-, hnone, hs, hc⟩
  have huc : u ≠ c := by
    rintro rfl
    rw [caller_self] at hnone
    cases hnone
  set z : Task := { x with state := .ended }
  have hz : ((({ caller i c z with current := some u } : Holding)).hold u y).tasks c = some z := by
    rw [hold_of_ne huc.symm]
    exact caller_self i c z
  refine (outline_reap hz rfl hx.idle rfl rfl returnValue hstatus).post fun _ k loc _ hat => ?_
  refine ⟨i, u, y, ⟨hs, hc⟩, ?_⟩
  rw [hold_drop_comm huc] at hat
  have hdrop : ({ caller i c z with current := some u } : Holding).drop c = empty i (some u) := by
    rw [show ({ caller i c z with current := some u } : Holding) = (empty i (some u)).hold c z
      from rfl, hold_drop, drop_none rfl]
  rwa [hdrop] at hat

/-- The caller of `wait_task` goes on, or another task does. -/
theorem outline_waitTask (hx : Calling h i c x) (tid : Word) (clock : Clock) :
    Outline solo legal h (waitTask h c tid clock) (Holds solo h (caller i c x)) fun b k loc =>
      (∃ context, b ≠ .blocked ∧ Holds solo h (caller i c { x with context := context }) k loc) ∨
      (b = .blocked ∧ User solo h k loc) := by
  refine outline_loadHart.bind fun hart => .pure fun hhart =>
    (outline_parkUnless (by rw [hhart.current]; exact beq_self_eq_true _)).bind fun _ => ?_
  have hbody : Outline solo legal h
      (do let result ← perform (.waitTaskLocked c tid); dispatchBlocked h c clock result)
      (Holds solo h ((caller i c x).under [.taskManager])) fun b k loc =>
        (∃ context, b ≠ .blocked ∧
          Holds solo h ((caller i c { x with context := context }).under [.taskManager]) k loc) ∨
        (b = .blocked ∧ Ready solo h [.taskManager] k loc) := by
    refine (outline_waitTaskLocked (S := (caller i c x).under [.taskManager])
      (caller_self i c x) hx.idle List.mem_cons_self tid).bind fun b =>
        .or (.exists fun context => .pure fun hb => ?_) (.pure ?_)
    · have hret : dispatchBlocked h c clock b = pure b := by
        cases b with
        | blocked => exact absurd rfl hb
        | _ => rfl
      rw [hret, caller_under_hold]
      exact .ret fun k loc _ hat => .inl ⟨context, hb, hat⟩
    · rintro rfl
      rw [caller_under_drop]
      refine (outline_scheduler (h := h) (S := (empty i (some c)).under [.taskManager])
        (F := Joining c) fun k loc hat => ⟨.join, hat.frame⟩).bind fun _ => ?_
      refine (outline_dispatchNext (leaf_of_locks (by simp)) clock (some c)).bind fun _ => ?_
      exact .ret fun k loc _ hat => .inr ⟨rfl, hat⟩
  refine outline_locked (outline_acquire List.not_mem_nil fun _ _ _ hf => hf) hbody
    fun b => .or (.exists fun context => .pure fun hb => ?_) (.pure fun hb => ?_)
  · exact (outline_release (l := .taskManager) rfl List.not_mem_nil (fun _ _ hf => hf)
      fun hh => nomatch hh).post fun _ _ _ _ hat => .inl ⟨context, hb, hat⟩
  · exact (outline_release_ready (l := .taskManager) List.not_mem_nil (fun hh => nomatch hh)).post
      fun _ _ _ _ hat => .inr ⟨hb, hat⟩

theorem outline_detachTask (hx : Calling h i c x) :
    Outline solo legal h (detachTask h c) (Holds solo h (caller i c x)) fun _ =>
      Holds solo h (caller i c { x with detached := true }) := by
  refine outline_loadHart.bind fun hart => .pure fun hhart =>
    (outline_parkUnless (by rw [hhart.current]; exact beq_self_eq_true _)).bind fun _ => ?_
  have hstate : x.state ≠ .ended := by
    rw [hx.running]
    exact TaskState.noConfusion
  refine outline_locked (outline_acquire List.not_mem_nil fun _ _ _ hf => hf)
    (outline_detachTaskLocked (S := (caller i c x).under [.taskManager]) (caller_self i c x)
      hstate) fun b => .pure fun _ => ?_
  rw [caller_under_hold]
  exact outline_release (l := .taskManager) rfl List.not_mem_nil (fun _ _ hf => hf)
    fun hh => nomatch hh

/-! ### The endpoint manager -/

theorem outline_createEndpoint (hL : S.locks = []) (owner : TaskId) :
    Outline solo legal h (createEndpoint owner) (Holds solo h S) fun _ => Holds solo h S := by
  obtain ⟨i, c, T, R, L⟩ := S
  cases hL
  refine outline_locked (outline_acquire (G := Quiet) List.not_mem_nil fun _ _ hq _ => hq rfl)
    ((outline_findFreeEndpoint (h := h) (S := ⟨i, c, T, R, [.table]⟩)).bind
      fun b => .or (.pure ?_) (.exists fun e => .pure ?_))
    fun _ => outline_release (S := ⟨i, c, T, R, [.table]⟩) (F := Quiet) rfl List.not_mem_nil
      (fun _ _ _ => trivial) fun _ _ _ hq => hq
  · rintro rfl
    exact .ret fun _ _ _ hat => hat
  · rintro rfl
    refine outline_locked (outline_acquire (G := FreeSlot e) (by simp) fun _ _ _ hf => hf)
      ((outline_createEndpointLocked (h := h) (S := ⟨i, c, T, R, [.endpoint e, .table]⟩) owner
        (by simp)
        (by simp)).bind fun _ => .ret fun _ _ _ hat => hat)
      fun _ => outline_release (S := ⟨i, c, T, R, [.endpoint e, .table]⟩) (F := Quiet) rfl
        (by simp) (fun _ _ hf => hf) fun hh => nomatch hh

/-- Every round wakes one receiver. -/
theorem outline_wakeAll {e : EndpointRef} (hL : S.locks = [.endpoint e, .table]) (n : ℕ) :
    Outline solo legal h (wakeAll e n) (At solo h S (Dying e n)) fun _ => At solo h S Quiet := by
  obtain ⟨i, c, T, R, L⟩ := S
  cases hL
  induction n with
  | zero =>
    -- No set of receivers has fewer than zero elements.
    refine Valid.perform (fun k loc _ hat => absurd hat.frame.2.2 (Nat.not_lt_zero _))
      fun _ => At.stable _ _
  | succ n ih =>
    refine (outline_destroyPop (h := h) (S := ⟨i, c, T, R, [.endpoint e, .table]⟩)
      List.mem_cons_self).bind fun b => .or (.pure ?_) (.exists fun t => .exists fun x => .pure ?_)
    · rintro rfl
      exact .ret fun _ _ _ hat => hat
    · rintro ⟨rfl, hstate, hidle, hnone⟩
      have hadd : Outline solo legal h (addTask t)
          (At solo h (hold ⟨i, c, T, R, [.endpoint e, .table]⟩ t x) (Dying e n)) _ :=
        outline_addTask (hold_self ..) hidle (by rw [hstate]; exact TaskState.noConfusion)
          (leaf_of_locks (by simp))
      rw [hold_drop, drop_none hnone] at hadd
      exact (outline_scheduler_held (hold_self ..)).bind fun _ => hadd.bind fun b =>
        .pure fun hb => (outline_parkUnless hb).bind fun _ => ih.pre fun _ _ _ hat => hat.1

theorem outline_destroyEndpoint (hL : S.locks = []) (owner : TaskId) (handle : Word) :
    Outline solo legal h (destroyEndpoint owner handle) (Holds solo h S) fun _ =>
      Holds solo h S := by
  obtain ⟨i, c, T, R, L⟩ := S
  cases hL
  rw [destroyEndpoint]
  split
  · set e := (fromRaw handle).slot with he
    refine outline_locked (outline_acquire (G := Quiet) List.not_mem_nil fun _ _ hq _ => hq rfl)
      (outline_locked (outline_acquire (S := ⟨i, c, T, R, [.table]⟩) (G := Quiet) (by simp)
          fun _ _ _ hf => hf)
        ((outline_destroyEndpointLocked (h := h) (S := ⟨i, c, T, R, [.endpoint e, .table]⟩)
          owner (.fromRaw handle) (by simp [he]) (by simp)).bind
            fun b => .or (.pure ?_) (.pure ?_))
        fun _ => outline_release (S := ⟨i, c, T, R, [.endpoint e, .table]⟩) (F := Quiet) rfl
          (by simp) (fun _ _ hf => hf) (by simp))
      fun _ => outline_release (S := ⟨i, c, T, R, [.table]⟩) (F := Quiet) rfl List.not_mem_nil
        (fun _ _ _ => trivial) fun _ _ _ hq => hq
    · rintro ⟨code, rfl⟩
      exact .ret fun _ _ _ hat => hat
    · rintro rfl
      exact (outline_wakeAll rfl _).bind fun _ => .ret fun _ _ _ hat => hat
  · exact .ret fun _ _ _ hat => hat

theorem outline_send (hL : S.locks = []) (sender : TaskId) (handle : Word)
    (words : Fin 4 → Word) :
    Outline solo legal h (send sender handle words) (Holds solo h S) fun _ => Holds solo h S := by
  obtain ⟨i, c, T, R, L⟩ := S
  cases hL
  rw [send]
  split
  · refine outline_locked (outline_acquire List.not_mem_nil fun _ _ _ hf => hf)
      ((outline_sendLocked (h := h)
        (S := ⟨i, c, T, R, [.endpoint (fromRaw handle).slot]⟩) sender
        (.fromRaw handle) words List.mem_cons_self).bind
          fun b => .or (.pure ?_) (.exists fun t => .exists fun x => .pure ?_))
      fun _ => outline_release
        (S := ⟨i, c, T, R, [.endpoint (fromRaw handle).slot]⟩) rfl
        List.not_mem_nil (fun _ _ hf => hf) fun hh => nomatch hh
    · rintro ⟨code, rfl⟩
      exact .ret fun _ _ _ hat => hat
    · rintro ⟨rfl, hstate, hidle, hnone⟩
      have hadd : Outline solo legal h (addTask t) (Holds solo h
          (hold ⟨i, c, T, R, [.endpoint (fromRaw handle).slot]⟩ t x)) _ :=
        outline_addTask (hold_self ..) hidle (by rw [hstate]; exact TaskState.noConfusion)
          (leaf_of_locks (by simp))
      rw [hold_drop, drop_none hnone] at hadd
      exact (outline_scheduler_held (hold_self ..)).bind fun _ => hadd.bind fun b =>
        .pure fun hb => (outline_parkUnless hb).bind fun _ => .ret fun _ _ _ hat => hat.1
  · exact .ret fun _ _ _ hat => hat

theorem outline_tryRecv (hL : S.locks = []) (handle : Word) :
    Outline solo legal h (tryRecv handle) (Holds solo h S) fun _ => Holds solo h S := by
  obtain ⟨i, c, T, R, L⟩ := S
  cases hL
  rw [tryRecv]
  split
  · exact outline_locked (outline_acquire List.not_mem_nil fun _ _ _ hf => hf)
      (outline_tryRecvLocked (S := ⟨i, c, T, R, [.endpoint (fromRaw handle).slot]⟩)
        (.fromRaw handle) List.mem_cons_self)
      fun _ => outline_release
        (S := ⟨i, c, T, R, [.endpoint (fromRaw handle).slot]⟩) rfl
        List.not_mem_nil (fun _ _ hf => hf) fun hh => nomatch hh
  · exact .ret fun _ _ _ hat => hat

/-- The caller of `recv` goes on, or another task does. -/
theorem outline_recv (hx : Calling h i c x) (handle : Word) (clock : Clock) :
    Outline solo legal h (recv h c handle clock) (Holds solo h (caller i c x)) fun b k loc =>
      (∃ context, b ≠ .blocked ∧ Holds solo h (caller i c { x with context := context }) k loc) ∨
      (b = .blocked ∧ User solo h k loc) := by
  refine (outline_loadTask (caller_self i c x)).bind fun task => .pure ?_
  rintro ⟨rfl, hown⟩
  refine (outline_parkUnless (by rw [hown.waiting]; rfl)).bind fun _ => ?_
  simp only
  split
  · rename_i hwf
    set L : List Lock := [.endpoint (fromRaw handle).slot] with hL
    -- After the section the caller still runs, or another task does.
    refine outline_locked (R := fun b k loc =>
        (∃ context, b ≠ .blocked ∧
          Holds solo h ((caller i c { task with context := context }).under L) k loc) ∨
        (b = .blocked ∧ Ready solo h L k loc))
      (outline_acquire List.not_mem_nil fun _ _ _ hf => hf)
      ((outline_recvLocked (S := (caller i c task).under L) (caller_self i c task) hx.idle
        hwf hL).bind fun b => .or (.exists fun context => .pure fun hb => ?_) (.pure ?_))
      fun b => .or (.exists fun context => .pure fun hb => ?_) (.pure fun hb => ?_)
    · rw [caller_under_hold]
      cases b with
      | blocked => exact absurd rfl hb
      | delivered => exact .ret fun k loc _ hat => .inl ⟨context, hb, hat⟩
      | rejected => exact .ret fun k loc _ hat => .inl ⟨context, hb, hat⟩
    · rintro rfl
      rw [caller_under_drop]
      refine (outline_scheduler (h := h) (S := (empty i (some c)).under L)
        (F := WaitingAt (fromRaw handle).slot c)
        fun k loc hat => ⟨_, hat.frame⟩).bind fun _ => ?_
      refine (outline_dispatchNext (leaf_of_locks (by simp [hL])) clock (some c)).bind
        fun _ => ?_
      exact .ret fun k loc _ hat => .inr ⟨rfl, hat⟩
    · exact (outline_release (l := .endpoint (fromRaw handle).slot) rfl
        List.not_mem_nil (fun _ _ hf => hf) (by simp)).post
        fun _ _ _ _ hat => .inl ⟨context, hb, hat⟩
    · exact (outline_release_ready (l := .endpoint (fromRaw handle).slot)
        List.not_mem_nil (by simp)).post fun _ _ _ _ hat => .inr ⟨hb, hat⟩
  · refine (outline_setReg (caller_self i c task) 10 _).bind fun _ => ?_
    rw [hold_hold]
    exact .ret fun k loc _ hat => .inl ⟨_, RecvStatus.noConfusion, hat⟩

end Jixia
