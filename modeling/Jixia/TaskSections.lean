/-
The lock sections of `end_task` and `wait_task`, by cases.

For every section there is a relation that lists its branches with the state each
one leaves (`EndCase`, `FindCase`, `WaitCase`), a theorem that the
section takes one of them, and a theorem that the tracker table stays well formed.
-/
import Jixia.TrackerTable

namespace Jixia

open Kernel

open Function

open LinkedList

variable {k k' : Kernel} {t : TaskRef} {r c : TrackerRef} {p : Option TrackerRef}
  {X : TrackerRef → Prop} {live joined : TaskRef → Prop}

/-! ### end_task -/

/-- The kernel after the exit of the task of the tracker `r` was recorded. -/
def Kernel.exited (k : Kernel) (r : TrackerRef) (returnValue : Word) (status : ExitStatus) :
    Kernel :=
  k.modifyTracker r fun tracker =>
    { tracker with status := status, returnValue := returnValue, task := none }

/-- The kernel after a join was ended: the waiting parent `p` gets the task id. -/
def Kernel.joinEnded (k : Kernel) (p : TrackerRef) (waiter : TaskRef) (tid : TaskId) : Kernel :=
  (k.modifyTracker p fun tracker =>
    { tracker with wait := { tracker.wait with active := false } }).setReg waiter 10
      tid

/-- The table once the exit is recorded. -/
theorem exited_self (k : Kernel) (r : TrackerRef) (value : Word) (status : ExitStatus) :
    (k.exited r value status).trackers r =
      { k.trackers r with status := status, returnValue := value, task := none } := update_self ..

theorem exited_trackers_of_ne (hcr : c ≠ r) (value : Word) (status : ExitStatus) :
    (k.exited r value status).trackers c = k.trackers c := update_of_ne hcr ..

theorem exited_field (k : Kernel) (r : TrackerRef) (value : Word) (status : ExitStatus)
    (d : TrackerRef) :
    ((k.exited r value status).trackers d).parent = (k.trackers d).parent ∧
      ((k.exited r value status).trackers d).key = (k.trackers d).key ∧
      ((k.exited r value status).trackers d).wait = (k.trackers d).wait := by
  by_cases hdr : d = r
  · rw [hdr, exited_self]
    exact ⟨rfl, rfl, rfl⟩
  · rw [exited_trackers_of_ne hdr]
    exact ⟨rfl, rfl, rfl⟩

/-- The table once the join is ended. -/
theorem joinEnded_field (k : Kernel) (q : TrackerRef) (waiter : TaskRef) (tid : TaskId)
    (d : TrackerRef) :
    ((k.joinEnded q waiter tid).trackers d).parent = (k.trackers d).parent ∧
      ((k.joinEnded q waiter tid).trackers d).key = (k.trackers d).key ∧
      ((k.joinEnded q waiter tid).trackers d).task = (k.trackers d).task := by
  rw [joinEnded, setReg, modifyTask_trackers, modifyTracker_trackers]
  by_cases hdq : d = q
  · rw [hdq, update_self]
    exact ⟨rfl, rfl, rfl⟩
  · rw [update_of_ne hdq]
    exact ⟨rfl, rfl, rfl⟩

theorem TrackerInv.exited (h : TrackerInv k (fun _ => False) live joined) (hl : live t)
    (hj : ¬ joined t) (hr : (k.tasks t).tracker = some r) (returnValue : Word)
    (status : ExitStatus) :
    TrackerInv (k.exited r returnValue status) (· = r) (fun u => live u ∧ u ≠ t) joined := by
  obtain ⟨rank, kids, hf⟩ := h.forest
  obtain ⟨hused, htask, hkey⟩ := h.tracked hl hr
  have hother : ∀ c, c ≠ r → (k.exited r returnValue status).trackers c = k.trackers c :=
    fun c hc => exited_trackers_of_ne hc ..
  -- Only the task `t` had the tracker `r`.
  have hown : ∀ {u c}, u ≠ t → (k.trackers c).task = some u → c ≠ r := by
    rintro u c hut hc rfl
    rw [htask] at hc
    exact hut (Option.some.inj hc).symm
  refine ⟨⟨rank, kids, hf.modifyTracker hused fun _ => rfl⟩, ?_, ?_, ?_, ?_, ?_⟩
  · intro c hc hcr htc
    rw [hother c hcr] at htc
    rw [parentOf, hother c hcr]
    exact h.rooted c hc id htc
  · rintro u ⟨hu, hut⟩
    obtain ⟨c, hc, hcu, hct, hck⟩ := h.ofTask hu
    refine ⟨c, hc, hcu, ?_⟩
    rw [hother c (hown hut hct)]
    exact ⟨hct, hck⟩
  · intro c u hc htc
    by_cases hcr : c = r
    · rw [hcr, exited_self] at htc
      cases htc
    · rw [hother c hcr] at htc
      obtain ⟨hu, huc⟩ := h.ofTracker hc htc
      refine ⟨⟨hu, fun hut => ?_⟩, huc⟩
      rw [hut] at huc
      exact hcr (Option.some.inj (huc.symm.trans hr))
  · intro c hc hw
    rw [(exited_field ..).2.2] at hw
    obtain ⟨u, hu, hju⟩ := h.waiting hc hw
    have hut : u ≠ t := fun hut => hj (hut ▸ hju)
    refine ⟨u, ?_, hju⟩
    rw [hother c (hown hut hu), hu]
  · intro u hu
    have hut : u ≠ t := fun hut => hj (hut ▸ hu)
    obtain ⟨hlu, hact⟩ := h.joins hu
    refine ⟨⟨hlu, hut⟩, fun c hc => ?_⟩
    obtain ⟨c', hc', _, hct, _⟩ := h.ofTask hlu
    rw [show (k.exited r returnValue status).tasks = k.tasks from rfl, hc'] at hc
    cases hc
    rw [hother c (hown hut hct)]
    exact hact c hc'

theorem TrackerInv.joinEnded {q : TrackerRef} {waiter : TaskRef}
    (h : TrackerInv k X live joined) (hq : k.trackerSlotsUsed q = true)
    (hw : (k.trackers q).task = some waiter) (tid : TaskId) :
    TrackerInv (k.joinEnded q waiter tid) X live fun u => joined u ∧ u ≠ waiter := by
  have hoff : ¬ ({ (k.trackers q).wait with active := false } : WaitInfo).active = true :=
    Bool.false_ne_true
  exact h.rewait hq hw { (k.trackers q).wait with active := false }
    (f := fun task => { task with context := task.context.setX 10 tid })
    (fun _ => ⟨rfl, rfl⟩) (fun v hv => and_iff_left hv)
    (iff_of_false (fun hw => hw.2 rfl) hoff)

/-- The wait of the tracker `q` is for the child `c`. -/
def Kernel.WaitMatches (k : Kernel) (tid : Word) (c : TrackerRef) : Prop :=
  tid.toInt < 0 ∨ tid = (k.trackers c).key

/-- The branches of `endTaskLocked` for a task with the tracker `r`. -/
inductive EndCase (k : Kernel) (t : TaskRef) (r : TrackerRef) (returnValue : Word)
    (status : ExitStatus) : Outcome (Option TaskRef) → Prop
  | detachedCrashed : (k.tasks t).detached = true → status = .crashed →
      EndCase k t r returnValue status
        (.error (.park .endTaskDetachedCrashed) (k.exited r returnValue status))
  | rootCrashed : (k.tasks t).detached = false → k.parentOf r = none → status = .crashed →
      EndCase k t r returnValue status
        (.error (.park .endTaskRootCrashed) (k.exited r returnValue status))
  | orphan {e : Halt} {k' : Kernel} : k.parentOf r = none → status ≠ .crashed →
      CrashedOrphan e (k.exited r returnValue status) k' →
      EndCase k t r returnValue status (.error e k')
  | removed {k' : Kernel} : (k.tasks t).detached = true ∨ k.parentOf r = none →
      status ≠ .crashed → Removed (k.exited r returnValue status) k' r →
      EndCase k t r returnValue status (.ok none k')
  | kept {q : TrackerRef} : (k.tasks t).detached = false → k.parentOf r = some q →
      ¬ ((k.trackers q).wait.active = true ∧ k.WaitMatches (k.trackers q).wait.tid r) →
      EndCase k t r returnValue status (.ok none (k.exited r returnValue status))
  | woken {q : TrackerRef} {waiter : TaskRef} {k' : Kernel} : (k.tasks t).detached = false →
      k.parentOf r = some q → (k.trackers q).wait.active = true →
      k.WaitMatches (k.trackers q).wait.tid r → (k.trackers q).task = some waiter →
      Removed ((k.exited r returnValue status).joinEnded q waiter (k.tasks t).tid) k' r →
      EndCase k t r returnValue status (.ok (some waiter) k')

/-- The section over the state in which the exit is recorded. -/
theorem endTaskLocked_eq (hr : (k.tasks t).tracker = some r) (returnValue : Word)
    (status : ExitStatus) : k.endTaskLocked t returnValue status =
      let k1 := k.exited r returnValue status
      let remove : Outcome (Option TaskRef) :=
        (k1.removeTrackerLocked removalFuel r).andThen fun _ k => .ok none k
      if (k.tasks t).detached then
        if status == .crashed then .error (.park .endTaskDetachedCrashed) k1 else remove
      else
        match (k1.trackers r).parent with
        | some q =>
          if (k1.trackers q).wait.active && ((k1.trackers q).wait.tid.toInt < 0 ||
              (k1.trackers q).wait.tid == (k.tasks t).tid) then
            match (k1.trackers q).task with
            | none => .error (.park .endTaskParentGone) k1
            | some waiter =>
              ((k1.joinEnded q waiter (k.tasks t).tid).removeTrackerLocked
                removalFuel r).andThen fun _ k =>
                  match (k.trackers q).task with
                  | none => .error .nullPointer k
                  | some waiter => .ok (some waiter) k
          else .ok none k1
        | none =>
          if status == .crashed then .error (.park .endTaskRootCrashed) k1 else remove := by
  rw [endTaskLocked, hr]
  rfl

theorem endTaskLocked_cases (h : TrackerInv k (fun _ => False) live joined) (hl : live t)
    (hj : ¬ joined t) (hr : (k.tasks t).tracker = some r) (returnValue : Word)
    (status : ExitStatus) :
    EndCase k t r returnValue status (k.endTaskLocked t returnValue status) := by
  obtain ⟨rank, kids, hf⟩ := h.forest
  obtain ⟨hused, htask, hkey⟩ := h.tracked hl hr
  have hinv := h.exited hl hj hr returnValue status
  have hpar : ((k.exited r returnValue status).trackers r).parent = k.parentOf r :=
    (exited_field ..).1
  -- The removal of the tracker, where the task is detached or kernel-parented.
  have hremove : (k.tasks t).detached = true ∨ k.parentOf r = none → status ≠ .crashed →
      EndCase k t r returnValue status (((k.exited r returnValue status).removeTrackerLocked
        removalFuel r).andThen fun _ k => .ok none k) := by
    intro hwhy hs
    rcases removeTracker_cases hinv hused with ⟨k', hk', hrem⟩ | ⟨e, k', hk', hp, horph⟩
    · rw [hk']
      exact .removed hwhy hs hrem
    · rw [hk']
      exact .orphan (hpar.symm.trans hp) hs horph
  rw [endTaskLocked_eq hr]
  simp only [hpar]
  by_cases hd : (k.tasks t).detached = true
  · rw [if_pos hd]
    by_cases hs : status = .crashed
    · rw [if_pos (by simp [hs])]
      exact .detachedCrashed hd hs
    · rw [if_neg (by simpa using hs)]
      exact hremove (.inl hd) hs
  · rw [if_neg hd]
    rw [Bool.not_eq_true] at hd
    cases hp : k.parentOf r with
    | none =>
      simp only
      by_cases hs : status = .crashed
      · rw [if_pos (by simp [hs])]
        exact .rootCrashed hd hp hs
      · rw [if_neg (by simpa using hs)]
        exact hremove (.inr hp) hs
    | some q =>
      have hqr : q ≠ r := fun hqr => hf.parent_ne hused id (hqr ▸ hp)
      have hqu := hf.parent_used hused id hp
      simp only [exited_trackers_of_ne hqr]
      have hmatch : ((k.trackers q).wait.active && ((k.trackers q).wait.tid.toInt < 0 ||
          (k.trackers q).wait.tid == (k.tasks t).tid)) = true ↔
          (k.trackers q).wait.active = true ∧ k.WaitMatches (k.trackers q).wait.tid r := by
        simp [Kernel.WaitMatches, hkey]
      by_cases hm : (k.trackers q).wait.active = true ∧ k.WaitMatches (k.trackers q).wait.tid r
      · rw [if_pos (hmatch.mpr hm)]
        obtain ⟨waiter, hw, -⟩ := h.waiting hqu hm.1
        have hw1 : ((k.exited r returnValue status).trackers q).task = some waiter := by
          rw [exited_trackers_of_ne hqr, hw]
        have hinv2 := hinv.joinEnded hqu hw1 (k.tasks t).tid
        have hje := joinEnded_field (k.exited r returnValue status) q waiter (k.tasks t).tid
        simp only [hw]
        rcases removeTracker_cases hinv2 hused with ⟨k', hk', hrem⟩ | ⟨e, k', -, hpn, horph⟩
        · rw [hk', Outcome.andThen_ok]
          -- The parent survives the removal with its task.
          have htq := (hje q).2.2.trans hw1
          have htr := (hje r).2.2.trans (congrArg TaskTracker.task (exited_self ..))
          have hq' := hrem.pruned.used_of_task htr hqu (by rw [htq]; exact Option.some_ne_none _)
          have htq' : (k'.trackers q).task = some waiter := by
            rw [(hrem.pruned.kept q hq').2, htq]
          simp only [htq']
          exact .woken hd hp hm.1 hm.2 hw hrem
        · cases hp.symm.trans (hpar.symm.trans ((hje r).1.symm.trans hpn))
      · rw [if_neg (mt hmatch.mp hm)]
        exact .kept hd hp hm

/-- The tasks that are still blocked in a join after the wake of `waiter`. -/
def stillJoined (joined : TaskRef → Prop) (waiter : Option TaskRef) (u : TaskRef) : Prop :=
  joined u ∧ waiter ≠ some u

theorem EndCase.inv (h : TrackerInv k (fun _ => False) live joined) (hl : live t)
    (hj : ¬ joined t) (hr : (k.tasks t).tracker = some r) {returnValue : Word}
    {status : ExitStatus} {waiter : Option TaskRef}
    (hc : EndCase k t r returnValue status (.ok waiter k')) :
    TrackerInv k' (fun _ => False) (fun u => live u ∧ u ≠ t) (stillJoined joined waiter) := by
  obtain ⟨rank, kids, hf⟩ := h.forest
  obtain ⟨hused, htask, hkey⟩ := h.tracked hl hr
  have hinv := h.exited hl hj hr returnValue status
  have hself : ((k.exited r returnValue status).trackers r).task = none := by
    rw [exited_self]
  have hnone : ∀ u, stillJoined joined none u ↔ joined u := fun u => by simp [stillJoined]
  cases hc with
  | removed _ _ hrem =>
    exact (hinv.removed hself hrem).congr rfl rfl rfl (fun _ _ => ⟨rfl, rfl⟩)
      (fun _ => Iff.rfl) hnone
  | @kept q _ hp _ =>
    refine TrackerInv.congr (X := fun _ => False) ⟨hinv.forest, fun c hc _ htc => ?_, hinv.ofTask,
      hinv.ofTracker, hinv.waiting, hinv.joins⟩ rfl rfl rfl
      (fun _ _ => ⟨rfl, rfl⟩) (fun _ => Iff.rfl) hnone
    by_cases hcr : c = r
    · rw [hcr, parentOf, (exited_field ..).1, ← parentOf, hp]
      exact Option.some_ne_none q
    · exact hinv.rooted c hc hcr htc
  | @woken q waiter _ _ hp hact _ hw hrem =>
    have hqr : q ≠ r := fun hqr => hf.parent_ne hused id (hqr ▸ hp)
    have hq : ((k.exited r returnValue status).trackers q).task = some waiter := by
      rw [exited_trackers_of_ne hqr, hw]
    refine ((hinv.joinEnded (hf.parent_used hused id hp) hq _).removed ?_ hrem).congr rfl rfl rfl
      (fun _ _ => ⟨rfl, rfl⟩) (fun _ => Iff.rfl) fun u => ?_
    · rw [(joinEnded_field ..).2.2, hself]
    · rw [stillJoined, ne_eq, Option.some.injEq, ne_comm, ne_eq]

/-- What becomes of the other task records: only the register of a woken parent. -/
theorem EndCase.tasks {returnValue : Word} {status : ExitStatus} {waiter : Option TaskRef}
    (hc : EndCase k t r returnValue status (.ok waiter k')) :
    k'.tasks = match waiter with
      | none => k.tasks
      | some w => (k.setReg w 10 (k.tasks t).tid).tasks := by
  cases hc with
  | removed _ _ hrem => exact hrem.pruned.tasks_eq
  | kept _ _ _ => rfl
  | woken _ _ _ _ _ hrem => exact hrem.pruned.tasks_eq

theorem EndCase.sameOutside {returnValue : Word} {status : ExitStatus} {waiter : Option TaskRef}
    (hc : EndCase k t r returnValue status (.ok waiter k')) : SameOutside k k' := by
  cases hc with
  | removed _ _ hrem =>
    exact hrem.pruned.sameOutside (show SameOutside k (k.exited r returnValue status) from rfl)
  | kept _ _ _ => exact rfl
  | @woken q waiter _ _ _ _ _ _ hrem =>
    exact hrem.pruned.sameOutside (show SameOutside k
      ((k.exited r returnValue status).joinEnded q waiter (k.tasks t).tid) from rfl)

theorem NoCrash.exited (h : NoCrash k) (r : TrackerRef) (returnValue : Word) :
    NoCrash (k.exited r returnValue .exitedClean) := by
  intro c hc
  by_cases hcr : c = r
  · rw [hcr, exited_self]
    exact ExitStatus.noConfusion
  · rw [exited_trackers_of_ne hcr]
    exact h c hc

/-- Without crashes a clean exit goes through and leaves no crash behind. -/
theorem EndCase.clean (h : NoCrash k) {returnValue : Word} {out : Outcome (Option TaskRef)}
    (hc : EndCase k t r returnValue .exitedClean out) :
    ∃ waiter k', out = .ok waiter k' ∧ NoCrash k' := by
  have hex := h.exited r returnValue
  cases hc with
  | detachedCrashed _ hs => cases hs
  | rootCrashed _ _ hs => cases hs
  | orphan _ _ ho => exact absurd hex ho.not_noCrash
  | removed _ _ hrem => exact ⟨_, _, rfl, hex.pruned hrem.pruned⟩
  | kept _ _ _ => exact ⟨_, _, rfl, hex⟩
  | @woken q waiter k' _ _ _ _ _ hrem =>
    refine ⟨_, _, rfl, NoCrash.pruned (fun c hc => ?_) hrem.pruned⟩
    rw [joinEnded, setReg, modifyTask_trackers,
      modifyTracker_trackers]
    by_cases hcq : c = q
    · rw [hcq, update_self]
      exact hex q (hcq ▸ hc)
    · rw [update_of_ne hcq]
      exact hex c hc

/-! ### find_child -/

/-- The search runs along the list of siblings. -/
theorem findSibling_eq {rank : TrackerRef → ℕ} {H : TrackerRef → Prop}
    {kids : Option TrackerRef → List TrackerRef}
    (hf : Forest k rank H kids) (q : Option TrackerRef) (test : TaskTracker → Bool) {fuel : ℕ}
    {l1 l2 : List TrackerRef} (hl : kids q = l1 ++ l2) (hfuel : l2.length < fuel) :
    k.findSibling test fuel l2.head? = some (l2.find? fun c => test (k.trackers c)) := by
  induction l2 generalizing l1 fuel with
  | nil =>
    cases fuel with
    | zero => omega
    | succ fuel => rfl
  | cons c l ih =>
    cases fuel with
    | zero => omega
    | succ fuel =>
      have hold := hf.family.holds q
      rw [hl] at hold
      have hnext : (k.trackers c).nextSibling = l.head? := (hold.neighbours l1).1
      rw [List.head?_cons, findSibling, List.find?_cons]
      cases htest : test (k.trackers c) with
      | true => simp
      | false =>
        rw [if_neg Bool.false_ne_true, hnext]
        have hl' : kids q = (l1 ++ [c]) ++ l := by
          rw [hl, List.append_assoc, List.singleton_append]
        exact ih hl' (Nat.lt_of_succ_lt_succ hfuel)

/-- The child `find_child_locked` chooses for a wait of the tracker `r`. -/
inductive FindCase (k : Kernel) (r : TrackerRef) (tid : Word) : Option TrackerRef → Prop
  | none : (∀ c, k.trackerSlotsUsed c = true → k.parentOf c = some r → ¬ k.WaitMatches tid c) →
      FindCase k r tid none
  | found {c : TrackerRef} : k.trackerSlotsUsed c = true → k.parentOf c = some r →
      k.WaitMatches tid c →
      (tid.toInt < 0 → (k.trackers c).task ≠ none → ∀ c', k.trackerSlotsUsed c' = true →
        k.parentOf c' = some r → (k.trackers c').task ≠ none) →
      FindCase k r tid (some c)

theorem findChildLocked_cases {rank : TrackerRef → ℕ}
    {kids : Option TrackerRef → List TrackerRef} (hf : Forest k rank (fun _ => False) kids)
    (r : TrackerRef) (tid : Word) :
    ∃ child, k.findChildLocked r tid = .ok child k ∧ FindCase k r tid child := by
  have hlen : (kids (some r)).length < kMaxTasks + 1 := by
    have hle := (hf.family.holds (some r)).nodup.length_le_card
    rw [Fintype.card_fin] at hle
    omega
  have hhead : (k.trackers r).firstChild = (kids (some r)).head? := hf.head_eq (some r)
  have hmem : ∀ {c}, c ∈ kids (some r) ↔ k.trackerSlotsUsed c = true ∧ k.parentOf c = some r := by
    intro c
    rw [hf.mem_kids]
    simp
  have hfind := fun test => findSibling_eq hf (some r) test (List.nil_append _).symm hlen
  simp only [findChildLocked, hhead, hfind]
  by_cases htid : 0 ≤ tid.toInt
  · rw [if_pos htid]
    have hmatch : ∀ c, k.WaitMatches tid c ↔ ((k.trackers c).key == tid) = true := by
      intro c
      rw [Kernel.WaitMatches, beq_iff_eq, or_iff_right (not_lt.mpr htid), eq_comm]
    refine ⟨_, rfl, ?_⟩
    cases hfound : (kids (some r)).find? fun c => (k.trackers c).key == tid with
    | none =>
      refine .none fun c hc hp hm => ?_
      rw [List.find?_eq_none] at hfound
      exact hfound c (hmem.mpr ⟨hc, hp⟩) ((hmatch c).mp hm)
    | some c =>
      have hc := hmem.mp (List.mem_of_find?_eq_some hfound)
      have hkey := List.find?_some hfound
      exact .found hc.1 hc.2 ((hmatch c).mpr hkey) fun hneg => absurd htid (not_le.mpr hneg)
  · rw [if_neg htid]
    have hmatch : ∀ c, k.WaitMatches tid c := fun c => .inl (not_le.mp htid)
    cases hfound : (kids (some r)).find? fun c => (k.trackers c).task.isNone with
    | some c =>
      have hc := hmem.mp (List.mem_of_find?_eq_some hfound)
      have hnone := List.find?_some hfound
      rw [Option.isNone_iff_eq_none] at hnone
      exact ⟨_, rfl, .found hc.1 hc.2 (hmatch c) fun _ ht => absurd hnone ht⟩
    | none =>
      rw [List.find?_eq_none] at hfound
      refine ⟨_, rfl, ?_⟩
      cases hl : kids (some r) with
      | nil =>
        refine .none fun c hc hp _ => ?_
        have := hmem.mpr ⟨hc, hp⟩
        rw [hl] at this
        cases this
      | cons c l =>
        have hc := hmem.mp (show c ∈ kids (some r) by rw [hl]; exact List.mem_cons_self)
        refine .found hc.1 hc.2 (hmatch c) fun _ _ c' hc' hp' => ?_
        simpa [Option.isNone_iff_eq_none] using hfound c' (hmem.mpr ⟨hc', hp'⟩)

/-! ### wait_task -/

/-- The kernel after `t` was blocked in a join. -/
def Kernel.joining (k : Kernel) (t : TaskRef) (r : TrackerRef) (tid : Word) : Kernel :=
  (k.modifyTracker r fun tracker =>
    { tracker with wait := { active := true, tid := tid } }).modifyTask t fun task =>
      { task with state := .blockedJoin, stateInfo := tid }

theorem joining_self (k : Kernel) (t : TaskRef) (r : TrackerRef) (tid : Word) :
    (k.joining t r tid).trackers r =
      { k.trackers r with wait := { active := true, tid := tid } } := update_self ..

theorem joining_trackers_of_ne (hcr : c ≠ r) (t : TaskRef) (tid : Word) :
    (k.joining t r tid).trackers c = k.trackers c := update_of_ne hcr ..

/-- The branches of `waitTaskLocked` for a task with the tracker `r`. -/
inductive WaitCase (k : Kernel) (t : TaskRef) (r : TrackerRef) (tid : Word) :
    WaitResult → Kernel → Prop
  | noChild : FindCase k r tid none → WaitCase k t r tid .noChild k
  | completed {c : TrackerRef} {k' : Kernel} : k.findChildLocked r tid = .ok (some c) k →
      FindCase k r tid (some c) → (k.trackers c).task = none →
      Removed (k.setReg t 10 (k.trackers c).key) k' c →
      WaitCase k t r tid .completed k'
  | blocked {c : TrackerRef} : FindCase k r tid (some c) → (k.trackers c).task ≠ none →
      WaitCase k t r tid .blocked (k.joining t r tid)

theorem waitTaskLocked_cases (h : TrackerInv k (fun _ => False) live joined)
    (hr : (k.tasks t).tracker = some r) (tid : Word) :
    ∃ result k', k.waitTaskLocked t tid = .ok result k' ∧ WaitCase k t r tid result k' := by
  obtain ⟨rank, kids, hf⟩ := h.forest
  obtain ⟨child, hchild, hcase⟩ := findChildLocked_cases hf r tid
  simp only [waitTaskLocked, hr, hchild, Outcome.andThen_ok]
  cases child with
  | none => exact ⟨_, _, rfl, .noChild hcase⟩
  | some c =>
    simp only
    cases htask : (k.trackers c).task with
    | some u =>
      refine ⟨_, _, rfl, .blocked hcase ?_⟩
      rw [htask]
      exact Option.some_ne_none u
    | none =>
      simp only
      obtain ⟨hu, hp⟩ : k.trackerSlotsUsed c = true ∧ k.parentOf c = some r := by
        cases hcase with
        | found hu hp _ _ => exact ⟨hu, hp⟩
      have hinv : TrackerInv (k.setReg t 10 (k.trackers c).key) (· = c) live
        joined := h.weaken.setReg ..
      rcases removeTracker_cases hinv hu with ⟨k', hk', hrem⟩ | ⟨e, k', -, hpn, _⟩
      · rw [hk', Outcome.andThen_ok]
        exact ⟨_, _, rfl, .completed hchild hcase htask hrem⟩
      · rw [show (k.setReg t 10 (k.trackers c).key).parentOf c = k.parentOf c
          from rfl, hp] at hpn
        cases hpn

/-- The tasks that are blocked in a join after `wait_task`. -/
def nowJoined (joined : TaskRef → Prop) (t : TaskRef) : WaitResult → TaskRef → Prop
  | .blocked, u => joined u ∨ u = t
  | _, u => joined u

theorem TrackerInv.joining (h : TrackerInv k X live joined) (hl : live t)
    (hr : (k.tasks t).tracker = some r) (tid : Word) :
    TrackerInv (k.joining t r tid) X live fun u => joined u ∨ u = t := by
  obtain ⟨hused, htask, _⟩ := h.tracked hl hr
  refine h.rewait hused htask { active := true, tid := tid } ?_ (fun v hv => ?_) ?_
  · exact fun _ => ⟨rfl, rfl⟩
  · exact or_iff_left hv
  · simp

theorem WaitCase.inv (h : TrackerInv k (fun _ => False) live joined) (hl : live t)
    (hr : (k.tasks t).tracker = some r) {tid : Word} {result : WaitResult}
    (hc : WaitCase k t r tid result k') :
    TrackerInv k' (fun _ => False) live (nowJoined joined t result) := by
  cases hc with
  | noChild _ => exact h
  | completed _ _ htask hrem => exact (h.weaken.setReg ..).removed htask hrem
  | blocked _ _ => exact h.joining hl hr tid

theorem WaitCase.sameOutside {tid : Word} {result : WaitResult}
    (hc : WaitCase k t r tid result k') : SameOutside k k' := by
  cases hc with
  | noChild _ => exact rfl
  | @completed c _ _ _ _ hrem =>
    exact hrem.pruned.sameOutside (show SameOutside k
      (k.setReg t 10 (k.trackers c).key) from rfl)
  | blocked _ _ => exact rfl

theorem WaitCase.noCrash (h : NoCrash k) {tid : Word} {result : WaitResult}
    (hc : WaitCase k t r tid result k') : NoCrash k' := by
  cases hc with
  | noChild _ => exact h
  | @completed c _ _ _ _ hrem =>
    have hreg : NoCrash (k.setReg t 10 (k.trackers c).key) := h
    exact hreg.pruned hrem.pruned
  | blocked _ _ =>
    intro c hc
    by_cases hcr : c = r
    · rw [hcr, joining_self]
      exact h r (hcr ▸ hc)
    · rw [joining_trackers_of_ne hcr]
      exact h c hc

/-- What becomes of the task records. -/
theorem WaitCase.tasks {tid : Word} {result : WaitResult} (hc : WaitCase k t r tid result k') :
    (∀ u, u ≠ t → k'.tasks u = k.tasks u) ∧
      match result with
      | .noChild => k'.tasks t = k.tasks t
      | .completed => ∃ value, k'.tasks t = { k.tasks t with
          context := (k.tasks t).context.setX 10 value }
      | .blocked => k'.tasks t = { k.tasks t with
          state := .blockedJoin, stateInfo := tid } := by
  cases hc with
  | noChild _ => exact ⟨fun _ _ => rfl, rfl⟩
  | completed _ _ _ hrem =>
    rw [hrem.pruned.tasks_eq]
    exact ⟨fun u hu => update_of_ne hu .., _, update_self ..⟩
  | blocked _ _ => exact ⟨fun u hu => update_of_ne hu .., update_self ..⟩

end Jixia
