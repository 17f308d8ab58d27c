/-
When a join can wait in vain.

A task that is blocked in `wait_task` should have a live child that it waits for, and no
such child that has completed.  `end_task` wakes the parent of a task that ends, except for
a detached task: its tracker is removed, and the parent is left as it is.

* `JoinsOk` — every blocked join has something to wait for;
* `EndsWell` — the detached end of a task that leaves the join of its parent in order;
* `joins_ok_iff` — every section keeps `JoinsOk`, except for the ends that are not of this
  kind.
-/
import Jixia.Reaping

namespace Jixia

open Function Kernel

variable {k k' : Kernel} {t : TaskRef} {r c x q : TrackerRef} {events : List ManagerEvent}
  {event : ManagerEvent}

/-- The tracker `c` is linked under `x`. -/
def Kernel.Child (k : Kernel) (x c : TrackerRef) : Prop :=
  k.trackerSlotsUsed c = true ∧ k.parentOf c = some x

theorem child_congr (hu : k'.trackerSlotsUsed c = k.trackerSlotsUsed c)
    (hp : (k'.trackers c).parent = (k.trackers c).parent) : k'.Child x c ↔ k.Child x c := by
  rw [Kernel.Child, Kernel.Child, hu, parentOf, parentOf, hp]

/-- The tracker `x` has a live child that matches its wait, and all children that match are
live. -/
def Kernel.JoinOk (k : Kernel) (x : TrackerRef) : Prop :=
  (∃ c, k.Child x c ∧ k.WaitMatches (k.trackers x).wait.tid c ∧ (k.trackers c).task ≠ none) ∧
    ∀ c, k.Child x c → k.WaitMatches (k.trackers x).wait.tid c → (k.trackers c).task ≠ none

/-- Every blocked join has something to wait for. -/
def JoinsOk (k : Kernel) : Prop :=
  ∀ x, k.trackerSlotsUsed x = true → (k.trackers x).wait.active = true → k.JoinOk x

/-- The end of the task leaves the join of its parent in order: the task is not detached, or
the parent does not wait for it, or the parent waits for any child, the children it inherits
are live and there is another child. -/
def Kernel.EndsWell (k : Kernel) (t : TaskRef) : Prop :=
  (k.tasks t).detached = true → ∀ r q, (k.tasks t).tracker = some r → k.parentOf r = some q →
    (k.trackers q).wait.active = true → k.WaitMatches (k.trackers q).wait.tid r →
    (k.trackers q).wait.tid.toInt < 0 ∧ (∀ c, k.Child r c → (k.trackers c).task ≠ none) ∧
      ∃ c, c ≠ r ∧ (k.Child q c ∨ k.Child r c)

/-- A tracker and its wait, for a table in which the same live children match. -/
theorem Kernel.JoinOk.congr (h : k.JoinOk x)
    (hwait : (k'.trackers x).wait.tid = (k.trackers x).wait.tid)
    (hkeeps : ∀ c, k.Child x c → k.WaitMatches (k.trackers x).wait.tid c →
      (k.trackers c).task ≠ none → k'.Child x c ∧ (k'.trackers c).key = (k.trackers c).key ∧
        (k'.trackers c).task ≠ none)
    (hback : ∀ c, k'.Child x c → k'.WaitMatches (k.trackers x).wait.tid c →
      k.Child x c ∧ (k'.trackers c).key = (k.trackers c).key ∨ (k'.trackers c).task ≠ none) :
    k'.JoinOk x := by
  obtain ⟨⟨d, hd, hm, hlive⟩, hall⟩ := h
  rw [Kernel.JoinOk, hwait]
  constructor
  · obtain ⟨hd', hkey, hlive'⟩ := hkeeps d hd hm hlive
    refine ⟨d, hd', ?_, hlive'⟩
    rw [Kernel.WaitMatches, hkey]
    exact hm
  · intro c hc hmc
    rcases hback c hc hmc with ⟨hold, hkey⟩ | hlive'
    · rw [Kernel.WaitMatches, hkey] at hmc
      exact (hkeeps c hold hmc (hall c hold hmc)).2.2
    · exact hlive'

/-- A table with the same trackers. -/
theorem JoinsOk.same (h : JoinsOk k) (htr : k'.trackers = k.trackers)
    (hu : k'.trackerSlotsUsed = k.trackerSlotsUsed) : JoinsOk k' := by
  intro x hx hact
  rw [hu] at hx
  rw [htr] at hact
  have hchild : ∀ c, k'.Child x c ↔ k.Child x c :=
    fun c => child_congr (congrFun hu c) (by rw [htr])
  refine (h x hx hact).congr (by rw [htr]) (fun c hc _ hlive => ?_) fun c hc _ => ?_
  · rw [hchild, htr]
    exact ⟨hc, rfl, hlive⟩
  · rw [htr]
    exact .inl ⟨(hchild c).mp hc, rfl⟩

/-! ### Removals -/

/-- A removal under another parent leaves the children of a tracker. -/
theorem RemovedExactly.joinOk {k1 : Kernel} (hrem : RemovedExactly k1 k' r)
    (htask : (k1.trackers r).task = none) (hp : k1.parentOf r ≠ some x)
    (hx : k'.trackerSlotsUsed x = true) (h : k1.JoinOk x) : k'.JoinOk x := by
  have hrecord : ∀ c, k'.trackerSlotsUsed c = true →
      (k'.trackers c).key = (k1.trackers c).key ∧ (k'.trackers c).task = (k1.trackers c).task ∧
        (k'.trackers c).wait = (k1.trackers c).wait := fun c hc => by
    rw [hrem.record c hc]
    exact ⟨rfl, rfl, rfl⟩
  have hxo : ¬ Orphaned k1 r x := ((hrem.released x).mp hx).2
  refine h.congr (by rw [(hrecord x hx).2.2]) (fun c hc _ hlive => ?_) fun c hc _ => ?_
  · -- A live child is not released, and its parent is not.
    have hco : ¬ Orphaned k1 r c := by
      intro ho
      cases ho with
      | self => exact hlive htask
      | child _ _ hnone _ _ => exact hlive hnone
    have hc' := (hrem.released c).mpr ⟨hc.1, hco⟩
    have hpar := hrem.stays c hc' fun y hy => by
      cases hy.symm.trans hc.2
      exact hxo
    exact ⟨⟨hc', hpar.trans hc.2⟩, (hrecord c hc').1, by rwa [(hrecord c hc').2.1]⟩
  · obtain ⟨hc', hpar⟩ := hc
    have hused := ((hrem.released c).mp hc').1
    refine .inl ⟨⟨hused, ?_⟩, (hrecord c hc').1⟩
    by_cases hmoved : ∃ y, k1.parentOf c = some y ∧ Orphaned k1 r y
    · obtain ⟨y, hy, ho⟩ := hmoved
      exact absurd ((hrem.moved c y hc' hy ho).symm.trans hpar) hp
    · rw [← hrem.stays c hc' fun y hy ho => hmoved ⟨y, hy, ho⟩, hpar]

/-! ### The sections -/

theorem CreateCase.joinsOk (h : JoinsOk k) {hart : HartIndex} {entry argument : Word}
    {space : AddressSpace} {owner : HartIndex} {idle withStack : Bool} {p : Option TrackerRef}
    {child : Option TaskRef}
    (hcase : CreateCase k hart entry argument space owner idle withStack p child k') :
    JoinsOk k' := by
  cases hcase with
  | refused => exact h
  | @created t r bases _ hru =>
    set k1 := k.born t r (newTask k hart t r entry argument space owner idle withStack)
      (newTracker k t entry) bases
    have hne : ∀ {c}, k.trackerSlotsUsed c = true → c ≠ r := by
      rintro c hc rfl
      cases hru.symm.trans hc
    have hold : ∀ {c}, c ≠ r → k1.trackers c = k.trackers c := fun hcr =>
      update_of_ne hcr ..
    have hused : ∀ {c}, c ≠ r → (k1.adopted r p).trackerSlotsUsed c = k.trackerSlotsUsed c :=
      fun hcr => update_of_ne hcr ..
    have hparent : ∀ {c}, c ≠ r → (k1.adopted r p).parentOf c = k.parentOf c := fun hcr =>
      (update_of_ne hcr ..).trans (congrArg TaskTracker.parent (hold hcr) :)
    have hkey : ∀ {c}, c ≠ r → ((k1.adopted r p).trackers c).key = (k.trackers c).key :=
      fun hcr => (congrArg TaskTracker.key (hold hcr) :)
    have htask : ∀ {c}, c ≠ r → ((k1.adopted r p).trackers c).task = (k.trackers c).task :=
      fun hcr => (congrArg TaskTracker.task (hold hcr) :)
    have hwait : ∀ {c}, c ≠ r → ((k1.adopted r p).trackers c).wait = (k.trackers c).wait :=
      fun hcr => (congrArg TaskTracker.wait (hold hcr) :)
    have hnew : k1.trackers r = newTracker k t entry := update_self ..
    intro x hx hact
    have hxr : x ≠ r := by
      rintro rfl
      rw [show ((k1.adopted x p).trackers x).wait = (newTracker k t entry).wait from
        (congrArg TaskTracker.wait hnew :)] at hact
      cases hact
    rw [hused hxr] at hx
    rw [hwait hxr] at hact
    refine (h x hx hact).congr (by rw [hwait hxr]) (fun c hc _ hlive => ?_) fun c hc _ => ?_
    · have hcr := hne hc.1
      rw [Kernel.Child, hused hcr, hparent hcr, htask hcr]
      exact ⟨hc, hkey hcr, hlive⟩
    · by_cases hcr : c = r
      · rw [hcr, show ((k1.adopted r p).trackers r).task = some t from
          (congrArg TaskTracker.task hnew :)]
        exact .inr (Option.some_ne_none t)
      · rw [Kernel.Child, hused hcr, hparent hcr] at hc
        exact .inl ⟨hc, hkey hcr⟩

/-- The task of the section does not wait. -/
theorem wait_off (ht : k.taskSlotsUsed t = true) (hj : ¬ k.Joining t)
    (hr : (k.tasks t).tracker = some r) : (k.trackers r).wait.active = false := by
  rw [← Bool.not_eq_true]
  exact fun hact => hj ⟨ht, r, hr, hact⟩

theorem ManagerStep.wait_joinsOk (h : JoinsOk k) (hinv : ManagerInv k) (hkeys : k.KeysApart)
    (ht : k.taskSlotsUsed t = true) (hj : ¬ k.Joining t) {asked : Word} {result : WaitResult}
    (hrun : k.waitTaskLocked t asked = .ok result k') : JoinsOk k' := by
  obtain ⟨r, hr, hcase⟩ := hinv.waitCase ht hrun
  have hoff := wait_off ht hj hr
  cases hcase with
  | noChild _ => exact h
  | @completed c _ _ hfind htask hrem =>
    obtain ⟨hu, hp⟩ : k.trackerSlotsUsed c = true ∧ k.parentOf c = some r := by
      cases hfind with
      | found hu hp _ _ => exact ⟨hu, hp⟩
    have hreg := (hinv.table.weaken (X := (· = c))).setReg t 10
      (k.trackers c).key
    obtain ⟨rank, kids, hf⟩ := hreg.forest
    have hexact := hrem.exactly hf hreg.rooted hu
    intro x hx hact
    rw [hexact.record x hx] at hact
    have hxr : x ≠ r := by
      rintro rfl
      cases hoff.symm.trans hact
    have hused := ((hexact.released x).mp hx).1
    refine hexact.joinOk htask (fun hpx => ?_) hx (h x hused hact)
    exact hxr (Option.some.inj (hpx.symm.trans hp))
  | @blocked c hfind htask =>
    have hself := joining_self k t r asked
    have hfield : ∀ d, ((k.joining t r asked).trackers d).parent = (k.trackers d).parent ∧
        ((k.joining t r asked).trackers d).key = (k.trackers d).key ∧
        ((k.joining t r asked).trackers d).task = (k.trackers d).task := fun d => by
      by_cases hdr : d = r
      · rw [hdr, hself]
        exact ⟨rfl, rfl, rfl⟩
      · rw [joining_trackers_of_ne hdr]
        exact ⟨rfl, rfl, rfl⟩
    have hchild : ∀ x d, (k.joining t r asked).Child x d ↔ k.Child x d :=
      fun x d => child_congr rfl (hfield d).1
    intro x hx hact
    by_cases hxr : x = r
    · -- The new join: all children that match are live.
      subst hxr
      have hmatch : ∀ d, (k.joining t x asked).WaitMatches asked d ↔ k.WaitMatches asked d :=
        fun d => by rw [Kernel.WaitMatches, Kernel.WaitMatches, (hfield d).2.1]
      rw [Kernel.JoinOk, hself]
      simp only [hchild, hmatch, (hfield _).2.2]
      cases hfind with
      | found hu hp hm hall =>
        refine ⟨⟨c, ⟨hu, hp⟩, hm, htask⟩, fun d hd hmd => ?_⟩
        by_cases hneg : asked.toInt < 0
        · exact hall hneg htask d hd.1 hd.2
        · have hkey := (hmd.resolve_left hneg).symm.trans (hm.resolve_left hneg)
          rwa [hkeys d c hd.1 hu hkey]
    · rw [joining_trackers_of_ne hxr] at hact
      refine (h x hx hact).congr (by rw [joining_trackers_of_ne hxr])
        (fun d hd _ hlive => ?_) fun d hd _ => ?_
      · rw [hchild, (hfield d).2.1, (hfield d).2.2]
        exact ⟨hd, rfl, hlive⟩
      · exact .inl ⟨(hchild x d).mp hd, (hfield d).2.1⟩

/-! ### The end of a task -/

section Ends

variable {value : Word} {status : ExitStatus}

theorem exited_child (k : Kernel) (r x d : TrackerRef) (value : Word) (status : ExitStatus) :
    (k.exited r value status).Child x d ↔ k.Child x d :=
  child_congr rfl (exited_field ..).1

/-- A join that does not match the ended task stays in order. -/
theorem Kernel.JoinOk.exited (h : k.JoinOk x) (value : Word) (status : ExitStatus)
    (hno : k.parentOf r = some x → ¬ k.WaitMatches (k.trackers x).wait.tid r) :
    (k.exited r value status).JoinOk x := by
  have hfield := exited_field k r value status
  have hne : ∀ c, k.Child x c → k.WaitMatches (k.trackers x).wait.tid c → c ≠ r := by
    rintro c hc hm rfl
    exact hno hc.2 hm
  refine h.congr (by rw [(hfield x).2.2]) (fun c hc hm hlive => ?_) fun c hc hm => ?_
  · rw [exited_child, exited_trackers_of_ne (hne c hc hm)]
    exact ⟨hc, rfl, hlive⟩
  · exact .inl ⟨(exited_child ..).mp hc, (hfield c).2.1⟩

theorem joinEnded_wait (k : Kernel) (q : TrackerRef) (waiter : TaskRef) (tid : TaskId)
    (d : TrackerRef) : ((k.joinEnded q waiter tid).trackers d).wait =
      if d = q then { (k.trackers q).wait with active := false } else (k.trackers d).wait := by
  rw [joinEnded, setReg, modifyTask_trackers, modifyTracker_trackers]
  split
  · rename_i hdq
    rw [hdq, update_self]
  · rename_i hdq
    rw [update_of_ne hdq]

/-- The other joins once a parent is woken. -/
theorem Kernel.JoinOk.joinEnded (h : k.JoinOk x) (hxq : x ≠ q) (waiter : TaskRef)
    (tid : TaskId) : (k.joinEnded q waiter tid).JoinOk x := by
  have hfield := joinEnded_field k q waiter tid
  have hchild : ∀ d, (k.joinEnded q waiter tid).Child x d ↔ k.Child x d :=
    fun d => child_congr rfl (hfield d).1
  refine h.congr (by rw [joinEnded_wait, if_neg hxq]) (fun d hd _ hlive => ?_) fun d hd _ => ?_
  · rw [hchild, (hfield d).2.1, (hfield d).2.2]
    exact ⟨hd, rfl, hlive⟩
  · exact .inl ⟨(hchild d).mp hd, (hfield d).2.1⟩

/-- The parent of a removed tracker inherits its children. -/
theorem RemovedExactly.child_iff {k1 : Kernel} (hrem : RemovedExactly k1 k' r)
    (hp : k1.parentOf r = some q) (hqr : q ≠ r) :
    k'.Child q c ↔ c ≠ r ∧ (k1.Child q c ∨ k1.Child r c) := by
  have horphaned : ∀ {y}, Orphaned k1 r y ↔ y = r := by
    intro y
    constructor
    · intro ho
      cases ho with
      | self => rfl
      | child hnone _ _ _ _ => cases hp.symm.trans hnone
    · rintro rfl
      exact .self
  constructor
  · rintro ⟨hc', hpar⟩
    obtain ⟨hused, hno⟩ := (hrem.released c).mp hc'
    refine ⟨fun hcr => hno (horphaned.mpr hcr), ?_⟩
    by_cases hcr : k1.parentOf c = some r
    · exact .inr ⟨hused, hcr⟩
    · refine .inl ⟨hused, ?_⟩
      rw [← hpar, hrem.stays c hc']
      intro y hy ho
      rw [horphaned.mp ho] at hy
      exact hcr hy
  · rintro ⟨hcr, hc⟩
    have hused : k1.trackerSlotsUsed c = true := hc.elim And.left And.left
    have hc' := (hrem.released c).mpr ⟨hused, fun ho => hcr (horphaned.mp ho)⟩
    refine ⟨hc', ?_⟩
    rcases hc with ⟨-, hq⟩ | ⟨-, hr⟩
    · rw [hrem.stays c hc' ?_, hq]
      intro y hy ho
      cases hq.symm.trans hy
      exact hqr (horphaned.mp ho)
    · rw [hrem.moved c r hc' hr .self, hp]

/-- The join of the parent once the tracker of an ended task is removed. -/
theorem Kernel.JoinOk.removed_iff {rank : TrackerRef → ℕ}
    {kids : Option TrackerRef → List TrackerRef} (h : k.JoinOk q)
    (hf : Forest k rank (fun _ => False) kids) (hkeys : k.KeysApart)
    (hr : k.trackerSlotsUsed r = true) (hp : k.parentOf r = some q)
    (hrem : RemovedExactly (k.exited r value status) k' r) :
    k'.JoinOk q ↔ (k.WaitMatches (k.trackers q).wait.tid r →
      (k.trackers q).wait.tid.toInt < 0 ∧ (∀ c, k.Child r c → (k.trackers c).task ≠ none) ∧
        ∃ c, c ≠ r ∧ (k.Child q c ∨ k.Child r c)) := by
  have hfield := exited_field k r value status
  have hyounger : ∀ {c}, k.Child r c → c ≠ r := by
    rintro c hc rfl
    exact absurd (hf.order hc.1 id hc.2) (lt_irrefl _)
  have hqr : q ≠ r := by
    rintro rfl
    exact hyounger ⟨hr, hp⟩ rfl
  have hp1 : (k.exited r value status).parentOf r = some q := (hfield r).1.trans hp
  have hchild : ∀ c, k'.Child q c ↔ c ≠ r ∧ (k.Child q c ∨ k.Child r c) := fun c => by
    rw [hrem.child_iff hp1 hqr, exited_child, exited_child]
  have hrecord : ∀ {c}, k'.trackerSlotsUsed c = true →
      (k'.trackers c).key = (k.trackers c).key ∧ (k'.trackers c).wait = (k.trackers c).wait ∧
        (c ≠ r → (k'.trackers c).task = (k.trackers c).task) := fun {c} hc => by
    rw [hrem.record c hc]
    refine ⟨(hfield c).2.1, (hfield c).2.2, fun hcr => ?_⟩
    exact (congrArg TaskTracker.task (exited_trackers_of_ne hcr value status) :)
  have hq' : k'.trackerSlotsUsed q = true := by
    refine (hrem.released q).mpr ⟨hf.parent_used hr id hp, fun ho => ?_⟩
    cases ho with
    | self => exact hqr rfl
    | child hnone _ _ _ _ => cases hp1.symm.trans hnone
  have hmatch : ∀ {tid c}, k'.Child q c → (k'.WaitMatches tid c ↔ k.WaitMatches tid c) := by
    intro tid c hc
    rw [Kernel.WaitMatches, Kernel.WaitMatches, (hrecord hc.1).1]
  have hlive : ∀ {c}, k'.Child q c → (k'.trackers c).task = (k.trackers c).task := fun hc =>
    (hrecord hc.1).2.2 ((hchild _).mp hc).1
  rw [Kernel.JoinOk, (hrecord hq').2.1]
  set tid := (k.trackers q).wait.tid with htid
  obtain ⟨⟨d, hd, hdm, hdlive⟩, hall⟩ := h
  constructor
  · rintro ⟨⟨c, hc, hcm, -⟩, hall'⟩ hm
    obtain ⟨hcr, hcold⟩ := (hchild c).mp hc
    rw [hmatch hc] at hcm
    have hneg : tid.toInt < 0 := by
      -- Otherwise the child would be the ended task.
      rcases hm with hneg | hm
      · exact hneg
      · rcases hcm with hneg | hcm
        · exact hneg
        · have hused : k.trackerSlotsUsed c = true := hcold.elim And.left And.left
          exact absurd (hkeys c r hused hr (hcm.symm.trans hm)) hcr
    refine ⟨hneg, fun e he => ?_, c, hcr, hcold⟩
    have he' := (hchild e).mpr ⟨hyounger he, .inr he⟩
    rw [← hlive he']
    exact hall' e he' (.inl hneg)
  · intro hends
    by_cases hm : k.WaitMatches tid r
    · obtain ⟨hneg, hkids, c, hcr, hc⟩ := hends hm
      have hall' : ∀ e, k'.Child q e → (k'.trackers e).task ≠ none := fun e he => by
        rw [hlive he]
        rcases ((hchild e).mp he).2 with heq | her
        · exact hall e heq (.inl hneg)
        · exact hkids e her
      have hc' := (hchild c).mpr ⟨hcr, hc⟩
      exact ⟨⟨c, hc', .inl hneg, hall' c hc'⟩, fun e he _ => hall' e he⟩
    · -- The child that is waited for is another one.
      have hdr : d ≠ r := by
        rintro rfl
        exact hm hdm
      have hd' := (hchild d).mpr ⟨hdr, .inl hd⟩
      refine ⟨⟨d, hd', (hmatch hd').mpr hdm, by rwa [hlive hd']⟩, fun e he hem => ?_⟩
      rw [hmatch he] at hem
      rw [hlive he]
      rcases ((hchild e).mp he).2 with heq | her
      · exact hall e heq hem
      · have htid : tid = (k.trackers e).key := hem.resolve_left fun hneg => hm (.inl hneg)
        have hdtid : tid = (k.trackers d).key := hdm.resolve_left fun hneg => hm (.inl hneg)
        rw [hkeys e d her.1 hd.1 (htid.symm.trans hdtid)]
        exact hdlive

/-- The end of a task keeps the joins in order, except that of a parent it should wake. -/
theorem EndCase.joinsOk_iff (h : JoinsOk k) (hinv : ManagerInv k) (hkeys : k.KeysApart)
    (ht : k.taskSlotsUsed t = true) (hj : ¬ k.Joining t) (hr : (k.tasks t).tracker = some r)
    {waiter : Option TaskRef} (hcase : EndCase k t r value status (.ok waiter k')) :
    JoinsOk k' ↔ k.EndsWell t := by
  obtain ⟨rank, kids, hf⟩ := hinv.table.forest
  obtain ⟨hused, -⟩ := hinv.table.tracked ht hr
  have hfield := exited_field k r value status
  have htable := hinv.table.exited ht hj hr value status
  obtain ⟨rank1, kids1, hf1⟩ := htable.forest
  have hqr : ∀ {q}, k.parentOf r = some q → q ≠ r := by
    rintro q hp rfl
    exact absurd (hf.order hused id hp) (lt_irrefl _)
  cases hcase with
  | removed hd _ hrem =>
    have hexact := hrem.exactly hf1 htable.rooted hused
    have hold : ∀ {x}, k'.trackerSlotsUsed x = true → k.trackerSlotsUsed x = true ∧
        (k'.trackers x).wait = (k.trackers x).wait := fun {x} hx => by
      rw [hexact.record x hx]
      exact ⟨((hexact.released x).mp hx).1, (hfield x).2.2⟩
    constructor
    · rintro h' - r' q hr' hp hact
      cases hr.symm.trans hr'
      have hq := hf.parent_used hused id hp
      have hq' : k'.trackerSlotsUsed q = true := by
        refine (hexact.released q).mpr ⟨hq, fun ho => ?_⟩
        cases ho with
        | self => exact hqr hp rfl
        | child hnone _ _ _ _ => cases ((hfield r).1.trans hp).symm.trans hnone
      refine ((h q hq hact).removed_iff hf hkeys hused hp hexact).mp (h' q hq' ?_)
      rw [(hold hq').2]
      exact hact
    · intro hends x hx hact
      obtain ⟨hxu, hwait⟩ := hold hx
      rw [hwait] at hact
      by_cases hp : k.parentOf r = some x
      · refine ((h x hxu hact).removed_iff hf hkeys hused hp hexact).mpr ?_
        have hdet := hd.resolve_right fun hnone => by cases hnone.symm.trans hp
        exact hends hdet r x hr hp hact
      · refine hexact.joinOk (congrArg TaskTracker.task (exited_self ..)) ?_ hx ?_
        · rwa [parentOf, (hfield r).1]
        · exact (h x hxu hact).exited value status fun hpx => absurd hpx hp
  | @kept q hd hp hno =>
    refine iff_of_true (fun x hx hact => ?_) fun hdet => Bool.noConfusion (hd.symm.trans hdet)
    rw [(hfield x).2.2] at hact
    refine (h x hx hact).exited value status fun hpx hm => ?_
    cases hp.symm.trans hpx
    exact hno ⟨hact, hm⟩
  | @woken q waiter _ hd hp _ _ hw hrem =>
    refine iff_of_true (fun x hx hact => ?_) fun hdet => Bool.noConfusion (hd.symm.trans hdet)
    have hw1 : ((k.exited r value status).trackers q).task = some waiter := by
      rw [exited_trackers_of_ne (hqr hp), hw]
    have htable2 := htable.joinEnded (hf.parent_used hused id hp) hw1 (k.tasks t).tid
    obtain ⟨rank2, kids2, hf2⟩ := htable2.forest
    have hexact := hrem.exactly hf2 htable2.rooted hused
    have hje := joinEnded_field (k.exited r value status) q waiter (k.tasks t).tid
    rw [hexact.record x hx, joinEnded_wait] at hact
    have hxq : x ≠ q := by
      rintro rfl
      rw [if_pos rfl] at hact
      cases hact
    rw [if_neg hxq, (hfield x).2.2] at hact
    have hpx : k.parentOf r ≠ some x := fun hpx => hxq (Option.some.inj (hpx.symm.trans hp))
    have hold := (h x ((hexact.released x).mp hx).1 hact).exited value status
      fun hpx' => absurd hpx' hpx
    refine hexact.joinOk ?_ ?_ hx (hold.joinEnded hxq waiter (k.tasks t).tid)
    · rw [(hje r).2.2, exited_self]
    · rwa [parentOf, (hje r).1, (hfield r).1]

end Ends

/-! ### Every reachable state -/

/-- **One step**: every section of the manager keeps the joins in order, except for the ends
of detached tasks that their parent waits for. -/
theorem ManagerStep.joinsOk_iff (h : JoinsOk k) (hinv : ManagerInv k) (hkeys : k.KeysApart)
    (hs : ManagerStep k event k') : JoinsOk k' ↔
      ∀ t tid detached waiter, event = .finish t tid detached waiter → k.EndsWell t := by
  cases hs with
  | @create hart entry argument space owner kernelParent idle withStack child _ hcur hrun =>
    obtain ⟨child', k1, hrun', hcase, -⟩ := hinv.create hcur entry argument space owner idle
      withStack
    cases hrun.symm.trans hrun'
    refine iff_of_true (hcase.joinsOk h) fun _ _ _ _ he => ?_
    cases he
  | @finish t value waiter k1 k2 _ ht hj hend hsame hrel =>
    obtain ⟨r, hr, hcase⟩ := hinv.endCase ht hj value
    rw [hend] at hcase
    cases releaseTaskLocked_ok hrel
    have hiff := hcase.joinsOk_iff h hinv hkeys ht hj hr
    constructor
    · intro h' u tid d w he
      cases he
      exact hiff.mp (h'.same hsame.trackers.symm hsame.trackerSlots.symm)
    · intro hends
      exact (hiff.mpr (hends t _ _ _ rfl)).same hsame.trackers hsame.trackerSlots
  | @wait t asked result _ ht hj hrun =>
    refine iff_of_true (ManagerStep.wait_joinsOk h hinv hkeys ht hj hrun) fun _ _ _ _ he => ?_
    cases he
  | @detach t ht =>
    refine iff_of_true ?_ fun _ _ _ _ he => ?_
    · rcases detachTaskLocked_cases k t with heq | heq
      all_goals
        rw [heq]
        exact h.same rfl rfl
    · cases he
  | other hsame =>
    refine iff_of_true (h.same hsame.trackers hsame.trackerSlots) fun _ _ _ _ he => ?_
    cases he

/-- The runs in which all tasks end well. -/
inductive CarefulRun : List ManagerEvent → Kernel → Prop
  | start {k0 k : Kernel} : k0.taskManagerInitialized = false →
      k0.initializeTaskManager = (true, k) → CarefulRun [] k
  | step {events : List ManagerEvent} {event : ManagerEvent} {k k' : Kernel} :
      CarefulRun events k → ManagerStep k event k' →
      (∀ t tid detached waiter, event = .finish t tid detached waiter → k.EndsWell t) →
      CarefulRun (events ++ [event]) k'

theorem CarefulRun.managerRun (hrun : CarefulRun events k) : ManagerRun events k := by
  induction hrun with
  | start h0 hinit => exact .start h0 hinit
  | step _ hs _ ih => exact ih.step hs

/-- As long as the counter has not come round, the keys of a run are apart. -/
theorem CarefulRun.keysApart (hrun : CarefulRun events k)
    (hcount : (createdTids events).length ≤ tidCount) : k.KeysApart :=
  (hrun.managerRun.reapInv.apart hcount).keys

theorem CarefulRun.joinsOk (hrun : CarefulRun events k)
    (hcount : (createdTids events).length ≤ tidCount) : JoinsOk k := by
  induction hrun with
  | start h0 hinit =>
    intro x hx
    cases ((initializeTaskManager_empty h0 hinit).2 x).symm.trans hx
  | step hrun hs hends ih =>
    rw [createdTids_snoc, List.length_append] at hcount
    have hbefore := (Nat.le_add_right ..).trans hcount
    exact (hs.joinsOk_iff (ih hbefore) hrun.managerRun.inv (hrun.keysApart hbefore)).mpr hends

/-- **Every blocked join has a live child to wait for**, and no child it waits for has
completed, as long as all tasks end well; the end of a task that does not leaves a join that
waits in vain.  A wait finds one child with the id it asks for, so this needs ids that are
apart: no more creations than there are ids. -/
theorem joins_ok_iff (hrun : CarefulRun events k)
    (hcount : (createdTids events).length ≤ tidCount) : JoinsOk k ∧
    ∀ event k', ManagerStep k event k' → (JoinsOk k' ↔
      ∀ t tid detached waiter, event = .finish t tid detached waiter → k.EndsWell t) := by
  have hok := hrun.joinsOk hcount
  exact ⟨hok, fun _ _ hs => hs.joinsOk_iff hok hrun.managerRun.inv (hrun.keysApart hcount)⟩

/-- The parent of the sample waits for its child, and the child is detached. -/
def sampleJoin : Kernel := Outcome.state (sampleChild.waitTaskLocked 0 2)

def sampleDetached : Kernel := (sampleJoin.detachTaskLocked 1).2

/-- Then the child ends. -/
def sampleGone : Kernel := Outcome.state (sampleDetached.endTaskLocked 1 0 .exitedClean)

def sampleStuck : Kernel := Outcome.state (sampleGone.releaseTaskLocked 1)

def sampleJoinEvents : List ManagerEvent :=
  [.create (some 1), .other, .create (some 2), .wait 0 2 .blocked (some 2), .detach 1]

theorem sampleDetached_run : CarefulRun sampleJoinEvents sampleDetached := by
  have hstart : CarefulRun [] sampleManager := by
    refine .start ?_ (Prod.ext ?_ rfl)
    · rfl
    · decide +kernel
  have hjoin : ManagerStep sampleChild (.wait 0 2 .blocked (some 2)) sampleJoin := by
    have hidle : ¬ sampleChild.Joining 0 := by
      rintro ⟨-, r, hr, hact⟩
      rw [show (sampleChild.tasks 0).tracker = some 0 by decide +kernel] at hr
      cases hr
      exact absurd hact (by decide +kernel)
    have hwait : sampleChild.waitTaskLocked 0 2 = .ok .blocked sampleJoin :=
      Outcome.eq_ok (by decide +kernel)
    have hstep := ManagerStep.wait (by decide +kernel) hidle hwait
    rwa [show sampleChild.awaited 0 2 = some 2 by decide +kernel] at hstep
  have hdetach : ManagerStep sampleJoin (.detach 1) sampleDetached := .detach (by decide +kernel)
  have hcreated := ((hstart.step sampleTask_step ?_).step sampleParent_step ?_).step
    sampleChild_step ?_
  · exact (hcreated.step hjoin fun _ _ _ _ he => by cases he).step hdetach
      fun _ _ _ _ he => by cases he
  all_goals
    intro _ _ _ _ he
    cases he

theorem sampleStuck_step : ManagerStep sampleDetached (.finish 1 2 true none) sampleStuck := by
  have hidle : ¬ sampleDetached.Joining 1 := by
    rintro ⟨-, r, hr, hact⟩
    rw [show (sampleDetached.tasks 1).tracker = some 1 by decide +kernel] at hr
    cases hr
    exact absurd hact (by decide +kernel)
  have hexit : sampleDetached.endTaskLocked 1 0 .exitedClean = .ok none sampleGone :=
    Outcome.eq_ok (by decide +kernel)
  have hrelease : sampleGone.releaseTaskLocked 1 = .ok () sampleStuck :=
    Outcome.eq_ok (by decide +kernel)
  have hstep := ManagerStep.finish (by decide +kernel) hidle hexit (.refl _) hrelease
  rwa [show (sampleDetached.tasks 1).tid = 2 by decide +kernel,
    show (sampleDetached.tasks 1).detached = true by decide +kernel] at hstep

/-- The join of the parent is in order before the detached child ends. -/
theorem joins_ok_iff_sample : sampleDetached.Joining 0 ∧ JoinsOk sampleDetached ∧
    (JoinsOk sampleStuck → sampleDetached.EndsWell 1) := by
  obtain ⟨hok, hstep⟩ := joins_ok_iff sampleDetached_run (by decide)
  refine ⟨⟨by decide +kernel, 0, by decide +kernel, by decide +kernel⟩, hok, fun h => ?_⟩
  exact (hstep _ _ sampleStuck_step).mp h 1 2 true none rfl

/-- **A join that waits in vain**: a task waits for its child, the child is detached and ends.
The tracker of the child is removed, no other child is left, and the parent still waits. -/
theorem joins_ok_fails : ManagerRun (sampleJoinEvents ++ [.finish 1 2 true none]) sampleStuck ∧
    sampleStuck.Joining 0 ∧ (∀ c, ¬ sampleStuck.Child 0 c) ∧ ¬ JoinsOk sampleStuck := by
  have hnone : ∀ c, sampleStuck.trackerSlotsUsed c = true → c = 0 := by decide +kernel
  have hroot : sampleStuck.parentOf 0 = none := by decide +kernel
  have hno : ∀ c, ¬ sampleStuck.Child 0 c := by
    rintro c ⟨hc, hp⟩
    rw [hnone c hc, hroot] at hp
    cases hp
  refine ⟨sampleDetached_run.managerRun.step sampleStuck_step,
    ⟨by decide +kernel, 0, by decide +kernel, by decide +kernel⟩, hno, fun h => ?_⟩
  obtain ⟨⟨c, hc, -⟩, -⟩ := h 0 (by decide +kernel) (by decide +kernel)
  exact hno c hc

end Jixia
