/-
Every ended task is reaped once.

A parent learns of the end of a child through `wait_task`: at once, if the child has
completed before, or by a later wake inside `end_task`.  Completed trackers can also be
inherited, and they can be dropped with a removed ancestor.

* `ManagerStep.tracker`, `ManagerStep.delivers` — what a section does to one tracker, and
  what it means that it delivers a task id;
* `ReapInv` — what the events of a run say about the table, along every run; the ids are
  apart (`IdsApart`) as long as the 64-bit counter has not come round;
* `waitCall_answer` — the answers of the system call;
* `tasks_reaped_once` — the laws of waiting over whole runs.
-/
import Jixia.TrackerRuns
import Jixia.IpcCalls

namespace Jixia

open Proc KProc Function Kernel

variable {k k' : Kernel} {t w : TaskRef} {r c : TrackerRef} {tid : TaskId}
  {events : List ManagerEvent} {event : ManagerEvent}

/-! ### Deliveries -/

/-- The waiting task and the task id it is given. -/
def ManagerEvent.delivery : ManagerEvent → Option (TaskRef × TaskId)
  | .wait t _ .completed child => child.map fun tid => (t, tid)
  | .wait _ _ .blocked _ | .wait _ _ .noChild _ => none
  | .finish _ tid _ waiter => waiter.map fun w => (w, tid)
  | .create _ | .detach _ | .other => none

/-- The task ids that were delivered in a run. -/
def deliveredTids (events : List ManagerEvent) : List TaskId :=
  events.filterMap fun event => event.delivery.map Prod.snd

/-- What a section does to a tracker that is used afterwards. -/
inductive TrackerStep (k k' : Kernel) (event : ManagerEvent) (c : TrackerRef) : Prop
  | kept : k.trackerSlotsUsed c = true → (k'.trackers c).key = (k.trackers c).key →
      (k'.trackers c).task = (k.trackers c).task → (k'.trackers c).wait = (k.trackers c).wait →
      TrackerStep k k' event c
  | born {t : TaskRef} : (k'.trackers c).key = k.nextTid → (k'.trackers c).task = some t →
      (k'.trackers c).wait.active = false → event = .create (some k.nextTid) →
      k.trackerSlotsUsed c = false →
      (∀ d, k'.trackerSlotsUsed d = true → d = c ∨ k.trackerSlotsUsed d = true) →
      TrackerStep k k' event c
  | ended {t : TaskRef} : k.trackerSlotsUsed c = true →
      (k'.trackers c).key = (k.trackers c).key → (k'.trackers c).task = none →
      event = .finish t (k.trackers c).key false none → TrackerStep k k' event c
  | joins {t : TaskRef} {child : Option TaskId} : k.trackerSlotsUsed c = true →
      (k'.trackers c).key = (k.trackers c).key → (k'.trackers c).task = some t →
      event = .wait t (k'.trackers c).wait.tid .blocked child → TrackerStep k k' event c
  | wakes {w : TaskRef} : k.trackerSlotsUsed c = true →
      (k'.trackers c).key = (k.trackers c).key → (k'.trackers c).task = some w →
      (k'.trackers c).wait.active = false → TrackerStep k k' event c

theorem TrackerStep.of_eq (hc : k.trackerSlotsUsed c = true)
    (heq : k'.trackers c = k.trackers c) : TrackerStep k k' event c :=
  .kept hc (by rw [heq]) (by rw [heq]) (by rw [heq])

/-- Trackers that survive a removal keep all but their links. -/
theorem Removed.tracker {k1 : Kernel} (hrem : Removed k1 k' r)
    (hc : k'.trackerSlotsUsed c = true) : c ≠ r ∧ k1.trackerSlotsUsed c = true ∧
      (k'.trackers c).key = (k1.trackers c).key ∧ (k'.trackers c).task = (k1.trackers c).task ∧
      (k'.trackers c).wait = (k1.trackers c).wait := by
  obtain ⟨hused, hrec⟩ := hrem.pruned.kept c hc
  refine ⟨?_, hused, by rw [hrec], by rw [hrec], by rw [hrec]⟩
  rintro rfl
  cases hrem.gone.symm.trans hc

theorem CreateCase.tracker {h : HartIndex} {entry argument : Word} {space : AddressSpace}
    {owner : HartIndex} {idle withStack : Bool} {q : Option TrackerRef} {child : Option TaskRef}
    (hcase : CreateCase k h entry argument space owner idle withStack q child k')
    (hc : k'.trackerSlotsUsed c = true) :
    TrackerStep k k' (.create (child.map fun t => (k'.tasks t).tid)) c := by
  cases hcase with
  | refused => exact .of_eq hc rfl
  | @created t r bases htu hru =>
    set k1 := k.born t r (newTask k h t r entry argument space owner idle withStack)
      (newTracker k t entry) bases with hk1
    have hused : ∀ {d}, d ≠ r → (k1.adopted r q).trackerSlotsUsed d = k.trackerSlotsUsed d :=
      fun hdr => update_of_ne hdr ..
    by_cases hcr : c = r
    · subst hcr
      have hnew : k1.trackers c = newTracker k t entry := update_self ..
      have htid : ((k1.adopted c q).tasks t).tid = k.nextTid := by
        rw [show (k1.adopted c q).tasks t = _ from update_self ..]
        rfl
      refine .born (t := t) ?_ ?_ ?_ (by rw [Option.map_some, htid]) hru fun d hd => ?_
      · exact (congrArg TaskTracker.key hnew :)
      · exact (congrArg TaskTracker.task hnew :)
      · exact (congrArg (fun tracker => tracker.wait.active) hnew :)
      · exact or_iff_not_imp_left.mpr fun hdc => hused hdc ▸ hd
    · have hold : k1.trackers c = k.trackers c := update_of_ne hcr ..
      exact .kept (hused hcr ▸ hc) (congrArg TaskTracker.key hold :)
        (congrArg TaskTracker.task hold :) (congrArg TaskTracker.wait hold :)

theorem EndCase.tracker {value : Word} {status : ExitStatus} {waiter : Option TaskRef}
    (hkey : (k.trackers r).key = (k.tasks t).tid) (hr : k.trackerSlotsUsed r = true)
    (hcase : EndCase k t r value status (.ok waiter k')) (hc : k'.trackerSlotsUsed c = true) :
    TrackerStep k k' (.finish t (k.tasks t).tid (k.tasks t).detached waiter) c := by
  cases hcase with
  | removed _ _ hrem =>
    obtain ⟨hcr, hused, hk, ht, hw⟩ := hrem.tracker hc
    rw [exited_trackers_of_ne hcr] at hk ht hw
    exact .kept hused hk ht hw
  | kept hd _ _ =>
    by_cases hcr : c = r
    · subst hcr
      have hself := exited_self k c value status
      exact .ended (t := t) hr (by rw [hself]) (by rw [hself]) (by rw [hd, hkey])
    · exact .of_eq hc (exited_trackers_of_ne hcr ..)
  | @woken q waiter _ _ hp hact _ hw hrem =>
    obtain ⟨hcr, hused, hk, htask, hwait⟩ := hrem.tracker hc
    simp only [joinEnded, setReg, modifyTask_trackers,
      modifyTracker_trackers] at hk htask hwait
    by_cases hcq : c = q
    · subst hcq
      rw [update_self, exited_trackers_of_ne hcr] at hk htask hwait
      exact .wakes hused hk (htask.trans hw) (by rw [hwait])
    · rw [update_of_ne hcq, exited_trackers_of_ne hcr] at hk htask hwait
      exact .kept hused hk htask hwait

theorem WaitCase.tracker {asked : Word} {result : WaitResult}
    (htask : (k.trackers r).task = some t) (hr : k.trackerSlotsUsed r = true)
    (hcase : WaitCase k t r asked result k') (hc : k'.trackerSlotsUsed c = true)
    (child : Option TaskId) : TrackerStep k k' (.wait t asked result child) c := by
  cases hcase with
  | noChild _ => exact .of_eq hc rfl
  | completed _ _ _ hrem =>
    obtain ⟨-, hused, hk, ht, hw⟩ := hrem.tracker hc
    exact .kept hused hk ht hw
  | blocked _ _ =>
    by_cases hcr : c = r
    · subst hcr
      have hself := joining_self k t c asked
      have hevent : ManagerEvent.wait t asked .blocked child =
          .wait t ((k.joining t c asked).trackers c).wait.tid .blocked child := by rw [hself]
      exact .joins hr (by rw [hself]) (by rw [hself, htask]) hevent
    · exact .of_eq hc (joining_trackers_of_ne hcr ..)

/-- **What a section does to a tracker.** -/
theorem ManagerStep.tracker (h : ManagerInv k) (hs : ManagerStep k event k')
    (hc : k'.trackerSlotsUsed c = true) : TrackerStep k k' event c := by
  cases hs with
  | @create hart entry argument space owner kernelParent idle withStack child _ hcur hrun =>
    obtain ⟨child', k1, hrun', hcase, -⟩ := h.create hcur entry argument space owner idle withStack
    cases hrun.symm.trans hrun'
    exact hcase.tracker hc
  | @finish t value waiter k1 k2 _ ht hj hend hsame hrel =>
    obtain ⟨r, hr, hcase⟩ := h.endCase ht hj value
    rw [hend] at hcase
    obtain ⟨hused, htask, hkey⟩ := h.table.tracked ht hr
    cases releaseTaskLocked_ok hrel
    have htr : (k2.freed t).trackers = k1.trackers := hsame.trackers
    have hc1 : k1.trackerSlotsUsed c = true := by
      rw [← hsame.trackerSlots]
      exact hc
    cases hcase.tracker hkey hused hc1 with
    | kept hu hk hta hw => exact .kept hu (htr ▸ hk) (htr ▸ hta) (htr ▸ hw)
    | born _ _ _ he _ _ => cases he
    | ended hu hk hta he => exact .ended hu (htr ▸ hk) (htr ▸ hta) he
    | joins _ _ _ he => cases he
    | wakes hu hk hta hw => exact .wakes hu (htr ▸ hk) (htr ▸ hta) (htr ▸ hw)
  | @wait t asked result _ ht hj hrun =>
    obtain ⟨r, hr, hcase⟩ := h.waitCase ht hrun
    obtain ⟨hused, htask, -⟩ := h.table.tracked ht hr
    exact hcase.tracker htask hused hc _
  | @detach t ht =>
    have hsame : (k.detachTaskLocked t).2.trackers = k.trackers ∧
        (k.detachTaskLocked t).2.trackerSlotsUsed = k.trackerSlotsUsed := by
      rcases detachTaskLocked_cases k t with heq | heq
      · rw [heq]
        exact ⟨rfl, rfl⟩
      · rw [heq]
        exact ⟨rfl, rfl⟩
    exact .of_eq (hsame.2 ▸ hc) (by rw [hsame.1])
  | other hsame => exact .of_eq (hsame.trackerSlots ▸ hc) (by rw [hsame.trackers])

/-! ### What a delivery means -/

/-- `wait_task` with the child that `find_child_locked` chooses. -/
theorem awaited_eq (hr : (k.tasks t).tracker = some r) {asked : Word}
    (hchild : k.findChildLocked r asked = .ok (some c) k) :
    k.awaited t asked = some (k.trackers c).key := by
  rw [awaited, hr, Option.bind_some, hchild]
  rfl

/-- The tracker `c` of the task with the id `tid` hangs under the tracker of the task `w`,
which waits for it, and the section takes it away. -/
structure Delivers (k k' : Kernel) (event : ManagerEvent) (w : TaskRef) (tid : TaskId)
    (r c : TrackerRef) : Prop where
  waiter : (k.tasks w).tracker = some r ∧ (k.trackers r).task = some w
  child : k.trackerSlotsUsed c = true ∧ k.parentOf c = some r ∧ (k.trackers c).key = tid
  gone : k'.trackerSlotsUsed c = false
  how : (∃ asked child, event = .wait w asked .completed child ∧ k.WaitMatches asked c ∧
      (k.trackers c).task = none ∧ (k'.tasks w).context.x 10 = tid) ∨
    (∃ t, event = .finish t tid false (some w) ∧ (k.trackers c).task = some t ∧
      (k.trackers r).wait.active = true ∧ k.WaitMatches (k.trackers r).wait.tid c ∧
      (k'.trackers r).wait.active = false)

/-- **What it means that a section delivers a task id.** -/
theorem ManagerStep.delivers (h : ManagerInv k) (hs : ManagerStep k event k')
    (hd : event.delivery = some (w, tid)) : ∃ r c, Delivers k k' event w tid r c := by
  cases hs with
  | create _ _ => cases hd
  | detach _ => cases hd
  | other _ => cases hd
  | @wait t asked result _ ht hj hrun =>
    obtain ⟨r, hr, hcase⟩ := h.waitCase ht hrun
    obtain ⟨-, hown, -⟩ := h.table.tracked ht hr
    cases hcase with
    | noChild _ => cases hd
    | blocked _ _ => cases hd
    | @completed c _ hchild hfind htask hrem =>
      rw [awaited_eq hr hchild] at hd
      obtain ⟨rfl, rfl⟩ := Prod.mk.inj (Option.some.inj hd)
      cases hfind with
      | found hu hp hm _ =>
        refine ⟨r, c, ⟨hr, hown⟩, ⟨hu, hp, rfl⟩, hrem.gone, .inl ⟨asked, _, rfl, hm, htask, ?_⟩⟩
        rw [hrem.pruned.tasks_eq, setReg_x]
  | @finish t value waiter k1 k2 _ ht hj hend hsame hrel =>
    obtain ⟨r, hr, hcase⟩ := h.endCase ht hj value
    rw [hend] at hcase
    obtain ⟨hused, htask, hkey⟩ := h.table.tracked ht hr
    cases releaseTaskLocked_ok hrel
    cases hcase with
    | removed _ _ _ => cases hd
    | kept _ _ _ => cases hd
    | @woken q waiter _ hdet hp hact hm hw hrem =>
      obtain ⟨rfl, rfl⟩ := Prod.mk.inj (Option.some.inj hd)
      obtain ⟨rank, kids, hf⟩ := h.table.forest
      have hqu := hf.parent_used hused id hp
      refine ⟨q, r, ⟨(h.table.ofTracker hqu hw).2, hw⟩, ⟨hused, hp, hkey⟩, ?_,
        .inr ⟨t, by rw [hdet], htask, hact, hm, ?_⟩⟩
      · exact (congrFun hsame.trackerSlots r).trans hrem.gone
      · rw [show (k2.freed t).trackers = k1.trackers from hsame.trackers]
        cases hq' : k1.trackerSlotsUsed q with
        | true =>
          obtain ⟨-, -, -, -, hwait⟩ := hrem.tracker hq'
          rw [hwait, joinEnded, setReg, modifyTask_trackers,
            modifyTracker_trackers, update_self]
        | false =>
          obtain ⟨rank', kids', hf'⟩ := hrem.forest
          rw [hf'.free q hq']

/-! ### The history of a run -/

/-- The event is a wait or the end of the task, or it delivers something to it. -/
def ManagerEvent.Touches (event : ManagerEvent) (t : TaskRef) : Prop :=
  (∃ asked result child, event = .wait t asked result child) ∨
    (∃ tid detached waiter, event = .finish t tid detached waiter) ∨
      ∃ tid, event.delivery = some (t, tid)

/-- The last word of the task was a wait that blocked. -/
def PendingWait (events : List ManagerEvent) (t : TaskRef) (asked : Word) : Prop :=
  ∃ pre child post, events = pre ++ .wait t asked .blocked child :: post ∧
    ∀ event ∈ post, ¬ event.Touches t

/-- No two trackers have the same key. -/
def Kernel.KeysApart (k : Kernel) : Prop :=
  ∀ r r', k.trackerSlotsUsed r = true → k.trackerSlotsUsed r' = true →
    (k.trackers r).key = (k.trackers r').key → r = r'

/-- The keys of the trackers and the delivered ids are all different. -/
structure IdsApart (events : List ManagerEvent) (k : Kernel) : Prop where
  keys : k.KeysApart
  fresh : ∀ r, k.trackerSlotsUsed r = true → (k.trackers r).key ∉ deliveredTids events
  nodup : (deliveredTids events).Nodup

/-- What the events of a run say about the table. -/
structure ReapInv (events : List ManagerEvent) (k : Kernel) : Prop where
  created : ∀ r, k.trackerSlotsUsed r = true → (k.trackers r).key ∈ createdTids events
  delivered : ∀ tid ∈ deliveredTids events, tid ∈ createdTids events
  apart : (createdTids events).length ≤ tidCount → IdsApart events k
  ended : ∀ r, k.trackerSlotsUsed r = true → (k.trackers r).task = none →
    ∃ t, .finish t (k.trackers r).key false none ∈ events
  waits : ∀ r t, k.trackerSlotsUsed r = true → (k.trackers r).task = some t →
    (k.trackers r).wait.active = true → PendingWait events t (k.trackers r).wait.tid

theorem deliveredTids_snoc (events : List ManagerEvent) (event : ManagerEvent) :
    deliveredTids (events ++ [event]) =
      deliveredTids events ++ (event.delivery.map Prod.snd).toList := by
  rw [deliveredTids, List.filterMap_append, deliveredTids]
  cases hd : event.delivery with
  | none => simp [hd]
  | some d => simp [hd]

theorem PendingWait.snoc {asked : Word} (hp : PendingWait events t asked)
    (he : ¬ event.Touches t) : PendingWait (events ++ [event]) t asked := by
  obtain ⟨pre, child, post, heq, hpost⟩ := hp
  refine ⟨pre, child, post ++ [event], by rw [heq, List.append_assoc, List.cons_append], ?_⟩
  intro e hmem
  rcases List.mem_append.mp hmem with hmem | hmem
  · exact hpost e hmem
  · rw [List.mem_singleton.mp hmem]
    exact he

/-- A task that waits for a child cannot act, and after a delivery it does not wait. -/
theorem ManagerStep.not_touches (h : ManagerInv k) (hs : ManagerStep k event k')
    (hr : k.trackerSlotsUsed r = true) (ht : (k.trackers r).task = some t)
    (hact : (k.trackers r).wait.active = true)
    (hact' : (k'.trackers r).wait.active = true) : ¬ event.Touches t := by
  have hjoin : k.Joining t := by
    obtain ⟨hused, htracker⟩ := h.table.ofTracker hr ht
    exact ⟨hused, r, htracker, hact⟩
  have hidle : ∀ {asked result child}, event = .wait t asked result child → False := by
    rintro asked result child rfl
    cases hs with
    | wait _ hj _ => exact hj hjoin
  rintro (⟨asked, result, child, he⟩ | ⟨tid, detached, waiter, he⟩ | ⟨tid, hd⟩)
  · exact hidle he
  · subst he
    cases hs with
    | finish _ hj _ _ _ => exact hj hjoin
  · obtain ⟨q, c, hdel⟩ := hs.delivers h hd
    cases hdel.waiter.1.symm.trans (h.table.ofTracker hr ht).2
    rcases hdel.how with ⟨asked, child, he, -⟩ | ⟨_, -, -, -, -, hoff⟩
    · exact hidle he
    · cases hoff.symm.trans hact'

/-- A tracker keeps its key, or it is the one that gets the next id. -/
theorem TrackerStep.key (hstep : TrackerStep k k' event c) :
    (k.trackerSlotsUsed c = true ∧ (k'.trackers c).key = (k.trackers c).key) ∨
      ((k'.trackers c).key = k.nextTid ∧ event = .create (some k.nextTid) ∧
        k.trackerSlotsUsed c = false ∧
        ∀ d, k'.trackerSlotsUsed d = true → d = c ∨ k.trackerSlotsUsed d = true) := by
  cases hstep with
  | kept hu hk _ _ | ended hu hk _ _ | joins hu hk _ _ | wakes hu hk _ _ => exact .inl ⟨hu, hk⟩
  | born hk _ _ he hfree honly => exact .inr ⟨hk, he, hfree, honly⟩

/-- The id that a section delivers is the key of a tracker that goes. -/
theorem ManagerStep.delivered (h : ManagerInv k) (hs : ManagerStep k event k')
    (htid : tid ∈ (event.delivery.map Prod.snd).toList) :
    ∃ c, k.trackerSlotsUsed c = true ∧ (k.trackers c).key = tid ∧
      k'.trackerSlotsUsed c = false := by
  rw [Option.mem_toList, Option.map_eq_some_iff] at htid
  obtain ⟨⟨w, _⟩, hd, rfl⟩ := htid
  obtain ⟨r, c, hdel⟩ := hs.delivers h hd
  exact ⟨c, hdel.child.1, hdel.child.2.2, hdel.gone⟩

/-- **The ids stay apart**, as long as the next id is new. -/
theorem ReapInv.apart_step (hreap : ReapInv events k) (h : ManagerInv k)
    (hs : ManagerStep k event k') (hapart : IdsApart events k)
    (hfresh : event = .create (some k.nextTid) → k.nextTid ∉ createdTids events) :
    IdsApart (events ++ [event]) k' := by
  refine ⟨fun c d hc hd heq => ?_, fun c hc hmem => ?_, ?_⟩
  · rcases (hs.tracker h hc).key with ⟨hcu, hck⟩ | ⟨hck, he, hfree, honly⟩
    · rcases (hs.tracker h hd).key with ⟨hdu, hdk⟩ | ⟨hdk, he, -⟩
      · exact hapart.keys c d hcu hdu (by rw [← hck, heq, hdk])
      · rw [hck, hdk] at heq
        exact absurd (heq ▸ hreap.created c hcu) (hfresh he)
    · rcases (hs.tracker h hd).key with ⟨hdu, hdk⟩ | ⟨-, -, hfree', -⟩
      · rw [hck, hdk] at heq
        exact absurd (heq ▸ hreap.created d hdu) (hfresh he)
      · exact ((honly d hd).resolve_right fun hdu => Bool.noConfusion (hfree'.symm.trans hdu)).symm
  · rw [deliveredTids_snoc, List.mem_append] at hmem
    -- A tracker of before has a key that is not delivered; a new one gets the next id.
    rcases (hs.tracker h hc).key with ⟨hcu, hck⟩ | ⟨hck, he, -⟩
    · rw [hck] at hmem
      rcases hmem with hmem | hmem
      · exact hapart.fresh c hcu hmem
      · obtain ⟨d, hdu, hdk, hgone⟩ := hs.delivered h hmem
        rw [hapart.keys d c hdu hcu hdk] at hgone
        cases hgone.symm.trans hc
    · rw [hck] at hmem
      rcases hmem with hmem | hmem
      · exact hfresh he (hreap.delivered _ hmem)
      · rw [he] at hmem
        cases hmem
  · rw [deliveredTids_snoc, List.nodup_append]
    refine ⟨hapart.nodup, ?_, ?_⟩
    · cases event.delivery with
      | none => exact List.nodup_nil
      | some d => exact List.nodup_singleton _
    · rintro tid hmem tid' hmem' rfl
      obtain ⟨d, hdu, hdk, -⟩ := hs.delivered h hmem'
      exact hapart.fresh d hdu (hdk ▸ hmem)

/-- **One step.** -/
theorem ReapInv.step (hreap : ReapInv events k) (h : ManagerInv k)
    (hfresh : (createdTids events).length < tidCount → k.nextTid ∉ createdTids events)
    (hs : ManagerStep k event k') : ReapInv (events ++ [event]) k' := by
  refine ⟨fun c hc => ?_, fun tid hmem => ?_, fun hcount => ?_, fun c hc htask => ?_,
    fun c t hc htask hact => ?_⟩
  · rw [createdTids_snoc, List.mem_append]
    rcases (hs.tracker h hc).key with ⟨hu, hk⟩ | ⟨hk, he, -⟩
    · exact .inl (hk ▸ hreap.created c hu)
    · rw [hk, he]
      exact .inr List.mem_cons_self
  · rw [deliveredTids_snoc, List.mem_append] at hmem
    rw [createdTids_snoc]
    refine List.mem_append_left _ ?_
    rcases hmem with hmem | hmem
    · exact hreap.delivered tid hmem
    · obtain ⟨c, hu, hk, -⟩ := hs.delivered h hmem
      exact hk ▸ hreap.created c hu
  · rw [createdTids_snoc, List.length_append] at hcount
    refine hreap.apart_step h hs (hreap.apart (by omega)) fun he => hfresh ?_
    rw [he] at hcount
    exact hcount
  · cases hs.tracker h hc with
    | kept hu hk ht _ =>
      obtain ⟨t, hmem⟩ := hreap.ended c hu (ht.symm.trans htask)
      exact ⟨t, hk ▸ List.mem_append_left _ hmem⟩
    | @ended t _ hk _ he =>
      refine ⟨t, List.mem_append_right _ ?_⟩
      rw [hk, he]
      exact List.mem_cons_self
    | born _ ht _ _ _ _ => cases ht.symm.trans htask
    | joins _ _ ht _ => cases ht.symm.trans htask
    | wakes _ _ ht _ => cases ht.symm.trans htask
  · cases hs.tracker h hc with
    | kept hu _ ht hw =>
      rw [hw] at hact ⊢
      rw [ht] at htask
      exact (hreap.waits c t hu htask hact).snoc
        (hs.not_touches h hu htask hact (hw ▸ hact))
    | ended _ _ ht _ => cases ht.symm.trans htask
    | born _ _ hw _ _ _ => cases hw.symm.trans hact
    | wakes _ _ _ hw => cases hw.symm.trans hact
    | @joins u child _ _ ht he =>
      cases ht.symm.trans htask
      refine ⟨events, child, [], ?_, fun e hmem => absurd hmem List.not_mem_nil⟩
      rw [he]

/-- **Every run.** -/
theorem ManagerRun.reapInv (h : ManagerRun events k) : ReapInv events k := by
  induction h with
  | @start k0 k hinit hrun =>
    have hno : ∀ {r}, k.trackerSlotsUsed r ≠ true := fun {r} hr =>
      Bool.noConfusion (((initializeTaskManager_empty hinit hrun).2 r).symm.trans hr)
    exact ⟨fun r hr => absurd hr hno, fun _ hmem => absurd hmem List.not_mem_nil,
      fun _ => ⟨fun r _ hr => absurd hr hno, fun r hr => absurd hr hno, List.nodup_nil⟩,
      fun r hr => absurd hr hno, fun r t hr => absurd hr hno⟩
  | step hrun hs ih => exact ih.step hrun.inv hrun.fresh hs

/-! ### The system call -/

section WaitCall

variable {h : HartIndex} {clock : Clock}

theorem ManagerInv.setLock (hinv : ManagerInv k) (l : Lock) (holder : Option HartIndex) :
    ManagerInv (k.setLock l holder) :=
  hinv.sameManager ⟨rfl, rfl, rfl, rfl, rfl, rfl, fun _ => rfl, fun _ _ => rfl⟩

/-- The task has a child it waits for. -/
def Kernel.HasChild (k : Kernel) (t : TaskRef) (asked : Word) : Prop :=
  ∃ r c, (k.tasks t).tracker = some r ∧ k.trackerSlotsUsed c = true ∧ k.parentOf c = some r ∧
    k.WaitMatches asked c

/-- `wait_task` says that there is no child exactly when there is none. -/
theorem ManagerInv.noChild_iff (hinv : ManagerInv k) (ht : k.taskSlotsUsed t = true) {asked : Word}
    {result : WaitResult} (hrun : k.waitTaskLocked t asked = .ok result k') :
    result = .noChild ↔ ¬ k.HasChild t asked := by
  obtain ⟨r, hr, hcase⟩ := hinv.waitCase ht hrun
  cases hcase with
  | noChild hfind =>
    refine iff_of_true rfl ?_
    rintro ⟨r', c, hr', hc, hp, hm⟩
    cases hr.symm.trans hr'
    cases hfind with
    | none hno => exact hno c hc hp hm
  | @completed c _ _ hfind _ _ | @blocked c hfind _ =>
    refine iff_of_false (fun hres => WaitResult.noConfusion hres) (not_not.mpr ?_)
    cases hfind with
    | found hu hp hm _ => exact ⟨r, c, hr, hu, hp, hm⟩

theorem waitTask_noChild (hinv : ManagerInv k) (hlock : k.locks .taskManager = none)
    (hcur : (k.harts h).currentTask = some t) (ht : k.taskSlotsUsed t = true) {asked : Word}
    (hno : ¬ k.HasChild t asked) :
    (waitTask h t asked clock).run (exec h) k = .ok .noChild k := by
  have hinv' := hinv.setLock .taskManager (some h)
  obtain ⟨r, hr, -⟩ := hinv'.table.ofTask ht
  obtain ⟨result, k', hsection, hcase⟩ := waitTaskLocked_cases hinv'.table hr asked
  have hres := (hinv'.noChild_iff ht hsection).mpr hno
  subst hres
  cases hcase with
  | noChild _ =>
    have hload : exec h (.loadHart h) k = .ok (k.harts h) k := rfl
    have hpark : (parkUnless ((k.harts h).currentTask == some t) .waitTaskNotCurrent).run
        (exec h) k = .ok () k := by
      rw [hcur, parkUnless, if_pos (beq_self_eq_true _)]
      rfl
    rw [waitTask, run_perform_ok hload, run_bind_ok hpark]
    exact locked_same hlock (by rw [run_perform_ok hsection]; rfl)

/-- A returning `wait_task` has run its section. -/
theorem waitTask_run {asked : Word} {result : WaitResult}
    (hrun : (waitTask h t asked clock).run (exec h) k = .ok result k') :
    ∃ k1, (k.setLock .taskManager (some h)).waitTaskLocked t asked = .ok result k1 ∧
      (result ≠ .blocked → k' = k1.setLock .taskManager none) := by
  rw [waitTask] at hrun
  obtain ⟨_, _, hload, hrun⟩ := run_perform_inv hrun
  cases hload
  obtain ⟨_, _, hpark, hrun⟩ := run_bind_inv hrun
  rw [(parkUnless_run hpark).2] at hrun
  obtain ⟨k3, hbody, rfl⟩ := locked_run hrun
  obtain ⟨result', k4, hsection, hbody⟩ := run_perform_inv hbody
  cases result' with
  | blocked =>
    obtain ⟨_, _, _, hbody⟩ := run_perform_inv hbody
    obtain ⟨_, _, _, hbody⟩ := run_bind_inv hbody
    cases hbody
    exact ⟨k4, hsection, fun hne => absurd rfl hne⟩
  | noChild | completed =>
    cases hbody
    exact ⟨_, hsection, fun _ => rfl⟩

/-- What WAIT with null pointers answers: -35 if there is no child to wait for, and otherwise,
unless the caller is blocked, the id of a completed child. -/
structure WaitAnswers (k : Kernel) (h : HartIndex) (t : TaskRef) (clock : Clock) : Prop where
  noChild : ¬ k.HasChild t ((k.tasks t).context.x 10) → (waitCall h t clock).run (exec h) k =
    .ok false (k.setReg t 10 (errorValue kErrorDeadlock))
  child : k.HasChild t ((k.tasks t).context.x 10) →
    ∀ b k', (waitCall h t clock).run (exec h) k = .ok b k' → b = true ∨
      ∃ r c, (k.tasks t).tracker = some r ∧ k.trackerSlotsUsed c = true ∧
        k.parentOf c = some r ∧ k.WaitMatches ((k.tasks t).context.x 10) c ∧
        (k.trackers c).task = none ∧ (k'.tasks t).context.x 10 = (k.trackers c).key

theorem waitCall_answer (hinv : ManagerInv k) (hlock : k.locks .taskManager = none)
    (hcur : (k.harts h).currentTask = some t) (ht : k.taskSlotsUsed t = true)
    (hargs : (k.tasks t).context.x 11 = 0 ∧ (k.tasks t).context.x 12 = 0) :
    WaitAnswers k h t clock := by
  have hload : exec h (.loadTask t) k = .ok (k.tasks t) k := rfl
  refine ⟨fun hno => ?_, fun hchild b k' hrun => ?_⟩
  · rw [waitCall, run_perform_ok hload]
    simp only [hargs.1, hargs.2, bne_self_eq_false, Bool.or_self, Bool.false_eq_true, if_false]
    rw [run_bind_ok (waitTask_noChild hinv hlock hcur ht hno)]
    rfl
  · rw [waitCall, run_perform_ok hload] at hrun
    simp only [hargs.1, hargs.2, bne_self_eq_false, Bool.or_self, Bool.false_eq_true,
      if_false] at hrun
    obtain ⟨result, k1, hwait, hrun⟩ := run_bind_inv hrun
    obtain ⟨k2, hsection, hend⟩ := waitTask_run hwait
    have hinv' := hinv.setLock .taskManager (some h)
    obtain ⟨r, hr, hcase⟩ := hinv'.waitCase ht hsection
    cases hcase with
    | noChild _ => exact absurd hchild ((hinv'.noChild_iff ht hsection).mp rfl)
    | @completed c _ _ hfind htask hrem =>
      cases hrun
      rw [hend fun hne => WaitResult.noConfusion hne]
      cases hfind with
      | found hu hp hm _ =>
        refine .inr ⟨r, c, hr, hu, hp, hm, htask, ?_⟩
        rw [show (k2.setLock .taskManager none).tasks = k2.tasks from rfl, hrem.pruned.tasks_eq,
          setReg_x]
        rfl
    | blocked _ _ =>
      cases hrun
      exact .inl rfl

/-- An id is no error code, as long as the counter has not come to it. -/
theorem ManagerRun.key_ne_deadlock (hrun : ManagerRun events k)
    (hcount : (createdTids events).length + 35 < tidCount) (hr : k.trackerSlotsUsed r = true) :
    (k.trackers r).key ≠ errorValue kErrorDeadlock := by
  obtain ⟨i, hi, heq⟩ := hrun.tids.2 _ (hrun.reapInv.created r hr)
  rw [heq]
  intro hcode
  have hval := congrArg BitVec.toNat hcode
  rw [BitVec.toNat_ofNat, show (errorValue kErrorDeadlock).toNat = 18446744073709551581 from rfl]
    at hval
  rw [tidCount] at hcount
  omega

end WaitCall

/-! ### The laws of waiting -/

/-- A section that delivers the id of a task to the task `w` was entitled to do so. -/
structure EntitledTo (events : List ManagerEvent) (k : Kernel) (event : ManagerEvent) (w : TaskRef)
    (tid : TaskId) : Prop where
  -- The tracker of the ended task was a child of the waiting one.
  child : ∃ r c, (k.tasks w).tracker = some r ∧ k.trackerSlotsUsed c = true ∧
    k.parentOf c = some r ∧ (k.trackers c).key = tid
  -- The task has ended, and it was not detached then.
  ended : ∃ t waiter, .finish t tid false waiter ∈ events ++ [event]
  -- The wait was for this task or for any one.
  asked : ∃ asked : Word, (0 ≤ asked.toInt → asked = tid) ∧
    ((∃ child, event = .wait w asked .completed child) ∨ PendingWait events w asked)

/-- What holds of one section after the events of a run. -/
structure ReapLaws (events : List ManagerEvent) (k : Kernel) (event : ManagerEvent)
    (k' : Kernel) : Prop where
  entitled : ∀ w tid, event.delivery = some (w, tid) → EntitledTo events k event w tid
  completed : ∀ t asked child, event = .wait t asked .completed child →
    ∃ tid, child = some tid ∧ (k'.tasks t).context.x 10 = tid
  blocks : ∀ t asked child, event = .wait t asked .blocked child → asked.toInt < 0 →
    ∀ r c, (k.tasks t).tracker = some r → k.trackerSlotsUsed c = true → k.parentOf c = some r →
      (k.trackers c).task ≠ none
  noChild : ∀ t asked result child, event = .wait t asked result child →
    (result = .noChild ↔ ¬ k.HasChild t asked)
  live : ∀ c t, k.trackerSlotsUsed c = true → (k.trackers c).task = some t →
    k'.trackerSlotsUsed c = false → ∃ tid detached waiter, event = .finish t tid detached waiter

theorem ReapInv.entitled (hreap : ReapInv events k) (h : ManagerInv k)
    (hs : ManagerStep k event k') (hd : event.delivery = some (w, tid)) :
    EntitledTo events k event w tid := by
  obtain ⟨r, c, hdel⟩ := hs.delivers h hd
  obtain ⟨hused, hparent, hkey⟩ := hdel.child
  have hasked : ∀ {asked : Word}, k.WaitMatches asked c → 0 ≤ asked.toInt → asked = tid := by
    rintro asked (hneg | heq) hnonneg
    · exact absurd hnonneg (not_le.mpr hneg)
    · rw [heq, hkey]
  refine ⟨⟨r, c, hdel.waiter.1, hused, hparent, hkey⟩, ?_, ?_⟩
  · rcases hdel.how with ⟨_, _, _, _, htask, _⟩ | ⟨t, he, _⟩
    · obtain ⟨t, hmem⟩ := hreap.ended c hused htask
      rw [hkey] at hmem
      exact ⟨t, none, List.mem_append_left _ hmem⟩
    · exact ⟨t, some w, List.mem_append_right _ (List.mem_singleton.mpr he.symm)⟩
  · rcases hdel.how with ⟨asked, child, he, hm, _⟩ | ⟨t, _, _, hact, hm, _⟩
    · exact ⟨asked, hasked hm, .inl ⟨child, he⟩⟩
    · obtain ⟨rank, kids, hf⟩ := h.table.forest
      have hru := hf.parent_used hused id hparent
      exact ⟨_, hasked hm, .inr (hreap.waits r w hru hdel.waiter.2 hact)⟩

/-- The end of a task leaves the trackers of all other tasks. -/
theorem EndCase.survives {value : Word} {status : ExitStatus} {waiter : Option TaskRef}
    (hcase : EndCase k t r value status (.ok waiter k'))
    (hcr : c ≠ r) (hc : k.trackerSlotsUsed c = true) (ht : (k.trackers c).task ≠ none) :
    k'.trackerSlotsUsed c = true := by
  cases hcase with
  | removed _ _ hrem =>
    refine hrem.pruned.used_of_task (congrArg TaskTracker.task (exited_self ..)) hc ?_
    rwa [exited_trackers_of_ne hcr]
  | kept _ _ _ => exact hc
  | woken _ _ _ _ _ hrem =>
    refine hrem.pruned.used_of_task ?_ hc ?_
    · rw [(joinEnded_field ..).2.2, exited_self]
    · rwa [(joinEnded_field ..).2.2, exited_trackers_of_ne hcr]

/-- A section releases the tracker of a task only when the task ends. -/
theorem ManagerStep.live (h : ManagerInv k) (hs : ManagerStep k event k')
    (hc : k.trackerSlotsUsed c = true) (ht : (k.trackers c).task = some t)
    (hc' : k'.trackerSlotsUsed c = false) :
    ∃ tid detached waiter, event = .finish t tid detached waiter := by
  have hsome : (k.trackers c).task ≠ none := ht ▸ Option.some_ne_none t
  have hstays : k'.trackerSlotsUsed c = true → False := fun hu =>
    Bool.noConfusion (hc'.symm.trans hu)
  cases hs with
  | @create hart entry argument space owner kernelParent idle withStack child _ hcur hrun =>
    obtain ⟨child', k1, hrun', hcase, -⟩ := h.create hcur entry argument space owner idle withStack
    cases hrun.symm.trans hrun'
    cases hcase with
    | refused => exact (hstays hc).elim
    | @created u r bases _ hru =>
      have hcr : c ≠ r := by
        rintro rfl
        cases hru.symm.trans hc
      exact (hstays ((update_of_ne hcr ..).trans hc)).elim
  | @finish u value waiter k1 k2 _ hu hj hend hsame hrel =>
    obtain ⟨r, hr, hcase⟩ := h.endCase hu hj value
    rw [hend] at hcase
    obtain ⟨-, htask, -⟩ := h.table.tracked hu hr
    cases releaseTaskLocked_ok hrel
    have hc1 : k1.trackerSlotsUsed c = false := (congrFun hsame.trackerSlots c).symm.trans hc'
    by_cases hcr : c = r
    · subst hcr
      cases ht.symm.trans htask
      exact ⟨_, _, _, rfl⟩
    · cases hc1.symm.trans (hcase.survives hcr hc hsome)
  | @wait u asked result _ hu hj hrun =>
    obtain ⟨r, -, hcase⟩ := h.waitCase hu hrun
    cases hcase with
    | noChild _ | blocked _ _ => exact (hstays hc).elim
    | completed _ _ htask hrem =>
      exact (hstays (hrem.pruned.used_of_task htask hc hsome)).elim
  | @detach u hu =>
    refine (hstays ?_).elim
    rcases detachTaskLocked_cases k u with heq | heq
    · rw [heq, hc]
    · rw [heq]
      exact hc
  | other hsame => exact (hstays ((congrFun hsame.trackerSlots c).trans hc)).elim

theorem ManagerStep.reapLaws (hreap : ReapInv events k) (h : ManagerInv k)
    (hs : ManagerStep k event k') : ReapLaws events k event k' where
  entitled w tid hd := hreap.entitled h hs hd
  completed t asked child he := by
    subst he
    cases hs with
    | wait ht _ hrun =>
      obtain ⟨r, hr, hcase⟩ := h.waitCase ht hrun
      cases hcase with
      | completed hchild _ _ hrem =>
        refine ⟨_, awaited_eq hr hchild, ?_⟩
        rw [hrem.pruned.tasks_eq, setReg_x]
  blocks t asked child he hneg r c hr hc hp := by
    subst he
    cases hs with
    | wait ht _ hrun =>
      obtain ⟨r', hr', hcase⟩ := h.waitCase ht hrun
      cases hr.symm.trans hr'
      cases hcase with
      | blocked hfind htask =>
        cases hfind with
        | found _ _ _ hall => exact hall hneg htask c hc hp
  noChild t asked result child he := by
    subst he
    cases hs with
    | wait ht _ hrun => exact h.noChild_iff ht hrun
  live c t hc ht hc' := hs.live h hc ht hc'

/-- **Every ended task is reaped once, and only by a parent that waits for it.**  No task id
is delivered twice in a run with no more creations than there are ids; every section obeys the
laws of waiting; a parent that is woken by the end of a child finds its id in a0; and the
system call answers -35 exactly when there is no child to wait for: no task has this id before
the counter comes to it. -/
theorem tasks_reaped_once (hrun : ManagerRun events k) :
    ((createdTids events).length ≤ tidCount → (deliveredTids events).Nodup) ∧
    (∀ event k', ManagerStep k event k' → ReapLaws events k event k') ∧
    (∀ t value w k1, k.taskSlotsUsed t = true → ¬ k.Joining t →
      k.endTaskLocked t value .exitedClean = .ok (some w) k1 →
      (k1.tasks w).context.x 10 = (k.tasks t).tid) ∧
    (∀ h t clock, k.locks .taskManager = none → (k.harts h).currentTask = some t →
      k.taskSlotsUsed t = true →
      (k.tasks t).context.x 11 = 0 ∧ (k.tasks t).context.x 12 = 0 → WaitAnswers k h t clock) ∧
    ((createdTids events).length + 35 < tidCount →
      ∀ r, k.trackerSlotsUsed r = true → (k.trackers r).key ≠ errorValue kErrorDeadlock) := by
  have hinv := hrun.inv
  have hreap := hrun.reapInv
  refine ⟨fun hcount => (hreap.apart hcount).nodup, fun event k' hs => hs.reapLaws hreap hinv,
    fun t value w k1 ht hj hend => ?_,
    fun h t clock hlock hcur ht hargs => waitCall_answer hinv hlock hcur ht hargs,
    fun hcount r hr => hrun.key_ne_deadlock hcount hr⟩
  obtain ⟨r, -, hcase⟩ := hinv.endCase ht hj value
  rw [hend] at hcase
  have htasks := hcase.tasks
  simp only at htasks
  rw [htasks, setReg_x]

/-! ### A run with a delivery -/

/-- The exit of the child is recorded, and then its slot is released. -/
def sampleExit : Kernel := Outcome.state (sampleChild.endTaskLocked 1 0 .exitedClean)

def sampleEnded : Kernel := Outcome.state (sampleExit.releaseTaskLocked 1)

/-- The parent has waited for it. -/
def sampleReaped : Kernel := Outcome.state (sampleEnded.waitTaskLocked 0 (-1))

/-- The events of the run. -/
def sampleEvents : List ManagerEvent :=
  [.create (some 1), .other, .create (some 2), .finish 1 2 false none,
    .wait 0 (-1) .completed (some 2)]

theorem sampleReaped_run : ManagerRun sampleEvents sampleReaped := by
  have hended : ManagerStep sampleChild (.finish 1 2 false none) sampleEnded := by
    have hidle : ¬ sampleChild.Joining 1 := by
      rintro ⟨-, r, hr, hact⟩
      rw [show (sampleChild.tasks 1).tracker = some 1 by decide +kernel] at hr
      cases hr
      exact absurd hact (by decide +kernel)
    have hexit : sampleChild.endTaskLocked 1 0 .exitedClean = .ok none sampleExit :=
      Outcome.eq_ok (by decide +kernel)
    have hrelease : sampleExit.releaseTaskLocked 1 = .ok () sampleEnded :=
      Outcome.eq_ok (by decide +kernel)
    have hstep := ManagerStep.finish (by decide +kernel) hidle hexit (.refl _) hrelease
    rwa [show (sampleChild.tasks 1).tid = 2 by decide +kernel,
      show (sampleChild.tasks 1).detached = false by decide +kernel] at hstep
  have hreaped : ManagerStep sampleEnded (.wait 0 (-1) .completed (some 2)) sampleReaped := by
    have hidle : ¬ sampleEnded.Joining 0 := by
      rintro ⟨-, r, hr, hact⟩
      rw [show (sampleEnded.tasks 0).tracker = some 0 by decide +kernel] at hr
      cases hr
      exact absurd hact (by decide +kernel)
    have hwait : sampleEnded.waitTaskLocked 0 (-1) = .ok .completed sampleReaped :=
      Outcome.eq_ok (by decide +kernel)
    have hstep := ManagerStep.wait (by decide +kernel) hidle hwait
    rwa [show sampleEnded.awaited 0 (-1) = some 2 by decide +kernel] at hstep
  exact (((sampleTask_run.step sampleParent_step).step sampleChild_step).step hended).step hreaped

/-- The id of the child was delivered once. -/
theorem tasks_reaped_once_sample : deliveredTids sampleEvents = [2] ∧
    (deliveredTids sampleEvents).Nodup ∧
    ∀ event k', ManagerStep sampleReaped event k' →
      ReapLaws sampleEvents sampleReaped event k' := by
  obtain ⟨hnodup, hlaws, -⟩ := tasks_reaped_once sampleReaped_run
  exact ⟨by decide, hnodup (by decide), hlaws⟩

end Jixia
