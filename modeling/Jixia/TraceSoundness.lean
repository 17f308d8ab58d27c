/-
What a trace that the offline checker accepts says of the kernel's history.

`Verify.WakeStep` says what a record does to the pending wakes and published results of the
checker; what follows a wake is then an induction over the records after it.

* `Verify.becomesReady_of_pending` — after a wake, exactly one result and then the insertion;
* `Verify.QueueTracks.run` — the checker's run queues agree with the records so far;
* `Verify.accepted_trace_sound` — FIFO and exactly-once delivery in every accepted trace.
-/
import Jixia.TraceHistory

namespace Jixia

open Guarded Function

namespace Verify

/-! ### From a wake to the run queue -/

def Record.IsWake (r : Record) : Prop := r.event = .ipcSendWake ∨ r.event = .ipcDestroyWake

def Record.IsResult (r : Record) : Prop := r.event = .ipcRecvResultPublish

def Record.IsInsertion (r : Record) : Prop := r.event = .runqueueInsertPublish

instance (r : Record) : Decidable r.IsWake := inferInstanceAs (Decidable (_ ∨ _))

instance (r : Record) : Decidable r.IsResult := inferInstanceAs (Decidable (_ = _))

instance (r : Record) : Decidable r.IsInsertion := inferInstanceAs (Decidable (_ = _))

theorem Record.not_isWake_of_event (r : Record) {event : Event} (hevent : r.event = event)
    (hkind : event ∉ [.ipcSendWake, .ipcDestroyWake]) : ¬r.IsWake := by
  subst hevent
  rw [Record.IsWake]
  simpa only [List.mem_cons, List.not_mem_nil, or_false] using hkind

/-- What a record that the checker accepts does to the pending wakes and published results. -/
inductive WakeStep (s : IpcState) (r : Record) (s' : IpcState) : Prop
  | wake (wake : PendingWake) (kind : r.IsWake) (free : s.pendingWakes.lookup r.subject = none)
      (op : wake.op = r.op) (handle : wake.handle = r.object)
      (pending : s'.pendingWakes = s.pendingWakes.insert r.subject wake)
      (published : s'.resultPublished = s.resultPublished)
  | result (wake : PendingWake) (kind : r.IsResult)
      (woken : s.pendingWakes.lookup r.subject = some wake) (op : r.op = wake.op)
      (handle : r.object = wake.handle) (first : s.resultPublished.lookup r.subject = none)
      (pending : s'.pendingWakes = s.pendingWakes)
      (published : s'.resultPublished = s.resultPublished.insert r.subject r.seq)
  | ready (kind : r.IsInsertion) (woken : r.subject ∈ s.pendingWakes) (seq : ℤ)
      (result : s.resultPublished.lookup r.subject = some seq)
      (pending : s'.pendingWakes = s.pendingWakes.erase r.subject)
      (published : s'.resultPublished = s.resultPublished.erase r.subject)
  | insertion (kind : r.IsInsertion) (free : s.pendingWakes.lookup r.subject = none)
      (pending : s'.pendingWakes = s.pendingWakes)
      (published : s'.resultPublished = s.resultPublished)
  | other (wake : ¬r.IsWake) (result : ¬r.IsResult) (insertion : ¬r.IsInsertion)
      (pending : s'.pendingWakes = s.pendingWakes)
      (published : s'.resultPublished = s.resultPublished)

section Wakes

variable {s s' : IpcState} {r : Record}

theorem wakeStep_of_onWake (kind : r.IsWake) (h : s.onWake r = .ok s') : WakeStep s r s' := by
  obtain ⟨_, result, _, _, -, -, -, -, hfree, -, rfl⟩ := IpcState.onWake_ok.mp h
  exact .wake ⟨r.seq, r.hart, r.op, r.object, result.1, result.2⟩ kind hfree rfl rfl rfl rfl

theorem wakeStep (h : s.step r = .ok s') : WakeStep s r s' := by
  have hother : ∀ {event : Event}, r.event = event →
      event ∉ [.ipcSendWake, .ipcDestroyWake, .ipcRecvResultPublish, .runqueueInsertPublish] →
      s'.pendingWakes = s.pendingWakes →
      s'.resultPublished = s.resultPublished → WakeStep s r s' :=
    fun hevent hkind => by
      rw [← hevent] at hkind
      simp only [List.mem_cons, List.not_mem_nil, or_false, not_or] at hkind
      exact .other (by rw [Record.IsWake]; tauto) (by rw [Record.IsResult]; tauto)
        (by rw [Record.IsInsertion]; tauto)
  rw [IpcState.step] at h
  cases hevent : r.event <;> rw [hevent] at h
  case ipcSendWake => exact wakeStep_of_onWake (.inl hevent) h
  case ipcDestroyWake => exact wakeStep_of_onWake (.inr hevent) h
  case ipcRecvResultPublish =>
    obtain ⟨wake, -, hwake, -, hop, hhandle, -, -, hfirst, rfl⟩ :=
      IpcState.onRecvResultPublish_ok.mp h
    exact .result wake hevent hwake hop hhandle hfirst rfl rfl
  case runqueueInsertPublish =>
    rcases IpcState.onInsertPublish_ok.mp h with ⟨hfree, rfl⟩ | ⟨hwoken, seq, hresult, -, -, rfl⟩
    · exact .insertion hevent hfree rfl rfl
    · exact .ready hevent hwoken seq hresult rfl rfl
  case ipcCreatePublish =>
    obtain ⟨-, rfl⟩ := IpcState.onCreatePublish_ok.mp h
    exact hother hevent (by decide) rfl rfl
  case ipcDestroyDead =>
    obtain ⟨_, -, -, rfl⟩ := IpcState.onDestroyDead_ok.mp h
    exact hother hevent (by decide) rfl rfl
  case ipcSendEnqueue =>
    obtain ⟨_, -, -, -, -, -, rfl⟩ := IpcState.onSendEnqueue_ok.mp h
    exact hother hevent (by decide) rfl rfl
  case ipcRecvDequeue =>
    obtain ⟨_, _, -, -, -, -, -, rfl⟩ := IpcState.onRecvDequeue_ok.mp h
    exact hother hevent (by decide) rfl rfl
  case ipcRecvWaitEnqueue =>
    obtain ⟨_, -, -, -, -, -, -, rfl⟩ := IpcState.onRecvWaitEnqueue_ok.mp h
    exact hother hevent (by decide) rfl rfl
  case runqueueInsertBegin =>
    obtain ⟨-, rfl⟩ := IpcState.onInsertBegin_ok.mp h
    exact hother hevent (by decide) rfl rfl
  all_goals
    obtain rfl := Except.ok.inj h
    exact hother hevent (by decide) rfl rfl

/-- The pending wakes are of records so far, and results are published only of tasks that were
woken and are not ready yet. -/
structure WakesOk (past : List Record) (s : IpcState) : Prop where
  recorded : ∀ t ∈ s.pendingWakes, ∃ w ∈ past, w.IsWake ∧ w.subject = t
  published : ∀ t, s.pendingWakes.lookup t = none → s.resultPublished.lookup t = none

namespace WakesOk

variable {past : List Record}

theorem step (hs : WakesOk past s) (h : s.step r = .ok s') : WakesOk (past ++ [r]) s' := by
  have hrecorded : ∀ t ∈ s.pendingWakes, ∃ w ∈ past ++ [r], w.IsWake ∧ w.subject = t := by
    intro t ht
    obtain ⟨w, hw, hwake⟩ := hs.recorded t ht
    exact ⟨w, List.mem_append_left _ hw, hwake⟩
  rcases wakeStep h with ⟨wake, hkind, -, -, -, hp, hr⟩ | ⟨wake, -, hwoken, -, -, -, hp, hr⟩ |
    ⟨-, hwoken, _, -, hp, hr⟩ | ⟨-, -, hp, hr⟩ | ⟨-, -, -, hp, hr⟩
  · refine ⟨fun t ht => ?_, fun t => ?_⟩
    · rw [hp] at ht
      rcases (AList.mem_insert s.pendingWakes).mp ht with rfl | ht
      · exact ⟨r, List.mem_append_right _ (List.mem_singleton_self r), hkind, rfl⟩
      · exact hrecorded t ht
    · rw [hp, hr]
      by_cases ht : t = r.subject
      · intro hnone
        rw [ht, AList.lookup_insert] at hnone
        exact (Option.some_ne_none _ hnone).elim
      · rw [AList.lookup_insert_ne ht]
        exact hs.published t
  · refine ⟨hp ▸ hrecorded, fun t => ?_⟩
    rw [hp, hr]
    by_cases ht : t = r.subject
    · intro hnone
      rw [ht, hwoken] at hnone
      exact (Option.some_ne_none _ hnone).elim
    · rw [AList.lookup_insert_ne ht]
      exact hs.published t
  · refine ⟨fun t ht => hrecorded t ?_, fun t => ?_⟩
    · rw [hp] at ht
      exact (AList.mem_erase.mp ht).2
    · rw [hp, hr]
      by_cases ht : t = r.subject
      · intro _
        rw [ht, AList.lookup_erase]
      · rw [AList.lookup_erase_ne ht, AList.lookup_erase_ne ht]
        exact hs.published t
  all_goals exact ⟨hp ▸ hrecorded, hp ▸ hr ▸ hs.published⟩

theorem run {records : List Record}
    (h : records.foldlM IpcState.step IpcState.initial = .ok s) : WakesOk records s := by
  have hinitial : WakesOk [] IpcState.initial :=
    ⟨fun t ht => (AList.notMem_empty t ht).elim, fun _ _ => rfl⟩
  exact foldlM_invariant (fun _ _ _ _ hs hstep => hs.step hstep) hinitial h

end WakesOk

/-- The result records of a task. -/
def results (tid : ℤ) (records : List Record) : List Record :=
  records.filter fun r => r.IsResult ∧ r.subject = tid

/-- The records lead to the insertion of a task into a run queue: up to it there is no wake and no
other insertion of the task, and its results are as asked. -/
def BecomesReady (tid : ℤ) (expected : List Record → Prop) (records : List Record) : Prop :=
  ∃ before insertion rest, records = before ++ insertion :: rest ∧
    insertion.IsInsertion ∧ insertion.subject = tid ∧
    (∀ r ∈ before, r.subject = tid → ¬r.IsInsertion ∧ ¬r.IsWake) ∧ expected (results tid before)

/-- Exactly one result, of one operation and one handle. -/
def OneResult (op handle : ℤ) (results : List Record) : Prop :=
  ∃ result, results = [result] ∧ result.op = op ∧ result.object = handle

namespace BecomesReady

variable {tid : ℤ} {expected : List Record → Prop} {records : List Record}

/-- A record that says nothing of the task goes in front. -/
theorem cons_skip (h : BecomesReady tid expected records)
    (hr : r.subject = tid → ¬r.IsInsertion ∧ ¬r.IsWake ∧ ¬r.IsResult) :
    BecomesReady tid expected (r :: records) := by
  obtain ⟨before, insertion, rest, rfl, hkind, hsubject, hnone, hexpected⟩ := h
  have hresults : results tid (r :: before) = results tid before :=
    List.filter_cons_of_neg (by simpa using fun hresult ht => (hr ht).2.2 hresult)
  refine ⟨r :: before, insertion, rest, rfl, hkind, hsubject,
    List.forall_mem_cons.mpr ⟨fun ht => ⟨(hr ht).1, (hr ht).2.1⟩, hnone⟩, ?_⟩
  rw [hresults]
  exact hexpected

/-- A result of the task goes in front of records without one. -/
theorem cons_result (h : BecomesReady tid (· = []) records) (hr : r.IsResult)
    (ht : r.subject = tid) : BecomesReady tid (OneResult r.op r.object) (r :: records) := by
  obtain ⟨before, insertion, rest, rfl, hkind, hsubject, hnone, hexpected⟩ := h
  have hresults : results tid (r :: before) = [r] := by
    rw [results, List.filter_cons_of_pos (by simpa using ⟨hr, ht⟩)]
    exact congrArg _ hexpected
  refine ⟨r :: before, insertion, rest, rfl, hkind, hsubject,
    List.forall_mem_cons.mpr ⟨fun _ => ⟨fun hi => ?_, fun hw => ?_⟩, hnone⟩,
    r, hresults, rfl, rfl⟩
  · exact Event.noConfusion (hi.symm.trans hr)
  · exact r.not_isWake_of_event hr (by decide) hw

end BecomesReady

/-- A record of another task leaves a task's wake and result alone. -/
theorem WakeStep.frame (h : WakeStep s r s') {tid : ℤ} (hne : tid ≠ r.subject) :
    s'.pendingWakes.lookup tid = s.pendingWakes.lookup tid ∧
      s'.resultPublished.lookup tid = s.resultPublished.lookup tid := by
  rcases h with ⟨_, -, -, -, -, hpending, hpublished⟩ |
    ⟨_, -, -, -, -, -, hpending, hpublished⟩ | ⟨-, -, _, -, hpending, hpublished⟩ |
    ⟨-, -, hpending, hpublished⟩ | ⟨-, -, -, hpending, hpublished⟩
  · rw [hpending, hpublished, AList.lookup_insert_ne hne]
    exact ⟨rfl, rfl⟩
  · rw [hpending, hpublished, AList.lookup_insert_ne hne]
    exact ⟨rfl, rfl⟩
  · rw [hpending, hpublished, AList.lookup_erase_ne hne, AList.lookup_erase_ne hne]
    exact ⟨rfl, rfl⟩
  · rw [hpending, hpublished]
    exact ⟨rfl, rfl⟩
  · rw [hpending, hpublished]
    exact ⟨rfl, rfl⟩

section Pending

variable {tid : ℤ} {wake : PendingWake} {records : List Record}
  (h : records.foldlM IpcState.step s = .ok s') (hend : s'.pendingWakes.lookup tid = none)
  (hp : s.pendingWakes.lookup tid = some wake)

include h hend hp

/-- A wake whose result is published leads to the insertion without another result. -/
theorem becomesReady_of_published (hr : s.resultPublished.lookup tid ≠ none) :
    BecomesReady tid (· = []) records := by
  induction records generalizing s with
  | nil =>
    obtain rfl := pure_ok.mp h
    cases hp.symm.trans hend
  | cons r records ih =>
    obtain ⟨next, hnext, h⟩ := foldlM_cons_ok.mp h
    have hstep := wakeStep hnext
    by_cases ht : r.subject = tid
    · subst ht
      rcases hstep with ⟨_, -, hfree, -, -, -, -⟩ | ⟨_, -, -, -, -, hfirst, -, -⟩ |
        ⟨hkind, -, _, -, -, -⟩ | ⟨-, hfree, -, -⟩ |
        ⟨hwake, hresult, hinsertion, hpending, hpublished⟩
      · cases hp.symm.trans hfree
      · exact (hr hfirst).elim
      · exact ⟨[], r, records, rfl, hkind, rfl, List.forall_mem_nil _, rfl⟩
      · cases hp.symm.trans hfree
      · exact (ih h (hpending ▸ hp) (hpublished ▸ hr)).cons_skip
          fun _ => ⟨hinsertion, hwake, hresult⟩
    · obtain ⟨hpending, hpublished⟩ := hstep.frame (Ne.symm ht)
      exact (ih h (hpending.trans hp) (hpublished ▸ hr)).cons_skip fun htid => (ht htid).elim

/-- A wake whose result is not published leads to the insertion with exactly one result. -/
theorem becomesReady_of_pending (hr : s.resultPublished.lookup tid = none) :
    BecomesReady tid (OneResult wake.op wake.handle) records := by
  induction records generalizing s with
  | nil =>
    obtain rfl := pure_ok.mp h
    cases hp.symm.trans hend
  | cons r records ih =>
    obtain ⟨next, hnext, h⟩ := foldlM_cons_ok.mp h
    have hstep := wakeStep hnext
    by_cases ht : r.subject = tid
    · subst ht
      rcases hstep with ⟨_, -, hfree, -, -, -, -⟩ |
        ⟨_, hkind, hwoken, hop, hhandle, -, hpending, hpublished⟩ |
        ⟨-, -, _, hresult, -, -⟩ | ⟨-, hfree, -, -⟩ |
        ⟨hwake, hresult, hinsertion, hpending, hpublished⟩
      · cases hp.symm.trans hfree
      · -- From here on the result is published, and no other follows.
        obtain rfl := Option.some.inj (hwoken.symm.trans hp)
        have hlookup : next.resultPublished.lookup r.subject ≠ none := by
          rw [hpublished, AList.lookup_insert]
          exact Option.some_ne_none _
        rw [← hop, ← hhandle]
        exact (becomesReady_of_published h hend (hpending ▸ hp) hlookup).cons_result hkind rfl
      · cases hresult.symm.trans hr
      · cases hp.symm.trans hfree
      · exact (ih h (hpending ▸ hp) (hpublished ▸ hr)).cons_skip
          fun _ => ⟨hinsertion, hwake, hresult⟩
    · obtain ⟨hpending, hpublished⟩ := hstep.frame (Ne.symm ht)
      exact (ih h (hpending.trans hp) (hpublished.trans hr)).cons_skip fun htid => (ht htid).elim

end Pending

/-- After a wake, exactly one result and then the insertion, if no wake is pending at the end. -/
theorem becomesReady_of_wake {before after : List Record} {wake : Record}
    (h : (before ++ wake :: after).foldlM IpcState.step IpcState.initial = .ok s)
    (hend : s.pendingWakes.entries = []) (hwake : wake.IsWake) :
    BecomesReady wake.subject (OneResult wake.op wake.object) after := by
  obtain ⟨prior, hprior, h⟩ := foldlM_append_ok.mp h
  obtain ⟨next, hnext, hafter⟩ := foldlM_cons_ok.mp h
  have hnone : s.pendingWakes.lookup wake.subject = none := by
    rw [AList.lookup, hend]
    rfl
  rcases wakeStep hnext with ⟨w, -, hfree, hop, hhandle, hp, hr⟩ | ⟨_, hkind, -⟩ | ⟨hkind, -⟩ |
    ⟨hkind, -⟩ | ⟨hkind, -⟩
  · rw [← hop, ← hhandle]
    refine becomesReady_of_pending hafter hnone ?_ ?_
    · rw [hp, AList.lookup_insert]
    · rw [hr]
      exact (WakesOk.run hprior).published _ hfree
  · exact (wake.not_isWake_of_event hkind (by decide) hwake).elim
  · exact (wake.not_isWake_of_event hkind (by decide) hwake).elim
  · exact (wake.not_isWake_of_event hkind (by decide) hwake).elim
  · exact (hkind hwake).elim

end Wakes

/-! ### Run queues -/

/-- The checker's run queues agree with the records so far. -/
structure QueueTracks (past : List Record) (s : QueueState) : Prop where
  fifo : ∀ q, removed q past ++ s.queue q = inserted q past
  queued : RosterOk {t | t ∈ s.taskQueue} s.queue

namespace QueueTracks

variable {past : List Record} {s s' : QueueState} {r : Record}

theorem queue_insert (s : QueueState) (object : ℤ) (queue : List ℤ) (taskQueue : Dict ℤ) :
    (QueueState.mk (s.queues.insert object queue) taskQueue).queue =
      update s.queue object queue := by
  funext q
  rw [QueueState.queue]
  by_cases hq : q = object
  · subst hq
    rw [AList.lookup_insert, Option.getD_some, update_self]
  · rw [AList.lookup_insert_ne hq, update_of_ne hq, QueueState.queue]

theorem initial : QueueTracks [] ⟨∅, ∅⟩ := by
  refine ⟨fun q => rfl, ?_⟩
  have hmembers : {t : ℤ | t ∈ (∅ : Dict ℤ)} = ∅ :=
    Set.eq_empty_of_forall_notMem fun t => AList.notMem_empty t
  change RosterOk {t : ℤ | t ∈ (∅ : Dict ℤ)} fun _ => []
  rw [hmembers]
  exact RosterOk.empty

theorem onInsert (ht : QueueTracks past s) (hevent : r.event = .runqueueInsertPublish)
    (h : s.onInsert r = .ok s') : QueueTracks (past ++ [r]) s' := by
  rw [QueueState.onInsert, require_bind_ok, require_bind_ok, pure_ok] at h
  obtain ⟨hfree, -, rfl⟩ := h
  constructor
  · intro q
    have hremoved : removed q (past ++ [r]) = removed q past :=
      history_snoc_skip (.inl (hevent ▸ by decide))
    rw [queue_insert, hremoved]
    by_cases hq : q = r.object
    · subst hq
      have hinserted : inserted r.object (past ++ [r]) = inserted r.object past ++ [r.subject] :=
        history_snoc (List.mem_singleton.mpr hevent) rfl
      rw [update_self, hinserted, ← List.append_assoc, ht.fifo]
    · have hinserted : inserted q (past ++ [r]) = inserted q past :=
        history_snoc_skip (.inr (Ne.symm hq))
      rw [update_of_ne hq, hinserted, ht.fifo]
  · have hmembers : {t | t ∈ s.taskQueue.insert r.subject r.object} =
        insert r.subject {t | t ∈ s.taskQueue} :=
      Set.ext fun t => AList.mem_insert s.taskQueue
    rw [queue_insert, hmembers]
    exact ht.queued.join hfree

theorem onRemove (ht : QueueTracks past s) (hevent : r.event = .runqueueRemoveSelect)
    (h : s.onRemove r = .ok s') : QueueTracks (past ++ [r]) s' := by
  rw [QueueState.onRemove] at h
  cases hqueue : s.queue r.object with
  | nil =>
    rw [hqueue] at h
    cases h
  | cons selected queue =>
    rw [hqueue] at h
    simp only [bind_ok, require_ok, exists_const, pure_ok] at h
    obtain ⟨rfl, -, -, rfl⟩ := h
    constructor
    · intro q
      have hinserted : inserted q (past ++ [r]) = inserted q past :=
        history_snoc_skip (.inl (hevent ▸ by decide))
      rw [queue_insert, hinserted, ← ht.fifo]
      by_cases hq : q = r.object
      · subst hq
        have hremoved : removed r.object (past ++ [r]) = removed r.object past ++ [r.subject] :=
          history_snoc (List.mem_singleton.mpr hevent) rfl
        rw [update_self, hremoved, hqueue, List.append_assoc, List.singleton_append]
      · have hremoved : removed q (past ++ [r]) = removed q past :=
          history_snoc_skip (.inr (Ne.symm hq))
        rw [update_of_ne hq, hremoved]
    · have hmembers : {t | t ∈ s.taskQueue.erase r.subject} =
          {t | t ∈ s.taskQueue} \ {r.subject} := by
        ext t
        exact AList.mem_erase.trans and_comm
      rw [queue_insert, hmembers]
      exact ht.queued.leave hqueue

theorem step (ht : QueueTracks past s) (h : s.step r = .ok s') : QueueTracks (past ++ [r]) s' := by
  rw [QueueState.step] at h
  cases hevent : r.event <;> rw [hevent] at h
  case runqueueInsertPublish => exact ht.onInsert hevent h
  case runqueueRemoveSelect => exact ht.onRemove hevent h
  all_goals
    obtain rfl := Except.ok.inj h
    refine ⟨fun q => ?_, ht.queued⟩
    have hremoved : removed q (past ++ [r]) = removed q past :=
      history_snoc_skip (.inl (hevent ▸ by decide))
    have hinserted : inserted q (past ++ [r]) = inserted q past :=
      history_snoc_skip (.inl (hevent ▸ by decide))
    rw [hremoved, hinserted]
    exact ht.fifo q

theorem pendingTasks_eq (ht : QueueTracks past s) (q : ℤ) : pendingTasks q past = s.queue q := by
  rw [pendingTasks, ← ht.fifo q]
  exact List.drop_left

/-- **The checker's run queues after an accepted run agree with its records.** -/
theorem run {records : List Record} (h : records.foldlM QueueState.step ⟨∅, ∅⟩ = .ok s) :
    QueueTracks records s :=
  foldlM_invariant (fun _ _ _ _ ht hstep => ht.step hstep) initial h

end QueueTracks

/-! ### Accepted traces -/

/-- FIFO and exactly-once, at every point of a trace. -/
structure TraceSound (records : List Record) : Prop where
  /-- Messages are received in the order in which they were sent. -/
  messages_fifo : ∀ past, past <+: records → ∀ h, dequeued h past <+: enqueued h past
  /-- Nothing is sent to, received from or waited for on a destroyed handle. -/
  after_destroy : ∀ before destroy after, records = before ++ destroy :: after →
    destroy.event = .ipcDestroyDead → ∀ r ∈ after, r.object = destroy.object →
      r.event ∉ [.ipcSendEnqueue, .ipcRecvDequeue, .ipcRecvWaitEnqueue, .ipcSendWake]
  /-- A message and a waiter are never pending at once. -/
  apart : ∀ past, past <+: records → ∀ h, pendingMessages h past = [] ∨ pendingWaiters h past = []
  /-- Tasks are woken in the order in which they waited. -/
  wakes_fifo : ∀ past, past <+: records → ∀ h, woken h past <+: waited h past
  /-- A woken task gets one result, of that wake, and then becomes ready; only then is it woken
  again. -/
  wake_completes : ∀ before wake after, records = before ++ wake :: after → wake.IsWake →
    BecomesReady wake.subject (OneResult wake.op wake.object) after
  /-- A task waits on one handle at a time. -/
  one_handle : ∀ past, past <+: records → ∀ h h' t,
    t ∈ pendingWaiters h past → t ∈ pendingWaiters h' past → h = h'
  /-- Tasks leave a run queue in the order in which they entered it. -/
  queues_fifo : ∀ past, past <+: records → ∀ q, removed q past <+: inserted q past
  /-- A task is in one run queue at a time, and once. -/
  one_queue : ∀ past, past <+: records → ∀ q q' t,
    t ∈ pendingTasks q past → t ∈ pendingTasks q' past → q = q'
  queued_once : ∀ past, past <+: records → ∀ q, (pendingTasks q past).Nodup

namespace Tracks

variable {past : List Record} {s : IpcState}

theorem pendingWaiters_eq (ht : Tracks past s) (h : ℤ) : pendingWaiters h past = s.waitersOf h := by
  rw [pendingWaiters, ← (ht.handle h).waiters]
  exact List.drop_left

theorem pendingMessages_eq (ht : Tracks past s) (h : ℤ) :
    pendingMessages h past = (s.endpoint h).messages := by
  rw [pendingMessages]
  cases hdead : (s.endpoint h).dead with
  | true => rw [if_pos ((ht.handle h).dead.mp hdead), (ht.handle h).purged hdead]
  | false =>
    have hlive : ¬Destroyed h past := fun hd =>
      Bool.noConfusion (hdead.symm.trans ((ht.handle h).dead.mpr hd))
    rw [if_neg hlive, ← (ht.handle h).fifo hdead]
    exact List.drop_left

/-- A destroyed handle takes part in nothing but the wakes of its destruction. -/
theorem not_destroyed (ht : Tracks past s) {r : Record} {s' : IpcState} (h : s.step r = .ok s')
    (hkind : r.event ∈ [.ipcSendEnqueue, .ipcRecvDequeue, .ipcRecvWaitEnqueue, .ipcSendWake]) :
    ¬Destroyed r.object past := by
  have hlive : ∀ {e : EndpointState}, s.endpoints.lookup r.object = some e → e.dead = false →
      ¬Destroyed r.object past := by
    intro e he hdead hd
    have := (ht.handle r.object).dead.mpr hd
    rw [IpcState.endpoint_eq he, hdead] at this
    exact Bool.noConfusion this
  simp only [List.mem_cons, List.not_mem_nil, or_false] at hkind
  rw [IpcState.step] at h
  rcases hkind with hevent | hevent | hevent | hevent <;> rw [hevent] at h
  · obtain ⟨e, he, hdead, -⟩ := IpcState.onSendEnqueue_ok.mp h
    exact hlive he hdead
  · obtain ⟨e, _, he, hdead, -⟩ := IpcState.onRecvDequeue_ok.mp h
    exact hlive he hdead
  · obtain ⟨e, he, hdead, -⟩ := IpcState.onRecvWaitEnqueue_ok.mp h
    exact hlive he hdead
  · obtain ⟨e, _, _, _, he, ⟨-, ⟨-, hdead, -⟩ | ⟨hne, -⟩⟩, -⟩ := IpcState.onWake_ok.mp h
    · exact hlive he hdead
    · exact (hne hevent).elim

end Tracks

/-- **The checker is sound**: a trace that passes `check_ipc` and `check_runqueues` delivers
every message and every wake in order and once. -/
theorem accepted_trace_sound {records : List Record} {requireBlocking requireCrossHart : Bool}
    (hipc : checkIpc records requireBlocking requireCrossHart = .ok ())
    (hqueues : checkRunqueues records = .ok ()) : TraceSound records := by
  obtain ⟨final, hrun, hrest⟩ := bind_ok.mp hipc
  have hpending : final.pendingWakes.entries = [] := (require_bind_ok.mp hrest).1
  obtain ⟨finalQueues, hqrun, -⟩ := bind_ok.mp hqueues
  -- Every prefix was accepted on the way.
  have htracks : ∀ past, past <+: records → ∃ s, Tracks past s := by
    rintro past ⟨rest, rfl⟩
    obtain ⟨s, hs, -⟩ := foldlM_append_ok.mp hrun
    exact ⟨s, Tracks.run hs⟩
  have hqtracks : ∀ past, past <+: records → ∃ s, QueueTracks past s := by
    rintro past ⟨rest, rfl⟩
    obtain ⟨s, hs, -⟩ := foldlM_append_ok.mp hqrun
    exact ⟨s, QueueTracks.run hs⟩
  constructor
  · intro past hpast h
    obtain ⟨s, ht⟩ := htracks past hpast
    exact (ht.handle h).delivered
  · rintro before destroy after rfl hevent r hr hobject hkind
    obtain ⟨between, rest, rfl⟩ := List.append_of_mem hr
    -- The state just before the record has seen the destruction.
    rw [← List.cons_append, ← List.append_assoc] at hrun
    obtain ⟨s, hs, hrun⟩ := foldlM_append_ok.mp hrun
    obtain ⟨next, hnext, -⟩ := foldlM_cons_ok.mp hrun
    refine (Tracks.run hs).not_destroyed hnext hkind ⟨destroy, ?_, hevent, hobject.symm⟩
    exact List.mem_append_right _ List.mem_cons_self
  · intro past hpast h
    obtain ⟨s, ht⟩ := htracks past hpast
    rw [ht.pendingMessages_eq, ht.pendingWaiters_eq, IpcState.waitersOf, List.map_eq_nil_iff]
    exact (ht.handle h).apart
  · intro past hpast h
    obtain ⟨s, ht⟩ := htracks past hpast
    exact ⟨_, (ht.handle h).waiters⟩
  · rintro before wake after rfl hwake
    exact becomesReady_of_wake hrun hpending hwake
  · intro past hpast h h' t
    obtain ⟨s, ht⟩ := htracks past hpast
    rw [ht.pendingWaiters_eq, ht.pendingWaiters_eq]
    exact ht.wait.once h h' t
  · intro past hpast q
    obtain ⟨s, ht⟩ := hqtracks past hpast
    exact ⟨_, ht.fifo q⟩
  · intro past hpast q q' t
    obtain ⟨s, ht⟩ := hqtracks past hpast
    rw [ht.pendingTasks_eq, ht.pendingTasks_eq]
    exact ht.queued.once q q' t
  · intro past hpast q
    obtain ⟨s, ht⟩ := hqtracks past hpast
    rw [ht.pendingTasks_eq]
    exact ht.queued.nodup q

/-- A receiver that blocks on one hart and is woken by a send on another; then the endpoint is
destroyed. -/
def blockingTrace : List Record :=
  [⟨1, 1, 0, 1, .ipcCreateBegin, 0, 0, 1, 0, 0⟩,
    ⟨2, 2, 0, 1, .ipcCreatePublish, 3, 4294967296, 1, 1, 0⟩,
    ⟨3, 3, 0, 3, .ipcRecvBegin, 0, 4294967296, 9, 0, 0⟩,
    ⟨4, 4, 0, 3, .ipcRecvWaitEnqueue, 2, 4294967296, 9, 77, 1⟩,
    ⟨5, 5, 1, 5, .ipcSendBegin, 0, 4294967296, 2, 34, 0⟩,
    ⟨6, 6, 1, 5, .ipcSendWake, 2, 4294967296, 9, 34, 0⟩,
    ⟨7, 7, 1, 5, .ipcRecvResultPublish, 2, 4294967296, 9, 0, 2⟩,
    ⟨8, 8, 1, 8, .runqueueInsertBegin, 0, 170, 9, 77, 0⟩,
    ⟨9, 9, 1, 8, .runqueueInsertPublish, 8, 170, 9, 114, 1⟩,
    ⟨10, 10, 0, 10, .ipcDestroyBegin, 0, 4294967296, 1, 0, 0⟩,
    ⟨11, 11, 0, 10, .ipcDestroyDead, 3, 4294967296, 1, 2, 0⟩]

theorem accepted_trace_sound_blocking : checkIpc blockingTrace true true = .ok () ∧
    checkRunqueues blockingTrace = .ok () ∧ TraceSound blockingTrace := by
  have hipc : checkIpc blockingTrace true true = .ok () := by decide +kernel
  have hqueues : checkRunqueues blockingTrace = .ok () := by decide +kernel
  exact ⟨hipc, hqueues, accepted_trace_sound hipc hqueues⟩

end Verify

end Jixia
