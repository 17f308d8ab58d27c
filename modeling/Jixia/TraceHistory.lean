/-
The histories of a trace, and the checker's endpoints along it.

The history of a handle or of a run queue is read off the records alone: the values of the
records of some kinds on one object, in order. The checker's dictionaries never appear in it.
`Verify.HandleOk` ties the checker's endpoint to the histories of its handle, and each handler of
`check_ipc` keeps it.

* `Verify.HandleOk` — one endpoint of the checker against the histories of its handle;
* `Verify.RosterOk` — lists whose members a set records, each member once;
* `Verify.Tracks.run` — the checker's endpoints and waiting set agree with the records so far.
-/
import Jixia.TraceChecker
import Mathlib.Data.List.Infix

namespace Jixia

open Guarded Function

namespace Verify

/-! ### Histories -/

/-- The values of the records of some kinds on one object, in order. -/
def history {V : Type} (kinds : List Event) (object : ℤ) (value : Record → V)
    (records : List Record) : List V :=
  (records.filter fun r => r.event ∈ kinds ∧ r.object = object).map value

/-- Sender and first word of the messages enqueued on a handle. -/
def enqueued (handle : ℤ) : List Record → List (ℤ × ℤ) :=
  history [.ipcSendEnqueue] handle fun r => (r.subject, r.arg0)

def dequeued (handle : ℤ) : List Record → List (ℤ × ℤ) :=
  history [.ipcRecvDequeue] handle fun r => (r.subject, r.arg0)

/-- The tasks that waited on a handle. -/
def waited (handle : ℤ) : List Record → List ℤ :=
  history [.ipcRecvWaitEnqueue] handle Record.subject

/-- The tasks woken on a handle, by a send or by its destruction. -/
def woken (handle : ℤ) : List Record → List ℤ :=
  history [.ipcSendWake, .ipcDestroyWake] handle Record.subject

def inserted (queue : ℤ) : List Record → List ℤ :=
  history [.runqueueInsertPublish] queue Record.subject

def removed (queue : ℤ) : List Record → List ℤ :=
  history [.runqueueRemoveSelect] queue Record.subject

def Destroyed (handle : ℤ) (records : List Record) : Prop :=
  ∃ r ∈ records, r.event = .ipcDestroyDead ∧ r.object = handle

instance (handle : ℤ) (records : List Record) : Decidable (Destroyed handle records) :=
  inferInstanceAs (Decidable (∃ r ∈ records, r.event = .ipcDestroyDead ∧ r.object = handle))

/-- The handle was created. -/
def Published (handle : ℤ) (records : List Record) : Prop :=
  ∃ r ∈ records, r.event = .ipcCreatePublish ∧ r.object = handle

/-- The messages that a handle holds after the records: a destroyed handle drops them. -/
def pendingMessages (handle : ℤ) (records : List Record) : List (ℤ × ℤ) :=
  if Destroyed handle records then []
  else (enqueued handle records).drop (dequeued handle records).length

/-- The tasks that wait on a handle after the records. -/
def pendingWaiters (handle : ℤ) (records : List Record) : List ℤ :=
  (waited handle records).drop (woken handle records).length

/-- The tasks in a run queue after the records. -/
def pendingTasks (queue : ℤ) (records : List Record) : List ℤ :=
  (inserted queue records).drop (removed queue records).length

section History

variable {V : Type} {kinds : List Event} {object : ℤ} {value : Record → V}
  {past : List Record} {r : Record}

theorem history_append (rest : List Record) : history kinds object value (past ++ rest) =
    history kinds object value past ++ history kinds object value rest := by
  rw [history, history, history, List.filter_append, List.map_append]

theorem history_snoc_skip (h : r.event ∉ kinds ∨ r.object ≠ object) :
    history kinds object value (past ++ [r]) = history kinds object value past := by
  have hr : ¬(r.event ∈ kinds ∧ r.object = object) := by tauto
  rw [history_append, history, history, List.filter_singleton, decide_eq_false hr, cond_false,
    List.map_nil, List.append_nil]

theorem history_snoc (hevent : r.event ∈ kinds) (hobject : r.object = object) :
    history kinds object value (past ++ [r]) = history kinds object value past ++ [value r] := by
  rw [history_append, history, history, List.filter_singleton,
    decide_eq_true (And.intro hevent hobject), cond_true, List.map_singleton]

theorem Published.snoc {handle : ℤ} (h : Published handle past) :
    Published handle (past ++ [r]) := by
  obtain ⟨create, hcreate, hkind⟩ := h
  exact ⟨create, List.mem_append_left _ hcreate, hkind⟩

theorem destroyed_snoc {handle : ℤ} : Destroyed handle (past ++ [r]) ↔
    Destroyed handle past ∨ r.event = .ipcDestroyDead ∧ r.object = handle := by
  simp only [Destroyed, List.mem_append, List.mem_singleton, or_and_right, exists_or,
    exists_eq_left]

end History

/-! ### One handle -/

/-- The checker's endpoint agrees with the records on its handle. -/
structure HandleOk (past : List Record) (handle : ℤ) (e : EndpointState) : Prop where
  fifo : e.dead = false → dequeued handle past ++ e.messages = enqueued handle past
  delivered : dequeued handle past <+: enqueued handle past
  waiters : woken handle past ++ e.waiters.map Prod.fst = waited handle past
  dead : e.dead = true ↔ Destroyed handle past
  purged : e.dead = true → e.messages = []
  apart : e.messages = [] ∨ e.waiters = []

/-- The kinds of records that change an endpoint which exists. -/
def endpointKinds : List Event :=
  [.ipcSendEnqueue, .ipcRecvDequeue, .ipcRecvWaitEnqueue, .ipcSendWake, .ipcDestroyWake,
    .ipcDestroyDead]

namespace HandleOk

variable {past : List Record} {handle : ℤ} {e : EndpointState} {r : Record}

/-- A record on another handle, or of another kind, changes nothing. -/
theorem skip (he : HandleOk past handle e) (h : r.event ∉ endpointKinds ∨ r.object ≠ handle) :
    HandleOk (past ++ [r]) handle e := by
  have skipped : ∀ kinds ⊆ endpointKinds, r.event ∉ kinds ∨ r.object ≠ handle :=
    fun kinds hk => h.imp_left fun hr hmem => hr (hk hmem)
  have hdestroyed : Destroyed handle (past ++ [r]) ↔ Destroyed handle past := by
    rw [destroyed_snoc]
    refine or_iff_left fun hr => ?_
    rcases h with hkind | hobject
    · exact hkind (hr.1 ▸ by decide)
    · exact hobject hr.2
  have henq : enqueued handle (past ++ [r]) = enqueued handle past :=
    history_snoc_skip (skipped _ (by decide))
  have hdeq : dequeued handle (past ++ [r]) = dequeued handle past :=
    history_snoc_skip (skipped _ (by decide))
  have hwait : waited handle (past ++ [r]) = waited handle past :=
    history_snoc_skip (skipped _ (by decide))
  have hwake : woken handle (past ++ [r]) = woken handle past :=
    history_snoc_skip (skipped _ (by decide))
  exact ⟨by rw [henq, hdeq]; exact he.fifo, by rw [henq, hdeq]; exact he.delivered,
    by rw [hwait, hwake]; exact he.waiters, he.dead.trans hdestroyed.symm, he.purged, he.apart⟩

/-- What a record adds to the histories of its handle. -/
theorem histories_snoc {event : Event} (hevent : r.event = event) (past : List Record) :
    enqueued r.object (past ++ [r]) = enqueued r.object past ++
        (if event = .ipcSendEnqueue then [(r.subject, r.arg0)] else []) ∧
      dequeued r.object (past ++ [r]) = dequeued r.object past ++
        (if event = .ipcRecvDequeue then [(r.subject, r.arg0)] else []) ∧
      waited r.object (past ++ [r]) = waited r.object past ++
        (if event = .ipcRecvWaitEnqueue then [r.subject] else []) ∧
      woken r.object (past ++ [r]) = woken r.object past ++
        (if event = .ipcSendWake ∨ event = .ipcDestroyWake then [r.subject] else []) ∧
      (Destroyed r.object (past ++ [r]) ↔
        Destroyed r.object past ∨ event = .ipcDestroyDead) := by
  simp only [enqueued, dequeued, waited, woken, history, destroyed_snoc, hevent,
    List.mem_singleton, and_true]
  refine ⟨?_, ?_, ?_, ?_⟩ <;> split <;> simp_all

variable (he : HandleOk past r.object e)

include he

theorem enqueue (hevent : r.event = .ipcSendEnqueue) (hdead : e.dead = false)
    (hwaiters : e.waiters = []) : HandleOk (past ++ [r]) r.object
      { e with messages := e.messages ++ [(r.subject, r.arg0)] } := by
  have hnew := histories_snoc hevent past
  simp only [reduceCtorEq, if_true, if_false, or_false, List.append_nil] at hnew
  obtain ⟨henq, hdeq, hwait, hwake, hdestroyed⟩ := hnew
  constructor
  · intro _
    rw [henq, hdeq, ← he.fifo hdead, List.append_assoc]
  · rw [henq, hdeq]
    exact he.delivered.trans (List.prefix_append _ _)
  · rw [hwait, hwake]
    exact he.waiters
  · exact he.dead.trans hdestroyed.symm
  · intro h
    cases hdead.symm.trans h
  · exact .inr hwaiters

theorem dequeue (hevent : r.event = .ipcRecvDequeue) (hdead : e.dead = false)
    (hwaiters : e.waiters = []) {messages : List (ℤ × ℤ)}
    (hmessages : e.messages = (r.subject, r.arg0) :: messages) :
    HandleOk (past ++ [r]) r.object { e with messages := messages } := by
  have hnew := histories_snoc hevent past
  simp only [reduceCtorEq, if_true, if_false, or_false, List.append_nil] at hnew
  obtain ⟨henq, hdeq, hwait, hwake, hdestroyed⟩ := hnew
  have hfifo : dequeued r.object (past ++ [r]) ++ messages = enqueued r.object (past ++ [r]) := by
    rw [henq, hdeq, ← he.fifo hdead, hmessages, List.append_assoc, List.singleton_append]
  constructor
  · exact fun _ => hfifo
  · exact ⟨messages, hfifo⟩
  · rw [hwait, hwake]
    exact he.waiters
  · exact he.dead.trans hdestroyed.symm
  · intro h
    cases hdead.symm.trans h
  · exact .inr hwaiters

theorem wait (hevent : r.event = .ipcRecvWaitEnqueue) (hmessages : e.messages = []) :
    HandleOk (past ++ [r]) r.object { e with waiters := e.waiters ++ [(r.subject, r.hart)] } := by
  have hnew := histories_snoc hevent past
  simp only [reduceCtorEq, if_true, if_false, or_false, List.append_nil] at hnew
  obtain ⟨henq, hdeq, hwait, hwake, hdestroyed⟩ := hnew
  constructor
  · rw [henq, hdeq]
    exact he.fifo
  · rw [henq, hdeq]
    exact he.delivered
  · rw [hwait, hwake, ← he.waiters, List.map_append, List.map_singleton, List.append_assoc]
  · exact he.dead.trans hdestroyed.symm
  · exact he.purged
  · exact .inl hmessages

theorem wake {event : Event} (hevent : r.event = event)
    (hkind : event = .ipcSendWake ∨ event = .ipcDestroyWake) (hmessages : e.messages = [])
    {blockHart : ℤ} {waiters : List (ℤ × ℤ)}
    (hwaiters : e.waiters = (r.subject, blockHart) :: waiters) :
    HandleOk (past ++ [r]) r.object { e with waiters := waiters } := by
  have hother : event ≠ .ipcSendEnqueue ∧ event ≠ .ipcRecvDequeue ∧
      event ≠ .ipcRecvWaitEnqueue ∧ event ≠ .ipcDestroyDead := by
    rcases hkind with rfl | rfl <;> decide
  have hnew := histories_snoc hevent past
  simp only [hkind, hother, if_true, if_false, or_false, List.append_nil] at hnew
  obtain ⟨henq, hdeq, hwait, hwake, hdestroyed⟩ := hnew
  constructor
  · rw [henq, hdeq]
    exact he.fifo
  · rw [henq, hdeq]
    exact he.delivered
  · rw [hwait, hwake, ← he.waiters, hwaiters, List.map_cons, List.append_assoc,
      List.singleton_append]
  · exact he.dead.trans hdestroyed.symm
  · exact he.purged
  · exact .inl hmessages

/-- Destruction drops the messages; the tasks that wait are woken one by one. -/
theorem destroy (hevent : r.event = .ipcDestroyDead) :
    HandleOk (past ++ [r]) r.object { e with messages := [], dead := true } := by
  have hnew := histories_snoc hevent past
  simp only [reduceCtorEq, if_false, or_false, or_true, List.append_nil] at hnew
  obtain ⟨henq, hdeq, hwait, hwake, hdestroyed⟩ := hnew
  constructor
  · exact fun h => Bool.noConfusion h
  · rw [henq, hdeq]
    exact he.delivered
  · rw [hwait, hwake]
    exact he.waiters
  · exact iff_of_true rfl (hdestroyed.mpr trivial)
  · exact fun _ => rfl
  · exact .inl rfl

end HandleOk

/-! ### Lists with a common set of members -/

/-- A set holds the members of a family of lists, and no member stands in them twice. -/
structure RosterOk (members : Set ℤ) (roster : ℤ → List ℤ) : Prop where
  member : ∀ t, t ∈ members ↔ ∃ h, t ∈ roster h
  nodup : ∀ h, (roster h).Nodup
  once : ∀ h h' t, t ∈ roster h → t ∈ roster h' → h = h'

namespace RosterOk

variable {members : Set ℤ} {roster : ℤ → List ℤ} {handle tid : ℤ}

theorem join (hw : RosterOk members roster) (htid : tid ∉ members) :
    RosterOk (insert tid members)
      (update roster handle (roster handle ++ [tid])) := by
  have hfree : ∀ h, tid ∉ roster h := fun h hmem => htid ((hw.member tid).mpr ⟨h, hmem⟩)
  -- Membership after the append: as before, or the new task at the handle.
  have hmem : ∀ h t, t ∈ update roster handle (roster handle ++ [tid]) h ↔
      t ∈ roster h ∨ h = handle ∧ t = tid := by
    intro h t
    by_cases hh : h = handle
    · subst hh
      simp
    · simp [hh]
  constructor
  · intro t
    simp only [Set.mem_insert_iff, hw.member t, hmem, exists_or, exists_eq_left, or_comm]
  · intro h
    by_cases hh : h = handle
    · subst hh
      rw [update_self]
      exact List.nodup_append.mpr ⟨hw.nodup h, List.nodup_singleton tid,
        fun a ha b hb => List.mem_singleton.mp hb ▸ fun hab => hfree h (hab ▸ ha)⟩
    · rw [update_of_ne hh]
      exact hw.nodup h
  · intro h h' t ht ht'
    rcases (hmem h t).mp ht with hold | ⟨rfl, rfl⟩
    · rcases (hmem h' t).mp ht' with hold' | ⟨rfl, rfl⟩
      · exact hw.once h h' t hold hold'
      · exact (hfree h hold).elim
    · rcases (hmem h' t).mp ht' with hold' | ⟨rfl, -⟩
      · exact (hfree h' hold').elim
      · rfl

theorem empty : RosterOk ∅ fun _ => [] := by
  refine ⟨fun t => iff_of_false (Set.notMem_empty t) ?_, fun h => List.nodup_nil,
    fun h h' t ht _ => (List.not_mem_nil ht).elim⟩
  rintro ⟨-, ht⟩
  exact List.not_mem_nil ht

theorem leave (hw : RosterOk members roster) {rest : List ℤ}
    (hhead : roster handle = tid :: rest) :
    RosterOk (members \ {tid}) (update roster handle rest) := by
  have hnodup : (tid :: rest).Nodup := hhead ▸ hw.nodup handle
  -- The task that leaves stood in no other list, and only once in its own.
  have hmem : ∀ h t, t ∈ update roster handle rest h ↔ t ∈ roster h ∧ t ≠ tid := by
    intro h t
    by_cases hh : h = handle
    · subst hh
      rw [update_self, hhead, List.mem_cons]
      constructor
      · intro ht
        exact ⟨.inr ht, fun heq => (List.nodup_cons.mp hnodup).1 (heq ▸ ht)⟩
      · rintro ⟨heq | ht, hne⟩
        · exact (hne heq).elim
        · exact ht
    · rw [update_of_ne hh]
      refine (and_iff_left_of_imp fun ht heq => hh ?_).symm
      exact hw.once h handle tid (heq ▸ ht) (hhead ▸ List.mem_cons_self)
  constructor
  · intro t
    simp only [Set.mem_sdiff, Set.mem_singleton_iff, hw.member t, hmem, exists_and_right, ne_eq]
  · intro h
    by_cases hh : h = handle
    · subst hh
      rw [update_self]
      exact (List.nodup_cons.mp hnodup).2
    · rw [update_of_ne hh]
      exact hw.nodup h
  · intro h h' t ht ht'
    exact hw.once h h' t ((hmem h t).mp ht).1 ((hmem h' t).mp ht').1

end RosterOk

/-! ### The endpoints of a run -/

namespace IpcState

/-- The endpoint of a handle; one that was never published is empty. -/
def endpoint (s : IpcState) (handle : ℤ) : EndpointState :=
  (s.endpoints.lookup handle).getD ⟨[], [], false⟩

def waitersOf (s : IpcState) (handle : ℤ) : List ℤ := (s.endpoint handle).waiters.map Prod.fst

variable {s s' : IpcState} {handle : ℤ} {e e' : EndpointState}

theorem endpoint_eq (h : s.endpoints.lookup handle = some e) : s.endpoint handle = e := by
  rw [endpoint, h, Option.getD_some]

theorem endpoint_setEndpoint (s : IpcState) (handle : ℤ) (e : EndpointState) :
    (s.setEndpoint handle e).endpoint = update s.endpoint handle e := by
  funext h
  rw [endpoint, setEndpoint]
  by_cases hh : h = handle
  · subst hh
    rw [AList.lookup_insert, Option.getD_some, update_self]
  · rw [AList.lookup_insert_ne hh, update_of_ne hh, endpoint]

theorem waitersOf_setEndpoint (s : IpcState) (handle : ℤ) (e : EndpointState) :
    (s.setEndpoint handle e).waitersOf =
      update s.waitersOf handle (e.waiters.map Prod.fst) := by
  funext h
  rw [waitersOf, endpoint_setEndpoint]
  by_cases hh : h = handle
  · subst hh
    rw [update_self, update_self]
  · rw [update_of_ne hh, update_of_ne hh, waitersOf]

/-- An update that keeps the waiters of a handle keeps all waiter lists. -/
theorem waitersOf_same (h : s.endpoint handle = e) (hw : e'.waiters = e.waiters) :
    update s.waitersOf handle (e'.waiters.map Prod.fst) = s.waitersOf := by
  rw [hw, ← h]
  exact update_eq_self handle s.waitersOf

theorem endpoint_congr (h : s'.endpoints = s.endpoints) :
    s'.endpoint = s.endpoint ∧ s'.waitersOf = s.waitersOf := by
  have hendpoint : s'.endpoint = s.endpoint := by
    funext h'
    rw [endpoint, endpoint, h]
  refine ⟨hendpoint, ?_⟩
  funext h'
  rw [waitersOf, waitersOf, hendpoint]

end IpcState

/-- The checker's endpoints and waiting set agree with the records so far. -/
structure Tracks (past : List Record) (s : IpcState) : Prop where
  published : ∀ h ∈ s.endpoints, Published h past
  handle : ∀ h, HandleOk past h (s.endpoint h)
  wait : RosterOk ↑s.waitingTasks s.waitersOf

namespace Tracks

variable {past : List Record} {s s' : IpcState} {r : Record}

theorem initial : Tracks [] IpcState.initial := by
  have hempty : ∀ h, IpcState.initial.endpoint h = ⟨[], [], false⟩ := fun h => rfl
  have hdestroyed : ∀ h, ¬Destroyed h [] := by
    rintro h ⟨r, hr, -⟩
    exact List.not_mem_nil hr
  refine ⟨fun h hh => (AList.notMem_empty h hh).elim, fun h => ?_, ?_⟩
  · rw [hempty]
    exact ⟨fun _ => rfl, List.prefix_refl _, rfl,
      iff_of_false Bool.false_ne_true (hdestroyed h), fun h => Bool.noConfusion h, .inl rfl⟩
  · change RosterOk (↑(∅ : Finset ℤ)) _
    rw [Finset.coe_empty]
    exact RosterOk.empty

theorem published_of_lookup (ht : Tracks past s) {e : EndpointState}
    (he : s.endpoints.lookup r.object = some e) : Published r.object (past ++ [r]) :=
  (ht.published r.object (AList.lookup_isSome.mp (he ▸ rfl))).snoc

/-- A handler that changes the endpoint of its record, and no other. -/
theorem write (ht : Tracks past s) {e e' : EndpointState} (he : s.endpoint r.object = e)
    (hs : s'.endpoints = (s.setEndpoint r.object e').endpoints)
    (hpublished : Published r.object (past ++ [r]))
    (hok : HandleOk past r.object e → HandleOk (past ++ [r]) r.object e')
    (hwait : RosterOk s'.waitingTasks (update s.waitersOf r.object (e'.waiters.map Prod.fst))) :
    Tracks (past ++ [r]) s' := by
  obtain ⟨hendpoint, hwaiters⟩ := IpcState.endpoint_congr hs
  refine ⟨fun h hh => ?_, fun h => ?_, ?_⟩
  · rw [hs] at hh
    rcases (AList.mem_insert s.endpoints).mp hh with rfl | hh
    · exact hpublished
    · exact (ht.published h hh).snoc
  · rw [hendpoint, IpcState.endpoint_setEndpoint]
    by_cases hh : h = r.object
    · subst hh
      rw [update_self]
      exact hok (he ▸ ht.handle r.object)
    · rw [update_of_ne hh]
      exact (ht.handle h).skip (.inr (Ne.symm hh))
  · rwa [hwaiters, IpcState.waitersOf_setEndpoint]

/-- A handler that leaves the endpoints and the waiting set alone. -/
theorem skip (ht : Tracks past s) (hkind : r.event ∉ endpointKinds)
    (hendpoints : s'.endpoints = s.endpoints) (hwaiting : s'.waitingTasks = s.waitingTasks) :
    Tracks (past ++ [r]) s' := by
  obtain ⟨hendpoint, hwaiters⟩ := IpcState.endpoint_congr hendpoints
  refine ⟨fun h hh => (ht.published h (hendpoints ▸ hh)).snoc, fun h => ?_, ?_⟩
  · rw [hendpoint]
    exact (ht.handle h).skip (.inl hkind)
  · rw [hwaiting, hwaiters]
    exact ht.wait

/-- A handler whose new endpoint keeps the waiters. -/
theorem update (ht : Tracks past s) {e e' : EndpointState}
    (he : s.endpoints.lookup r.object = some e) (hw : e'.waiters = e.waiters)
    (hok : HandleOk past r.object e → HandleOk (past ++ [r]) r.object e') :
    Tracks (past ++ [r]) (s.setEndpoint r.object e') := by
  have hendpoint : s.endpoint r.object = e := IpcState.endpoint_eq he
  refine ht.write hendpoint rfl (ht.published_of_lookup he) hok ?_
  rw [IpcState.waitersOf_same hendpoint hw]
  exact ht.wait

theorem onCreatePublish (ht : Tracks past s) (hevent : r.event = .ipcCreatePublish)
    (h : s.onCreatePublish r = .ok s') : Tracks (past ++ [r]) s' := by
  obtain ⟨hnone, rfl⟩ := IpcState.onCreatePublish_ok.mp h
  -- A handle that was not published was tracked as an empty endpoint already.
  have hendpoint : s.endpoint r.object = ⟨[], [], false⟩ := by
    rw [IpcState.endpoint, hnone, Option.getD_none]
  have hpublished : Published r.object (past ++ [r]) :=
    ⟨r, List.mem_append_right _ (List.mem_singleton_self r), hevent, rfl⟩
  refine ht.write hendpoint rfl hpublished (fun hok => hok.skip (.inl (hevent ▸ by decide))) ?_
  rw [IpcState.waitersOf_same hendpoint rfl]
  exact ht.wait

theorem onRecvWaitEnqueue (ht : Tracks past s) (hevent : r.event = .ipcRecvWaitEnqueue)
    (h : s.onRecvWaitEnqueue r = .ok s') : Tracks (past ++ [r]) s' := by
  obtain ⟨e, he, -, hmessages, hfree, -, -, rfl⟩ := IpcState.onRecvWaitEnqueue_ok.mp h
  have hendpoint : s.endpoint r.object = e := IpcState.endpoint_eq he
  refine ht.write hendpoint rfl (ht.published_of_lookup he) (fun hok => hok.wait hevent hmessages)
    ?_
  rw [List.map_append, List.map_singleton, ← hendpoint, Finset.coe_insert]
  exact ht.wait.join hfree

theorem onWake (ht : Tracks past s) {event : Event} (hevent : r.event = event)
    (hkind : event = .ipcSendWake ∨ event = .ipcDestroyWake) (h : s.onWake r = .ok s') :
    Tracks (past ++ [r]) s' := by
  obtain ⟨e, _, _, waiters, he, ⟨hmessages, -⟩, hhead, -, -, -, rfl⟩ := IpcState.onWake_ok.mp h
  have hendpoint : s.endpoint r.object = e := IpcState.endpoint_eq he
  refine ht.write hendpoint rfl (ht.published_of_lookup he)
    (fun hok => hok.wake hevent hkind hmessages hhead) ?_
  rw [Finset.coe_erase]
  refine ht.wait.leave ?_
  rw [IpcState.waitersOf, hendpoint, hhead, List.map_cons]

/-- Every record that the checker accepts keeps its endpoints and the records in agreement. -/
theorem step (ht : Tracks past s) (h : s.step r = .ok s') : Tracks (past ++ [r]) s' := by
  rw [IpcState.step] at h
  cases hevent : r.event <;> rw [hevent] at h
  case ipcCreatePublish => exact ht.onCreatePublish hevent h
  case ipcDestroyDead =>
    obtain ⟨e, he, -, rfl⟩ := IpcState.onDestroyDead_ok.mp h
    exact ht.update he rfl fun hok => hok.destroy hevent
  case ipcSendEnqueue =>
    obtain ⟨e, he, hdead, hwaiters, -, -, rfl⟩ := IpcState.onSendEnqueue_ok.mp h
    exact ht.update he rfl fun hok => hok.enqueue hevent hdead hwaiters
  case ipcRecvDequeue =>
    obtain ⟨e, _, he, hdead, hwaiters, hmessages, -, rfl⟩ := IpcState.onRecvDequeue_ok.mp h
    exact ht.update he rfl fun hok => hok.dequeue hevent hdead hwaiters hmessages
  case ipcRecvWaitEnqueue => exact ht.onRecvWaitEnqueue hevent h
  case ipcSendWake => exact ht.onWake hevent (.inl rfl) h
  case ipcDestroyWake => exact ht.onWake hevent (.inr rfl) h
  case ipcRecvResultPublish =>
    obtain ⟨_, -, -, -, -, -, -, -, -, rfl⟩ := IpcState.onRecvResultPublish_ok.mp h
    exact ht.skip (hevent ▸ by decide) rfl rfl
  case runqueueInsertBegin =>
    obtain ⟨-, rfl⟩ := IpcState.onInsertBegin_ok.mp h
    exact ht.skip (hevent ▸ by decide) rfl rfl
  case runqueueInsertPublish =>
    rcases IpcState.onInsertPublish_ok.mp h with ⟨-, rfl⟩ | ⟨-, _, -, -, -, rfl⟩
    · exact ht.skip (hevent ▸ by decide) rfl rfl
    · exact ht.skip (hevent ▸ by decide) rfl rfl
  all_goals
    obtain rfl := Except.ok.inj h
    exact ht.skip (hevent ▸ by decide) rfl rfl

/-- **The checker's endpoints after an accepted run agree with its records.** -/
theorem run {records : List Record} (h : records.foldlM IpcState.step IpcState.initial = .ok s) :
    Tracks records s :=
  foldlM_invariant (fun _ _ _ _ ht hstep => ht.step hstep) initial h

end Tracks

end Verify

end Jixia
