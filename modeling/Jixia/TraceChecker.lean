/-
The trace checker.

`check-microkernel-trace.py`: the records of the verification hooks, and the checks that
are made on a log after a run.  A record has the integers of its line; a dictionary is an
association list, a `deque` a list with its left end first, and a check that fails is an
error with the message of the source, without the values that the source prints in it.
-/
import Mathlib.Data.Finset.Basic
import Mathlib.Data.List.AList
import Jixia.Guarded

namespace Jixia

open Guarded

namespace Verify

/-! ### Records -/

/-- The events of the hooks; any other name in a log is `unknown`. -/
inductive Event where
  | testPoint
  | ipcCreateBegin
  | ipcCreatePublish
  | ipcCreateReject
  | ipcDestroyBegin
  | ipcDestroyDead
  | ipcDestroyWake
  | ipcDestroyReject
  | ipcSendBegin
  | ipcSendEnqueue
  | ipcSendWake
  | ipcSendReject
  | ipcRecvBegin
  | ipcRecvDequeue
  | ipcRecvWaitEnqueue
  | ipcRecvResultPublish
  | ipcRecvReject
  | runqueueInsertBegin
  | runqueueInsertPublish
  | runqueueInsertReject
  | runqueueRemoveBegin
  | runqueueRemoveSelect
  | runqueueRemoveEmpty
  | taskCurrentPublish
  | taskStatePublish
  | unknown
  deriving DecidableEq

structure Record where
  seq : ℤ
  time : ℤ
  hart : ℤ
  op : ℤ
  event : Event
  lockset : ℤ
  object : ℤ
  subject : ℤ
  arg0 : ℤ
  arg1 : ℤ
  deriving DecidableEq

/-- A Python dictionary with integer keys. -/
abbrev Dict (V : Type) := AList fun _ : ℤ => V

abbrev Check := Except String

/-- `BEGIN_TO_TERMINALS`. -/
def beginToTerminals : Event → Option (List Event)
  | .ipcCreateBegin => some [.ipcCreatePublish, .ipcCreateReject]
  | .ipcDestroyBegin => some [.ipcDestroyDead, .ipcDestroyReject]
  | .ipcSendBegin => some [.ipcSendEnqueue, .ipcSendWake, .ipcSendReject]
  | .ipcRecvBegin => some [.ipcRecvDequeue, .ipcRecvWaitEnqueue, .ipcRecvReject]
  | .runqueueInsertBegin => some [.runqueueInsertPublish, .runqueueInsertReject]
  | .runqueueRemoveBegin => some [.runqueueRemoveSelect, .runqueueRemoveEmpty]
  | _ => none

/-- The terminals of all operations. -/
def isTerminal : Event → Bool
  | .ipcCreatePublish | .ipcCreateReject | .ipcDestroyDead | .ipcDestroyReject
  | .ipcSendEnqueue | .ipcSendWake | .ipcSendReject | .ipcRecvDequeue | .ipcRecvWaitEnqueue
  | .ipcRecvReject | .runqueueInsertPublish | .runqueueInsertReject | .runqueueRemoveSelect
  | .runqueueRemoveEmpty => true
  | _ => false

/-- `LINEARIZATION_LOCKSETS`. -/
def linearizationLocksets : Event → Option ℤ
  | .ipcCreatePublish | .ipcDestroyDead | .ipcDestroyWake => some 0x3
  | .ipcSendEnqueue | .ipcSendWake | .ipcRecvDequeue | .ipcRecvWaitEnqueue => some 0x2
  | .runqueueInsertPublish | .runqueueRemoveSelect => some 0x8
  | _ => none

/-- `BEGIN_LOCKSETS`, with its default. -/
def beginLockset : Event → ℤ
  | .runqueueRemoveBegin => 0x8
  | _ => 0

/-! ### Sequence -/

structure OperationState where
  begins : Dict Event
  terminals : Dict (List Event)

def checkOperation (s : OperationState) (r : Record) : Check OperationState := do
  let s ← match beginToTerminals r.event with
    | some _ => do
      require (r.lockset = beginLockset r.event) "wrong begin lockset"
      require (r.op ∉ s.begins) "duplicate operation begin"
      pure { s with begins := s.begins.insert r.op r.event }
    | none =>
      if isTerminal r.event then
        pure { s with
          terminals := s.terminals.insert r.op ((s.terminals.lookup r.op).getD [] ++ [r.event]) }
      else pure s
  match linearizationLocksets r.event with
  | some lockset => require (r.lockset = lockset) "wrong lockset"
  | none => pure ()
  return s

/-- What the checker knows of an endpoint: the messages that are pending, as sender and first
word, and the tasks that wait, with the hart they blocked on. -/
structure EndpointState where
  messages : List (ℤ × ℤ)
  waiters : List (ℤ × ℤ)
  dead : Bool
  deriving DecidableEq

/-- A wake that is not ready yet. -/
structure PendingWake where
  seq : ℤ
  hart : ℤ
  op : ℤ
  handle : ℤ
  resultA0 : ℤ
  resultSender : ℤ
  deriving DecidableEq

structure IpcState where
  endpoints : Dict EndpointState
  waitingTasks : Finset ℤ
  pendingWakes : Dict PendingWake
  resultPublished : Dict ℤ
  sendBegins : Dict (ℤ × ℤ)
  blockHarts : Finset ℤ
  wakeHarts : Finset ℤ
  crossHartWakes : ℕ

def IpcState.initial : IpcState := ⟨∅, ∅, ∅, ∅, ∅, ∅, ∅, 0⟩

/-- `ord("M")`. -/
def stateBlockedMessage : ℤ := 77

/-- `ord("r")`. -/
def stateReady : ℤ := 114

/-- `(1 << 64) - 43`. -/
def resultIdrm : ℤ := 18446744073709551573

/-- `endpoints[key]`, which the check before it found. -/
def lookupOr {V : Type} (d : Dict V) (key : ℤ) (message : String) : Check V :=
  match d.lookup key with
  | some value => .ok value
  | none => .error message

namespace IpcState

def setEndpoint (s : IpcState) (handle : ℤ) (endpoint : EndpointState) : IpcState :=
  { s with endpoints := s.endpoints.insert handle endpoint }

def onCreatePublish (s : IpcState) (r : Record) : Check IpcState := do
  require (r.object ∉ s.endpoints) "handle published twice"
  return s.setEndpoint r.object ⟨[], [], false⟩

def onDestroyDead (s : IpcState) (r : Record) : Check IpcState := do
  let endpoint ← lookupOr s.endpoints r.object "destroy of unpublished handle"
  require (endpoint.dead = false) "handle destroyed twice"
  return s.setEndpoint r.object { endpoint with messages := [], dead := true }

def onSendEnqueue (s : IpcState) (r : Record) : Check IpcState := do
  let endpoint ← lookupOr s.endpoints r.object "enqueue to unpublished handle"
  require (endpoint.dead = false) "enqueue after destroy"
  require (endpoint.waiters = []) "message enqueued while waiters exist"
  let messages := endpoint.messages ++ [(r.subject, r.arg0)]
  require (r.arg1 = messages.length) "enqueue count mismatch"
  require (messages.length ≤ 16) "queue depth exceeded"
  return s.setEndpoint r.object { endpoint with messages := messages }

def onSendBegin (s : IpcState) (r : Record) : Check IpcState :=
  .ok { s with sendBegins := s.sendBegins.insert r.op (r.subject, r.arg0) }

def onRecvDequeue (s : IpcState) (r : Record) : Check IpcState := do
  let endpoint ← lookupOr s.endpoints r.object "dequeue from unpublished handle"
  require (endpoint.dead = false) "dequeue after destroy"
  match endpoint.messages with
  | [] => .error "dequeue from empty model queue"
  | expected :: messages => do
    require (endpoint.waiters = []) "dequeue while waiters exist"
    require (expected = (r.subject, r.arg0)) "FIFO mismatch"
    require (r.arg1 = messages.length) "dequeue count mismatch"
    return s.setEndpoint r.object { endpoint with messages := messages }

def onRecvWaitEnqueue (s : IpcState) (r : Record) : Check IpcState := do
  let endpoint ← lookupOr s.endpoints r.object "wait on unpublished handle"
  require (endpoint.dead = false) "wait after destroy"
  require (endpoint.messages = []) "receiver blocked with pending message"
  require (r.subject ∉ s.waitingTasks) "task waits twice"
  require (r.arg0 = stateBlockedMessage) "waiter published in wrong state"
  let waiters := endpoint.waiters ++ [(r.subject, r.hart)]
  require (r.arg1 = waiters.length) "waiter count mismatch"
  return { s.setEndpoint r.object { endpoint with waiters := waiters } with
    waitingTasks := insert r.subject s.waitingTasks
    blockHarts := insert r.hart s.blockHarts }

/-- What a wake by a send returns: the message of the send it belongs to. -/
def sendWakeResult (s : IpcState) (r : Record) (endpoint : EndpointState) : Check (ℤ × ℤ) := do
  require (endpoint.dead = false) "send wake after destroy"
  require (endpoint.messages = []) "send wake with pending message"
  let sent ← lookupOr s.sendBegins r.op "send wake without send begin"
  require (r.arg0 = sent.2) "send wake payload mismatch"
  return (0, sent.1)

/-- What a wake by a destroy returns. -/
def destroyWakeResult (r : Record) (endpoint : EndpointState) : Check (ℤ × ℤ) := do
  require (endpoint.dead = true) "destroy wake before DEAD publication"
  require (endpoint.messages = []) "destroy wake with pending message"
  require (r.arg0 = resultIdrm) "destroy wake must return -EIDRM"
  return (resultIdrm, 0)

def wakeResult (s : IpcState) (r : Record) (endpoint : EndpointState) : Check (ℤ × ℤ) :=
  if r.event = .ipcSendWake then s.sendWakeResult r endpoint else destroyWakeResult r endpoint

def onWake (s : IpcState) (r : Record) : Check IpcState := do
  let endpoint ← lookupOr s.endpoints r.object "wake on unpublished handle"
  let result ← s.wakeResult r endpoint
  match endpoint.waiters with
  | [] => .error "wake from empty waiter FIFO"
  | (tid, blockHart) :: waiters => do
    require (tid = r.subject) "waiter FIFO mismatch"
    require (r.subject ∈ s.waitingTasks) "waiter membership lost"
    require (r.subject ∉ s.pendingWakes) "task woken twice"
    require (r.arg1 = waiters.length) "wake count mismatch"
    return { s.setEndpoint r.object { endpoint with waiters := waiters } with
      waitingTasks := s.waitingTasks.erase r.subject
      pendingWakes := s.pendingWakes.insert r.subject
        ⟨r.seq, r.hart, r.op, r.object, result.1, result.2⟩
      wakeHarts := insert r.hart s.wakeHarts
      crossHartWakes := if blockHart ≠ r.hart then s.crossHartWakes + 1 else s.crossHartWakes }

def onRecvResultPublish (s : IpcState) (r : Record) : Check IpcState := do
  require (r.lockset = 0x2 ∨ r.lockset = 0x3) "wrong lockset for receive result publication"
  let wake ← lookupOr s.pendingWakes r.subject "result without wake"
  require (wake.seq < r.seq) "result precedes wake"
  require (r.op = wake.op) "result operation differs from wake"
  require (r.object = wake.handle) "result handle differs from wake"
  require (r.arg0 = wake.resultA0) "receive result a0 mismatch"
  require (r.arg1 = wake.resultSender) "receive result sender mismatch"
  require (r.subject ∉ s.resultPublished) "result published twice"
  return { s with resultPublished := s.resultPublished.insert r.subject r.seq }

def onInsertBegin (s : IpcState) (r : Record) : Check IpcState := do
  require (r.subject ∈ s.pendingWakes → r.arg0 = stateBlockedMessage)
    "woken task lost blocked state before READY"
  return s

def onInsertPublish (s : IpcState) (r : Record) : Check IpcState :=
  if r.subject ∈ s.pendingWakes then do
    let published ← lookupOr s.resultPublished r.subject "task READY before receive result"
    require (published < r.seq) "receive result does not precede READY"
    require (r.arg0 = stateReady) "woken task published in wrong state"
    return { s with
      pendingWakes := s.pendingWakes.erase r.subject
      resultPublished := s.resultPublished.erase r.subject }
  else .ok s

/-- The loop of `check_ipc`. -/
def step (s : IpcState) (r : Record) : Check IpcState :=
  match r.event with
  | .ipcCreatePublish => s.onCreatePublish r
  | .ipcDestroyDead => s.onDestroyDead r
  | .ipcSendEnqueue => s.onSendEnqueue r
  | .ipcSendBegin => s.onSendBegin r
  | .ipcRecvDequeue => s.onRecvDequeue r
  | .ipcRecvWaitEnqueue => s.onRecvWaitEnqueue r
  | .ipcSendWake => s.onWake r
  | .ipcDestroyWake => s.onWake r
  | .ipcRecvResultPublish => s.onRecvResultPublish r
  | .runqueueInsertBegin => s.onInsertBegin r
  | .runqueueInsertPublish => s.onInsertPublish r
  | _ => .ok s

end IpcState

def checkIpc (records : List Record) (requireBlocking requireCrossHart : Bool) : Check Unit := do
  let s ← records.foldlM IpcState.step IpcState.initial
  require (s.pendingWakes.entries = []) "wake without READY publication"
  require (s.resultPublished.entries = []) "orphan receive results"
  require (requireBlocking = true → s.blockHarts.Nonempty)
    "blocking IPC trace contains no blocked receiver"
  require (requireBlocking = true → s.wakeHarts.Nonempty) "blocking IPC trace contains no wake"
  require (requireBlocking = true → s.waitingTasks = ∅) "blocked receivers left behind"
  require (requireCrossHart = true → s.crossHartWakes > 0) "no cross-hart block/wake pair observed"

/-! ### Run queues -/

structure QueueState where
  queues : Dict (List ℤ)
  taskQueue : Dict ℤ

namespace QueueState

/-- `queues[object]` of a `defaultdict`. -/
def queue (s : QueueState) (object : ℤ) : List ℤ := (s.queues.lookup object).getD []

def onInsert (s : QueueState) (r : Record) : Check QueueState := do
  require (r.subject ∉ s.taskQueue) "task queued twice"
  let queue := s.queue r.object ++ [r.subject]
  require (r.arg1 = queue.length) "runqueue insert size mismatch"
  return ⟨s.queues.insert r.object queue, s.taskQueue.insert r.subject r.object⟩

def onRemove (s : QueueState) (r : Record) : Check QueueState :=
  match s.queue r.object with
  | [] => .error "remove from empty trace queue"
  | selected :: queue => do
    require (selected = r.subject) "runqueue FIFO mismatch"
    require (s.taskQueue.lookup selected = some r.object) "task membership lost"
    require (r.arg1 = queue.length) "runqueue remove size mismatch"
    return ⟨s.queues.insert r.object queue, s.taskQueue.erase selected⟩

/-- The loop of `check_runqueues`. -/
def step (s : QueueState) (r : Record) : Check QueueState :=
  match r.event with
  | .runqueueInsertPublish => s.onInsert r
  | .runqueueRemoveSelect => s.onRemove r
  | _ => .ok s

end QueueState

def checkRunqueues (records : List Record) : Check Unit := do
  let _ ← records.foldlM QueueState.step ⟨∅, ∅⟩
  return ()

/-! ### What the checks accept -/

theorem lookupOr_ok {V : Type} {d : Dict V} {key : ℤ} {message : String} {value : V} :
    lookupOr d key message = .ok value ↔ d.lookup key = some value := by
  rw [lookupOr]
  cases d.lookup key with
  | none => simp
  | some v => simp

namespace IpcState

variable {s s' : IpcState} {r : Record}

theorem onCreatePublish_ok : s.onCreatePublish r = .ok s' ↔
    s.endpoints.lookup r.object = none ∧ s' = s.setEndpoint r.object ⟨[], [], false⟩ := by
  rw [onCreatePublish, require_bind_ok, pure_ok, AList.lookup_eq_none]
  exact and_congr_right fun _ => eq_comm

theorem onDestroyDead_ok : s.onDestroyDead r = .ok s' ↔ ∃ e,
    s.endpoints.lookup r.object = some e ∧ e.dead = false ∧
      s' = s.setEndpoint r.object { e with messages := [], dead := true } := by
  simp only [onDestroyDead, bind_ok, require_ok, exists_const, pure_ok,
    lookupOr_ok, @eq_comm _ _ s']

theorem onSendEnqueue_ok : s.onSendEnqueue r = .ok s' ↔ ∃ e,
    s.endpoints.lookup r.object = some e ∧ e.dead = false ∧ e.waiters = [] ∧
      r.arg1 = e.messages.length + 1 ∧ e.messages.length + 1 ≤ 16 ∧
      s' = s.setEndpoint r.object { e with messages := e.messages ++ [(r.subject, r.arg0)] } := by
  simp only [onSendEnqueue, bind_ok, require_ok, exists_const, pure_ok,
    lookupOr_ok, List.length_append,
    List.length_singleton, Int.natCast_add, Int.natCast_one, @eq_comm _ _ s']

theorem onRecvDequeue_ok : s.onRecvDequeue r = .ok s' ↔ ∃ e messages,
    s.endpoints.lookup r.object = some e ∧ e.dead = false ∧ e.waiters = [] ∧
      e.messages = (r.subject, r.arg0) :: messages ∧ r.arg1 = messages.length ∧
      s' = s.setEndpoint r.object { e with messages := messages } := by
  simp only [onRecvDequeue, bind_ok, require_ok, exists_const, lookupOr_ok]
  refine exists_congr fun e => ?_
  cases hm : e.messages with
  | nil => simp
  | cons m messages =>
    simp only [bind_ok, require_ok, exists_const, pure_ok, List.cons.injEq, @eq_comm _ _ s']
    constructor
    · rintro ⟨he, hdead, hw, rfl, hcount, rfl⟩
      exact ⟨messages, he, hdead, hw, ⟨rfl, rfl⟩, hcount, rfl⟩
    · rintro ⟨_, he, hdead, hw, ⟨rfl, rfl⟩, hcount, rfl⟩
      exact ⟨he, hdead, hw, rfl, hcount, rfl⟩

theorem onRecvWaitEnqueue_ok : s.onRecvWaitEnqueue r = .ok s' ↔ ∃ e,
    s.endpoints.lookup r.object = some e ∧ e.dead = false ∧ e.messages = [] ∧
      r.subject ∉ s.waitingTasks ∧ r.arg0 = stateBlockedMessage ∧
      r.arg1 = e.waiters.length + 1 ∧
      s' = { s.setEndpoint r.object { e with waiters := e.waiters ++ [(r.subject, r.hart)] } with
        waitingTasks := insert r.subject s.waitingTasks
        blockHarts := insert r.hart s.blockHarts } := by
  simp only [onRecvWaitEnqueue, bind_ok, require_ok, exists_const, pure_ok,
    lookupOr_ok,
    List.length_append, List.length_singleton, Int.natCast_add, Int.natCast_one, @eq_comm _ _ s']

/-- The result that the checker expects of a wake. -/
def WakeResult (s : IpcState) (r : Record) (e : EndpointState) (result : ℤ × ℤ) : Prop :=
  e.messages = [] ∧
    (r.event = .ipcSendWake ∧ e.dead = false ∧
        (∃ sender, s.sendBegins.lookup r.op = some (sender, r.arg0) ∧ result = (0, sender)) ∨
      r.event ≠ .ipcSendWake ∧ e.dead = true ∧ r.arg0 = resultIdrm ∧ result = (resultIdrm, 0))

theorem wakeResult_ok {e : EndpointState} {result : ℤ × ℤ} :
    s.wakeResult r e = .ok result ↔ s.WakeResult r e result := by
  rw [wakeResult]
  by_cases hevent : r.event = .ipcSendWake
  · rw [if_pos hevent]
    simp only [sendWakeResult, bind_ok, require_ok, exists_const, pure_ok, lookupOr_ok,
      WakeResult, hevent, ne_eq, not_true_eq_false, false_and, or_false, true_and,
      @eq_comm _ _ result]
    constructor
    · rintro ⟨hdead, hm, ⟨sender, word⟩, hsent, harg, rfl⟩
      exact ⟨hm, hdead, sender, harg ▸ hsent, rfl⟩
    · rintro ⟨hm, hdead, sender, hsent, rfl⟩
      exact ⟨hdead, hm, _, hsent, rfl, rfl⟩
  · rw [if_neg hevent]
    simp only [destroyWakeResult, require_bind_ok, pure_ok, WakeResult, hevent, ne_eq,
      not_false_eq_true, false_and, false_or, true_and, @eq_comm _ _ result]
    tauto

theorem onWake_ok : s.onWake r = .ok s' ↔ ∃ e result blockHart waiters,
    s.endpoints.lookup r.object = some e ∧ s.WakeResult r e result ∧
      e.waiters = (r.subject, blockHart) :: waiters ∧ r.subject ∈ s.waitingTasks ∧
      s.pendingWakes.lookup r.subject = none ∧ r.arg1 = waiters.length ∧
      s' = { s.setEndpoint r.object { e with waiters := waiters } with
        waitingTasks := s.waitingTasks.erase r.subject
        pendingWakes := s.pendingWakes.insert r.subject
          ⟨r.seq, r.hart, r.op, r.object, result.1, result.2⟩
        wakeHarts := insert r.hart s.wakeHarts
        crossHartWakes := if blockHart ≠ r.hart then s.crossHartWakes + 1
          else s.crossHartWakes } := by
  simp only [onWake, bind_ok, lookupOr_ok, wakeResult_ok]
  constructor
  · rintro ⟨e, he, result, hresult, h⟩
    cases hw : e.waiters with
    | nil =>
      rw [hw] at h
      cases h
    | cons w waiters =>
      obtain ⟨tid, blockHart⟩ := w
      rw [hw] at h
      simp only [bind_ok, require_ok, exists_const, pure_ok] at h
      obtain ⟨rfl, hwaiting, hpending, hcount, rfl⟩ := h
      exact ⟨e, result, blockHart, waiters, he, hresult, hw, hwaiting,
        AList.lookup_eq_none.mpr hpending, hcount, rfl⟩
  · rintro ⟨e, result, blockHart, waiters, he, hresult, hw, hwaiting, hpending, hcount, rfl⟩
    refine ⟨e, he, result, hresult, ?_⟩
    rw [hw]
    simp only [bind_ok, require_ok, exists_const, pure_ok]
    exact ⟨trivial, hwaiting, AList.lookup_eq_none.mp hpending, hcount, trivial⟩

theorem onRecvResultPublish_ok : s.onRecvResultPublish r = .ok s' ↔ ∃ wake,
    (r.lockset = 0x2 ∨ r.lockset = 0x3) ∧ s.pendingWakes.lookup r.subject = some wake ∧
      wake.seq < r.seq ∧ r.op = wake.op ∧ r.object = wake.handle ∧ r.arg0 = wake.resultA0 ∧
      r.arg1 = wake.resultSender ∧ s.resultPublished.lookup r.subject = none ∧
      s' = { s with resultPublished := s.resultPublished.insert r.subject r.seq } := by
  simp only [onRecvResultPublish, bind_ok, require_ok, exists_const, pure_ok,
    lookupOr_ok,
    ← AList.lookup_eq_none, @eq_comm _ _ s', exists_and_left]

theorem onInsertBegin_ok : s.onInsertBegin r = .ok s' ↔
    (r.subject ∈ s.pendingWakes → r.arg0 = stateBlockedMessage) ∧ s' = s := by
  rw [onInsertBegin, require_bind_ok, pure_ok]
  exact and_congr_right fun _ => eq_comm

theorem onInsertPublish_ok : s.onInsertPublish r = .ok s' ↔
    s.pendingWakes.lookup r.subject = none ∧ s' = s ∨
    r.subject ∈ s.pendingWakes ∧ ∃ published,
      s.resultPublished.lookup r.subject = some published ∧ published < r.seq ∧
      r.arg0 = stateReady ∧ s' = { s with
        pendingWakes := s.pendingWakes.erase r.subject
        resultPublished := s.resultPublished.erase r.subject } := by
  rw [onInsertPublish, AList.lookup_eq_none]
  by_cases hp : r.subject ∈ s.pendingWakes
  · rw [if_pos hp]
    simp only [bind_ok, require_ok, exists_const, pure_ok,
    lookupOr_ok, hp, not_true_eq_false, false_and,
      false_or, true_and, @eq_comm _ _ s']
  · rw [if_neg hp]
    simp only [hp, not_false_eq_true, true_and, false_and, or_false]
    exact ⟨fun h => (Except.ok.inj h).symm, fun h => by rw [h]⟩

end IpcState

end Verify

end Jixia
