/-
The endpoint table.

The lock sections of `ipc_manager.cpp`.  An endpoint holds a ring of pending
messages and an intrusive FIFO of blocked receivers; a handle is a table index
and a generation, packed into one word.
-/
import Jixia.Kernel
import Jixia.RingBuffer

namespace Jixia

open Function

def kErrorInvalidArgument : ℤ := -22
def kErrorAgain : ℤ := -11
def kErrorAccess : ℤ := -13
def kErrorNoSpace : ℤ := -28
def kErrorIdrm : ℤ := -43

/-- The epoch ceiling: the top bit of a handle stays clear. -/
def kMaxGeneration : BitVec 32 := 0x7FFFFFFF

/-- Typed endpoint identity: the low half is the table index, the high half the
generation. -/
structure EndpointHandle where
  index : BitVec 32
  generation : BitVec 32
  deriving DecidableEq

namespace EndpointHandle

def raw (handle : EndpointHandle) : Word :=
  (handle.generation.setWidth 64 <<< 32) ||| handle.index.setWidth 64

def fromRaw (value : Word) : EndpointHandle :=
  ⟨value.setWidth 32, (value >>> 32).setWidth 32⟩

/-- `EndpointManager::handle_well_formed`. -/
def wellFormed (handle : EndpointHandle) : Bool :=
  handle.index.toNat < kMaxEndpoints && handle.generation != 0 &&
    handle.generation ≤ kMaxGeneration

/-- The table slot a well-formed handle names. -/
def slot (handle : EndpointHandle) : EndpointRef := Fin.ofNat kMaxEndpoints handle.index.toNat

end EndpointHandle

/-- How `recv` ends. -/
inductive RecvStatus
  | delivered | blocked | rejected
  deriving DecidableEq

/-- Where the lock section of `send` leaves off: with a return code, or with a
receiver that has its message and still has to be made ready. -/
inductive SendStep
  | done (code : ℤ)
  | wake (receiver : TaskRef)
  deriving DecidableEq

/-- Where the first part of `destroy_endpoint` leaves off. -/
inductive DestroyStep
  | done (code : ℤ)
  | wakeAll
  deriving DecidableEq

namespace Endpoint

/-- A message behind the pending ones. -/
def enqueue (endpoint : Endpoint) (message : Message) : Endpoint :=
  { endpoint with
    queue := update endpoint.queue
      (RingBuffer.slot kEndpointQueueDepth (endpoint.head + endpoint.count)) message
    count := endpoint.count + 1 }

/-- The slot at the head is cleared and the head moves on. -/
def dequeue (endpoint : Endpoint) : Endpoint :=
  { endpoint with
    queue := update endpoint.queue
      (RingBuffer.slot kEndpointQueueDepth endpoint.head) {}
    head := (endpoint.head + 1) % kEndpointQueueDepth
    count := endpoint.count - 1 }

/-- The oldest pending message. -/
def front (endpoint : Endpoint) : Message :=
  endpoint.queue (RingBuffer.slot kEndpointQueueDepth endpoint.head)

end Endpoint

/-- `write_recv_registers`: `a0` and the message in `a1`..`a5`. -/
def TaskContext.writeRecv (context : TaskContext) (a0 : ℤ) (message : Message) : TaskContext :=
  (((((context.setX 10 (BitVec.ofInt 64 a0)).setX 11 (message.words 0)).setX 12
    (message.words 1)).setX 13 (message.words 2)).setX 14 (message.words 3)).setX 15
    message.sender

namespace Kernel

def writeRecvRegisters (k : Kernel) (t : TaskRef) (a0 : ℤ) (message : Message) : Kernel :=
  k.modifyTask t fun task => { task with context := task.context.writeRecv a0 message }

/-! ### The waiting FIFO -/

def waiterPush (k : Kernel) (e : EndpointRef) (waiter : TaskRef) : Kernel :=
  let tail := (k.endpoints e).waitingTail
  let k := k.modifyTask waiter fun task => { task with
    messageWait := { task.messageWait with previous := tail, next := none } }
  let k := match tail with
    | some last => k.modifyTask last fun task => { task with messageWait.next := some waiter }
    | none => k.modifyEndpoint e fun endpoint => { endpoint with waitingHead := some waiter }
  let k := k.modifyEndpoint e fun endpoint => { endpoint with waitingTail := some waiter }
  let k := k.modifyTask waiter fun task => { task with messageWait.queued := true }
  k.modifyEndpoint e fun endpoint => { endpoint with waitingCount := endpoint.waitingCount + 1 }

def waiterPop (k : Kernel) (e : EndpointRef) : Option TaskRef × Kernel :=
  match (k.endpoints e).waitingHead with
  | none => (none, k)
  | some waiter =>
    let head := (k.tasks waiter).messageWait.next
    let k := k.modifyEndpoint e fun endpoint => { endpoint with waitingHead := head }
    let k := match head with
      | some first => k.modifyTask first fun task => { task with messageWait.previous := none }
      | none => k.modifyEndpoint e fun endpoint => { endpoint with waitingTail := none }
    let k := k.modifyTask waiter fun task => { task with messageWait := {} }
    (some waiter, k.modifyEndpoint e fun endpoint =>
      { endpoint with waitingCount := endpoint.waitingCount - 1 })

/-! ### The sections of the interface -/

/-- The slot `create_endpoint` takes: the lowest one that is neither allocated
nor retired. -/
def findFreeEndpoint (k : Kernel) : Option EndpointRef :=
  (List.finRange kMaxEndpoints).find? fun e => !(k.slotAllocated e || (k.endpoints e).retired)

/-- `create_endpoint` on the slot it found; the result is the new handle. -/
def createEndpointLocked (k : Kernel) (e : EndpointRef) (owner : TaskId) : Word × Kernel :=
  let k := { k with slotAllocated := update k.slotAllocated e true }
  let k := k.modifyEndpoint e fun endpoint =>
    { active := true, retired := false, owner := owner, head := 0, count := 0,
      waitingHead := none, waitingTail := none, waitingCount := 0,
      -- Destroy owns the epoch increment; generation 0 is the never-used state.
      generation := if endpoint.generation == 0 then 1 else endpoint.generation }
  (EndpointHandle.raw ⟨BitVec.ofNat 32 e.val, (k.endpoints e).generation⟩, k)

/-- `destroy_endpoint` up to its linearization point: the endpoint is dead, its
queue is empty, its epoch is advanced or its slot retired. -/
def destroyEndpointLocked (k : Kernel) (caller : TaskId) (parsed : EndpointHandle) :
    DestroyStep × Kernel :=
  let e := parsed.slot
  let endpoint := k.endpoints e
  if !k.slotAllocated e || !endpoint.active || endpoint.generation != parsed.generation then
    (.done kErrorInvalidArgument, k)
  else if endpoint.owner != caller then (.done kErrorAccess, k)
  else
    let k := k.modifyEndpoint e fun endpoint => { endpoint with
      queue := fun _ => {}, head := 0, count := 0, owner := 0, active := false }
    if kMaxGeneration ≤ endpoint.generation then
      (.wakeAll, k.modifyEndpoint e fun endpoint => { endpoint with retired := true })
    else
      let k := k.modifyEndpoint e fun endpoint =>
        { endpoint with generation := endpoint.generation + 1 }
      (.wakeAll, { k with slotAllocated := update k.slotAllocated e false })

/-- One round of the wake loop of `destroy_endpoint`, up to `add_task`. -/
def destroyPop (k : Kernel) (e : EndpointRef) : Option TaskRef × Kernel :=
  match k.waiterPop e with
  | (none, k) => (none, k)
  | (some receiver, k) =>
    let k := k.modifyTask receiver fun task => { task with stateInfo := 0 }
    (some receiver, k.setReg receiver 10 (BitVec.ofInt 64 kErrorIdrm))

/-- The lock section of `send`. -/
def sendLocked (k : Kernel) (sender : TaskId) (parsed : EndpointHandle) (words : Fin 4 → Word) :
    Outcome SendStep :=
  let e := parsed.slot
  let endpoint := k.endpoints e
  if !endpoint.active || endpoint.generation != parsed.generation then
    .ok (.done kErrorInvalidArgument) k
  else if 0 < endpoint.waitingCount && 0 < endpoint.count then
    .error (.park .checkEndpointInvariant) k
  else if 0 < endpoint.waitingCount then
    match k.waiterPop e with
    | (none, k) => .error .nullPointer k
    | (some receiver, k) =>
      let k := k.writeRecvRegisters receiver 0 ⟨sender, words⟩
      .ok (.wake receiver) (k.modifyTask receiver fun task => { task with stateInfo := 0 })
  else if kEndpointQueueDepth ≤ endpoint.count then .ok (.done kErrorAgain) k
  else .ok (.done 0) (k.modifyEndpoint e fun endpoint => endpoint.enqueue ⟨sender, words⟩)

/-- The lock section of `try_recv`: an error code, or the oldest message. -/
def tryRecvLocked (k : Kernel) (parsed : EndpointHandle) : (ℤ ⊕ Message) × Kernel :=
  let e := parsed.slot
  let endpoint := k.endpoints e
  if !endpoint.active || endpoint.generation != parsed.generation then
    (.inl kErrorInvalidArgument, k)
  else if endpoint.count == 0 then (.inl kErrorAgain, k)
  else (.inr endpoint.front, k.modifyEndpoint e Endpoint.dequeue)

/-- The lock section of `recv`, up to the dispatch of another task. -/
def recvLocked (k : Kernel) (caller : TaskRef) (handle : Word) : Outcome RecvStatus :=
  let parsed := EndpointHandle.fromRaw handle
  let e := parsed.slot
  let endpoint := k.endpoints e
  if !endpoint.active || endpoint.generation != parsed.generation then
    .ok .rejected (k.setReg caller 10 (BitVec.ofInt 64 kErrorInvalidArgument))
  else if 0 < endpoint.waitingCount && 0 < endpoint.count then
    .error (.park .checkEndpointInvariant) k
  else if 0 < endpoint.count then
    let k := k.modifyEndpoint e Endpoint.dequeue
    .ok .delivered (k.writeRecvRegisters caller 0 endpoint.front)
  else
    let k := k.waiterPush e caller
    .ok .blocked (k.modifyTask caller fun task =>
      { task with state := .blockedMessage, stateInfo := handle })

end Kernel

end Jixia
