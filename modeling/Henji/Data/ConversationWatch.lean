import Henji.Json
import Henji.Library.Heap

/-!
# The conversation watch of the data service

The service keeps one watch entry for a watched session. The writer's deltas enter the entry's
queue; a pump takes them out, completes each to an update and calls the listeners. The queue is
bounded: a delta that does not fit drops the queue, and the pump sends a snapshot instead.

The pump is an asynchronous function. Between two steps of it, which stand at its awaits, anything
else may happen; the calls of the listeners are steps of their own, since a listener may call back
into the service. The writer is seen through its cut: a publication moves it on by one and hands
the delta to every listener that the writer still has for the session. An entry that lost its
last listener is dropped, and a later subscription makes a new one, while the pump of the old
entry may still be running.
-/

namespace Henji

/-! ## Values -/

/-- A published change with its encoded bytes. -/
structure WriterDelta where
  cut : Nat
  storeRevision : Nat
  bytes : List UInt8
deriving DecidableEq, Repr

/-- What a listener receives. The descriptor is the session's at the time of the update. -/
structure ConversationUpdate where
  cut : Nat
  storeRevision : Nat
  bytes : List UInt8
  descriptor : Json
  deliverySequence : Nat
  snapshot : Bool
deriving DecidableEq

/-- A registered listener: its identity and the cut of the snapshot it was given. -/
structure WatchTarget where
  id : Nat
  afterCut : Nat
deriving DecidableEq, Repr

/-- Where the pump of an entry stands. -/
inductive PumpPhase where
  /-- Not pumping. -/
  | idle
  /-- Suspended in `publicSnapshotUpdate`, before the writer's snapshot is taken. -/
  | readingSnapshot (deliverySequence : Nat)
  /-- The snapshot is taken, and the pump has not resumed. -/
  | snapshotRead (update : ConversationUpdate)
  /-- Suspended in `publicUpdate`. -/
  | readingDescriptor (delta : WriterDelta) (deliverySequence : Nat)
  /-- Calling the listeners one after the other, then waiting for all calls; whether one of the
  calls so far rejects. -/
  | calling (update : ConversationUpdate) (remaining : List WatchTarget) (failed : Bool)
deriving DecidableEq

/-- The listeners that the pump is still to call. -/
def PumpPhase.remaining : PumpPhase → List WatchTarget
  | .calling _ remaining _ => remaining
  | _ => []

/-- `ConversationWatchEntry`, with the position of its pump for `pumping`. -/
structure WatchEntry where
  listeners : List WatchTarget
  pending : List WriterDelta
  pendingBytes : Int
  needsResync : Bool
  lastDeliveredCut : Nat
  phase : PumpPhase
deriving DecidableEq

/-- `CONVERSATION_WATCH_PENDING_BYTES`. -/
def conversationWatchPendingBytes : Int := 2 * 1024 * 1024

namespace WatchEntry

/-! ## The pump -/

/-- Take the first delta that has not been covered yet off the queue, and start its update with
the next delivery sequence. -/
def takeDelta (entry : WatchEntry) (sequence : Nat) : List WriterDelta → Int → WatchEntry × Nat
  | [], bytes =>
    ({ entry with pending := [], pendingBytes := bytes, phase := .idle }, sequence)
  | delta :: pending, bytes =>
    if delta.cut ≤ entry.lastDeliveredCut then
      takeDelta entry sequence pending (bytes - delta.bytes.length)
    else
      ({ entry with
        pending := pending
        pendingBytes := bytes - delta.bytes.length
        phase := .readingDescriptor delta (sequence + 1) }, sequence + 1)

/-- The head of the pump's loop, up to its next await or its end. -/
def pumpLoop (entry : WatchEntry) (sequence : Nat) : WatchEntry × Nat :=
  if entry.listeners = [] then ({ entry with phase := .idle }, sequence)
  else if entry.needsResync then
    ({ entry with
      needsResync := false
      pending := []
      pendingBytes := 0
      phase := .readingSnapshot (sequence + 1) }, sequence + 1)
  else takeDelta entry sequence entry.pending entry.pendingBytes

/-- The catch of the pump: only the resync marker is retained. -/
def failPump (entry : WatchEntry) : WatchEntry :=
  { entry with pending := [], pendingBytes := 0, needsResync := true, phase := .idle }

/-- Compute the listeners of an update and start calling them. -/
def startCalls (entry : WatchEntry) (update : ConversationUpdate) : WatchEntry :=
  let listeners := entry.listeners.filter fun target => target.afterCut < update.cut
  { entry with phase := .calling update listeners false }

/-- The continuation after `Promise.all`. -/
def settle (entry : WatchEntry) (sequence : Nat) (update : ConversationUpdate) (failed : Bool) :
    WatchEntry × Nat :=
  if failed then (entry.failPump, sequence)
  else { entry with lastDeliveredCut := max entry.lastDeliveredCut update.cut }.pumpLoop sequence

/-- `enqueueConversationDelta`. -/
def enqueue (entry : WatchEntry) (sequence : Nat) (delta : WriterDelta) : WatchEntry × Nat :=
  let startsDelivery := entry.phase = .idle ∧ entry.pending = []
  let queued : WatchEntry :=
    if entry.needsResync then entry
    else if ¬ startsDelivery ∧
        conversationWatchPendingBytes < entry.pendingBytes + delta.bytes.length then
      { entry with pending := [], pendingBytes := 0, needsResync := true }
    else { entry with
      pending := entry.pending ++ [delta]
      pendingBytes := entry.pendingBytes + delta.bytes.length }
  -- `pumpConversationWatch`: one pump at a time.
  if queued.phase = .idle then queued.pumpLoop sequence else (queued, sequence)

/-- One publication reaches the entry as often as the writer has listeners for the session. -/
def enqueueTimes (entry : WatchEntry) (sequence : Nat) (delta : WriterDelta) :
    Nat → WatchEntry × Nat
  | 0 => (entry, sequence)
  | times + 1 =>
    let first := entry.enqueue sequence delta
    first.1.enqueueTimes first.2 delta times

/-- Remove a listener; the last one takes the queue along. -/
def removeListener (entry : WatchEntry) (target : WatchTarget) : WatchEntry :=
  let listeners := entry.listeners.filter (· ≠ target)
  if listeners = [] then
    { entry with listeners, pending := [], pendingBytes := 0, needsResync := false }
  else { entry with listeners }

end WatchEntry

/-! ## The service -/

/-- One call of a listener, and whether it delivered the update. -/
structure Receipt where
  target : WatchTarget
  update : ConversationUpdate
  delivered : Bool
deriving DecidableEq

/-- The watch of one session: the writer's cut, all entries made so far and the one installed,
the next target and delivery sequence, and the calls of listeners, the latest first. -/
structure WatchService where
  writerCut : Nat
  entries : Heap WatchEntry
  current : Option Nat
  nextTarget : Nat
  nextDeliverySequence : Nat
  receipts : List Receipt

/-- How the call of a listener ends: its promise resolves or rejects, or it throws at once. -/
inductive CallEnd where
  | delivered
  | rejected
  | threw
deriving DecidableEq, Repr

/-- What can happen next: to the session from outside, or to the pump of an entry. -/
inductive WatchEvent where
  /-- A publication of the writer, which has `1 + stale` listeners for the session. -/
  | publish (storeRevision : Nat) (bytes : List UInt8) (stale : Nat)
  | subscribe
  | unsubscribe (entry : Nat) (target : WatchTarget)
  /-- The writer's snapshot is taken in `publicSnapshotUpdate`. -/
  | takeSnapshot (entry storeRevision : Nat) (bytes : List UInt8) (descriptor : Json)
  /-- The pump resumes with a snapshot, or with a delta's update. -/
  | resumeSnapshot (entry : Nat)
  | resumeUpdate (entry : Nat) (descriptor : Json)
  /-- The pump resumes with the failure of what it waited for. -/
  | readFailed (entry : Nat)
  | callListener (entry : Nat) (ended : CallEnd)
  | callsSettled (entry : Nat)

namespace WatchService

/-- A session without a watch. -/
def start (writerCut : Nat) : WatchService where
  writerCut := writerCut
  entries := .empty ⟨[], [], 0, false, 0, .idle⟩
  current := none
  nextTarget := 0
  nextDeliverySequence := 0
  receipts := []

def setEntry (service : WatchService) (ref : Nat) (result : WatchEntry × Nat) : WatchService :=
  { service with
    entries := service.entries.write ref result.1
    nextDeliverySequence := result.2 }

/-- `#publish` of the writer, and the listeners that it calls. -/
def publish (service : WatchService) (storeRevision : Nat) (bytes : List UInt8) (stale : Nat) :
    WatchService :=
  let cut := service.writerCut + 1
  let published := { service with writerCut := cut }
  match service.current with
  | none => published
  | some ref => published.setEntry ref ((service.entries.read ref).enqueueTimes
      service.nextDeliverySequence ⟨cut, storeRevision, bytes⟩ (stale + 1))

/-- `installConversationWatch`: the listener's snapshot has the writer's cut. -/
def subscribe (service : WatchService) : WatchService :=
  let target : WatchTarget := ⟨service.nextTarget, service.writerCut⟩
  match service.current with
  | none =>
    let entry : WatchEntry := ⟨[target], [], 0, false, service.writerCut, .idle⟩
    { service with
      entries := (service.entries.alloc entry).2
      current := some (service.entries.alloc entry).1
      nextTarget := service.nextTarget + 1 }
  | some ref =>
    { service with
      entries := service.entries.modify ref fun entry =>
        { entry with listeners := entry.listeners ++ [target] }
      nextTarget := service.nextTarget + 1 }

/-- The unsubscribe closure of a listener that is still active. -/
def unsubscribe (service : WatchService) (ref : Nat) (target : WatchTarget) : WatchService :=
  let entry := (service.entries.read ref).removeListener target
  { service with
    entries := service.entries.write ref entry
    current := if entry.listeners = [] then none else service.current }

/-- The call of the next listener. -/
def callListener (service : WatchService) (ref : Nat) (update : ConversationUpdate)
    (target : WatchTarget) (remaining : List WatchTarget) (failed : Bool) (ended : CallEnd) :
    WatchService :=
  let entry := service.entries.read ref
  { service with
    entries := service.entries.write ref (match ended with
      | .threw => entry.failPump
      | .rejected => { entry with phase := .calling update remaining true }
      | .delivered => { entry with phase := .calling update remaining failed })
    receipts := ⟨target, update, ended = .delivered⟩ :: service.receipts }

/-- One event; `none` where it cannot happen. -/
def step (service : WatchService) : WatchEvent → Option WatchService
  | .publish storeRevision bytes stale => some (service.publish storeRevision bytes stale)
  | .subscribe => some service.subscribe
  | .unsubscribe ref target =>
    if target ∈ (service.entries.read ref).listeners then some (service.unsubscribe ref target)
    else none
  | .takeSnapshot ref storeRevision bytes descriptor =>
    match (service.entries.read ref).phase with
    | .readingSnapshot sequence => some { service with
        entries := service.entries.modify ref fun entry => { entry with
          phase := .snapshotRead
            ⟨service.writerCut, storeRevision, bytes, descriptor, sequence, true⟩ } }
    | _ => none
  | .resumeSnapshot ref =>
    match (service.entries.read ref).phase with
    | .snapshotRead update =>
      some { service with entries := service.entries.modify ref (·.startCalls update) }
    | _ => none
  | .resumeUpdate ref descriptor =>
    match (service.entries.read ref).phase with
    | .readingDescriptor delta sequence =>
      some { service with entries := service.entries.modify ref (·.startCalls
        ⟨delta.cut, delta.storeRevision, delta.bytes, descriptor, sequence, false⟩) }
    | _ => none
  | .readFailed ref =>
    match (service.entries.read ref).phase with
    | .readingSnapshot _ | .readingDescriptor _ _ =>
      some { service with entries := service.entries.modify ref (·.failPump) }
    | _ => none
  | .callListener ref ended =>
    match (service.entries.read ref).phase with
    | .calling update (target :: remaining) failed =>
      some (service.callListener ref update target remaining failed ended)
    | _ => none
  | .callsSettled ref =>
    match (service.entries.read ref).phase with
    | .calling update [] failed =>
      some (service.setEntry ref ((service.entries.read ref).settle
        service.nextDeliverySequence update failed))
    | _ => none

/-- A run of events. -/
def run (service : WatchService) : List WatchEvent → Option WatchService
  | [] => some service
  | event :: events => (service.step event).bind (·.run events)

end WatchService

end Henji
