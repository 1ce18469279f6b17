import Lockstep.Machine
import Lockstep.Relay.Basic

/-!
# Calls on a relay that overlap

`Traffic` is a relay with the calls that callers have under way, each standing before its next step,
and `Traffic.machine` takes those steps in any order, mixed with the deliveries to the services. The
steps are what happens at one moment: looking at a flag, taking a number, changing the members of one
cluster. A broadcast keeps the members of its cluster locked while it goes through them (`walk`), so
the cluster does not change meanwhile; queues, flags and other clusters may.

What a handler does with the relay, while it is initialised or given a message, are calls of further
callers between `initialise` and the step after it, or between `take` and `finish`.
-/

set_option autoImplicit false

namespace Lockstep.Relay

inductive Call where
  /-- About to look whether the relay is open; with a cluster to register with, or to connect. -/
  | ask (cluster : Option String)
  /-- About to take a number. -/
  | takeId (cluster : Option String)
  /-- The handler is being initialised. -/
  | initialise (cluster : String) (id : Nat)
  /-- About to become a member. -/
  | insert (cluster : String) (id : Nat)
  /-- About to look whether the connection is open. -/
  | broadcast (conn : Nat) (cluster : String) (m : Payload)
  /-- About to look whether the relay is open. -/
  | askBroadcast (cluster : String) (m : Payload)
  /-- About to lock the members of the cluster. -/
  | lock (cluster : String) (m : Payload)
  /-- Handing the message to the members; it still has to be handed to `left`. -/
  | walk (cluster : String) (m : Payload) (left : List Nat)
  | close (conn : Nat)
  /-- About to be removed from the members. -/
  | remove (cluster : String) (id : Nat)
  /-- About to drop the entry of the cluster if it is empty. -/
  | sweep (cluster : String) (id : Nat)
  | hangUp (id : Nat)
  /-- Waiting until everything in the queue is handled. -/
  | join (id : Nat)
  | shutdown
  /-- Closed; about to remove the clusters. -/
  | clear
  /-- Over, with the number of the connection if one was made. -/
  | over (result : Except RelayError (Option Nat))

/-- The calls that can be started. -/
inductive Request where
  | connect
  | register (cluster : String)
  | broadcast (conn : Nat) (cluster : String) (m : Payload)
  | close (conn : Nat)
  | unregister (cluster : String) (id : Nat)
  | shutdown
  deriving Repr, DecidableEq

def Request.call : Request → Call
  | .connect => .ask none
  | .register cluster => .ask (some cluster)
  | .broadcast conn cluster m => .broadcast conn cluster m
  | .close conn => .close conn
  | .unregister cluster id => .remove cluster id
  | .shutdown => .shutdown

structure Traffic where
  relay : Relay := {}
  /-- The callers with a call under way. -/
  calls : List (Nat × Call) := []

namespace Traffic

inductive Label where
  /-- The caller starts a call. -/
  | start (caller : Nat) (request : Request)
  /-- The next step of the caller's call. -/
  | advance (caller : Nat)
  /-- The handler that the caller registers is initialised, or fails to be. -/
  | initialised (caller : Nat) (failure : Option Report)
  /-- The caller's broadcast hands its message to a member. -/
  | enqueue (caller : Nat) (id : Nat)
  /-- The caller goes on with the result of its call. -/
  | collect (caller : Nat)
  /-- The handler of a service is given a message. -/
  | take (id : Nat)
  /-- The handler is done with it. -/
  | finish (id : Nat) (panicked : Bool)
  deriving Repr, DecidableEq

def call? (t : Traffic) (caller : Nat) : Option Call := t.calls.lookup caller

/-- The caller's call stands at `c`. -/
def setCall (t : Traffic) (caller : Nat) (c : Call) : Traffic :=
  { t with calls := t.calls.map fun (k, c') => if k == caller then (k, c) else (k, c') }

def dropCall (t : Traffic) (caller : Nat) : Traffic :=
  { t with calls := t.calls.filter fun (k, _) => k != caller }

/-- A broadcast is going through the members of the cluster. -/
def isLocked (t : Traffic) (cluster : String) : Bool :=
  t.calls.any fun (_, c) => match c with
    | .walk name _ _ => name == cluster
    | _ => false

/-- A broadcast is going through the members of some cluster. -/
def isAnyLocked (t : Traffic) : Bool :=
  t.calls.any fun (_, c) => match c with
    | .walk _ _ _ => true
    | _ => false

/-- The next step of a call, and where it stands then. -/
def advanceCall (t : Traffic) : Call → Option (Relay × Call)
  | .ask cluster =>
    some (t.relay, if t.relay.closed then .over (.error .relayClosed) else .takeId cluster)
  | .takeId none => some (t.relay.newEndpoint, .over (.ok (some t.relay.nextId)))
  | .takeId (some cluster) => some (t.relay.newEndpoint, .initialise cluster t.relay.nextId)
  | .initialise _ _ => none
  | .insert cluster id =>
    if t.isLocked cluster then none
    else some (t.relay.insertMember cluster id, .over (.ok (some id)))
  | .broadcast conn cluster m =>
    some (t.relay, if t.relay.isClosed conn then .over (.error .connectionClosed)
      else .askBroadcast cluster m)
  | .askBroadcast cluster m =>
    some (t.relay, if t.relay.closed then .over (.error .relayClosed) else .lock cluster m)
  | .lock cluster m => some (t.relay, .walk cluster m (t.relay.members cluster))
  | .walk _ _ left => if left.isEmpty then some (t.relay, .over (.ok none)) else none
  | .close conn => some (t.relay.close conn, .over (.ok none))
  | .remove cluster id =>
    if t.isLocked cluster then none
    else
      let relay := t.relay.removeMember cluster id
      some (relay, if relay.isVacant cluster then .sweep cluster id else .hangUp id)
  | .sweep cluster id =>
    if t.isLocked cluster then none else some (t.relay.sweep cluster, .hangUp id)
  | .hangUp id => some (t.relay.close id, .join id)
  | .join id => if t.relay.isDrained id then some (t.relay, .over (.ok none)) else none
  | .shutdown => some (t.relay.markClosed, .clear)
  | .clear => if t.isAnyLocked then none else some (t.relay.clear, .over (.ok none))
  | .over _ => none

def start (t : Traffic) (caller : Nat) (c : Call) : Traffic :=
  { t with calls := t.calls ++ [(caller, c)] }

def advance (t : Traffic) (caller : Nat) : Option Traffic := do
  let (relay, c) ← t.advanceCall (← t.call? caller)
  return { t with relay }.setCall caller c

def initialised (t : Traffic) (caller : Nat) (failure : Option Report) : Option Traffic :=
  match t.call? caller with
  | some (.initialise cluster id) =>
    some (t.setCall caller (match failure with
      | none => .insert cluster id
      | some cause => .over (.error (.init cause))))
  | _ => none

def enqueue (t : Traffic) (caller id : Nat) : Option Traffic :=
  match t.call? caller with
  | some (.walk cluster m left) =>
    if id ∈ left then
      some ({ t with relay := t.relay.enqueue m id }.setCall caller
        (.walk cluster m (left.erase id)))
    else none
  | _ => none

/-- The result of the caller's call, once it is over. -/
def collect (t : Traffic) (caller : Nat) : Option (Except RelayError (Option Nat) × Traffic) :=
  match t.call? caller with
  | some (.over result) => some (result, t.dropCall caller)
  | _ => none

def step (t : Traffic) : Label → Option Traffic
  | .start caller request =>
    if (t.call? caller).isSome then none else some (t.start caller request.call)
  | .advance caller => t.advance caller
  | .initialised caller failure => t.initialised caller failure
  | .enqueue caller id => t.enqueue caller id
  | .collect caller => (t.collect caller).map (·.2)
  | .take id => (t.relay.take id).map fun (_, relay) => { t with relay }
  | .finish id panicked => (t.relay.finish id panicked).map fun relay => { t with relay }

def machine : Machine Traffic Label := ⟨step, fun _ _ => false⟩

end Traffic

end Lockstep.Relay
