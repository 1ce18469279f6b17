import Lockstep.Queue
import Lockstep.Relay.Error

/-!
# The relay

A `Relay` gives out connections, numbered from 0 in the order they are made, and keeps the clusters:
who is registered under which name. What belongs to one connection is its `Endpoint`. All copies of a
connection share it. If the connection is a service's, the endpoint also holds the service's queue
and what its handler has been given.

The operations come in two layers. The first are the steps that happen at one moment (`newEndpoint`,
`insertMember`, `enqueue`, …); the second are the calls made of them (`connect`, `broadcast`, …),
here without anything in between.
-/

set_option autoImplicit false

namespace Lockstep

/-- The bytes of a message. -/
abbrev Payload := List UInt8

structure Endpoint where
  closed : Bool := false
  /-- Messages for the service's handler, the oldest first. -/
  queue : Queue Payload := {}
  /-- Messages the handler was given, the oldest first. -/
  handled : Queue Payload := {}
  /-- The handler is at work on the last of `handled`. -/
  busy : Bool := false
  /-- The handler panicked and is given no more. -/
  dead : Bool := false
  deriving Repr, DecidableEq

/-- The services registered under a name, by the numbers of their connections. -/
structure Cluster where
  name : String
  members : List Nat
  deriving Repr, DecidableEq

structure Relay where
  closed : Bool := false
  /-- The endpoints of the connections made so far; the number of a connection is its place. -/
  endpoints : List Endpoint := []
  clusters : List Cluster := []
  deriving Repr, DecidableEq

namespace Relay

/-! ## Endpoints -/

/-- The number of the next connection. -/
def nextId (r : Relay) : Nat := r.endpoints.length

def newEndpoint (r : Relay) : Relay := { r with endpoints := r.endpoints ++ [{}] }

def modifyEndpoint (r : Relay) (id : Nat) (f : Endpoint → Endpoint) : Relay :=
  { r with endpoints := r.endpoints.modify id f }

/-- Closes the connection and every copy of it. -/
def close (r : Relay) (id : Nat) : Relay := r.modifyEndpoint id fun e => { e with closed := true }

/-- A connection that was never made counts as closed. -/
def isClosed (r : Relay) (id : Nat) : Bool :=
  match r.endpoints[id]? with
  | some e => e.closed
  | none => true

/-! ## Delivery -/

/-- Puts a message into the queue of a service, unless its handler is gone. -/
def enqueue (r : Relay) (m : Payload) (id : Nat) : Relay :=
  r.modifyEndpoint id fun e => if e.dead then e else { e with queue := e.queue.push m }

/-- The oldest message in the queue is given to the handler, which is idle. -/
def take (r : Relay) (id : Nat) : Option (Payload × Relay) := do
  let e ← r.endpoints[id]?
  guard (!e.busy && !e.dead)
  let (m, queue) ← e.queue.pop?
  let taken := { e with queue, handled := e.handled.push m, busy := true }
  return (m, { r with endpoints := r.endpoints.set id taken })

/-- The handler is done with its message. If it panicked, the rest of the queue is lost. -/
def finish (r : Relay) (id : Nat) (panicked : Bool) : Option Relay := do
  let e ← r.endpoints[id]?
  guard e.busy
  let queue := if panicked then {} else e.queue
  return { r with endpoints := r.endpoints.set id { e with queue, busy := false, dead := panicked } }

/-- Nothing is left for the handler. -/
def isDrained (r : Relay) (id : Nat) : Bool :=
  match r.endpoints[id]? with
  | some e => e.dead || (e.queue.isEmpty && !e.busy)
  | none => true

/-! ## Clusters -/

/-- The members of a cluster, in the order they were inserted. -/
def members (r : Relay) (cluster : String) : List Nat :=
  match r.clusters.find? (·.name == cluster) with
  | some c => c.members
  | none => []

def hasEntry (r : Relay) (cluster : String) : Bool := r.clusters.any (·.name == cluster)

/-- Changes the members of a cluster that has an entry. -/
def modifyMembers (r : Relay) (cluster : String) (f : List Nat → List Nat) : Relay :=
  { r with clusters := r.clusters.map fun c =>
      if c.name == cluster then { c with members := f c.members } else c }

/-- Adds a member, with an entry for the cluster if there is none. A member of the same number would
be replaced. -/
def insertMember (r : Relay) (cluster : String) (id : Nat) : Relay :=
  if r.hasEntry cluster then
    r.modifyMembers cluster fun ids => if id ∈ ids then ids else ids ++ [id]
  else { r with clusters := r.clusters ++ [⟨cluster, [id]⟩] }

def removeMember (r : Relay) (cluster : String) (id : Nat) : Relay :=
  r.modifyMembers cluster (·.erase id)

/-- The cluster has an entry, but no members. -/
def isVacant (r : Relay) (cluster : String) : Bool :=
  r.clusters.any fun c => c.name == cluster && c.members.isEmpty

/-- Drops the entry of a cluster that has no members. -/
def sweep (r : Relay) (cluster : String) : Relay :=
  { r with clusters := r.clusters.filter fun c => !(c.name == cluster && c.members.isEmpty) }

def markClosed (r : Relay) : Relay := { r with closed := true }

/-- Removes all clusters. The queues stay, and are still handled. -/
def clear (r : Relay) : Relay := { r with clusters := [] }

/-! ## Calls -/

/-- A new connection, if the relay is open. -/
def connect (r : Relay) : Except RelayError (Nat × Relay) :=
  if r.closed then .error .relayClosed else .ok (r.nextId, r.newEndpoint)

/-- Hands a copy of the message to every member of the cluster. The connection's own closing is
reported before the relay's. -/
def broadcast (r : Relay) (conn : Nat) (cluster : String) (m : Payload) : Except RelayError Relay :=
  if r.isClosed conn then .error .connectionClosed
  else if r.closed then .error .relayClosed
  else .ok ((r.members cluster).foldl (·.enqueue m) r)

/-- Takes a service out of its cluster and closes its connection. -/
def leave (r : Relay) (cluster : String) (id : Nat) : Relay :=
  ((r.removeMember cluster id).sweep cluster).close id

def shutdown (r : Relay) : Relay := r.markClosed.clear

/-- A service whose handler does no more than take its messages. -/
def registerRecorder (r : Relay) (cluster : String) : Except RelayError (Nat × Relay) := do
  let (id, r) ← r.connect
  return (id, r.insertMember cluster id)

/-- All messages such a service has been given once its queue is handled. -/
def recorded (r : Relay) (id : Nat) : List Payload :=
  match r.endpoints[id]? with
  | some e => e.handled.toList ++ e.queue.toList
  | none => []

/-- The text of a connection. -/
def connectionText (r : Relay) (id : Nat) : String :=
  "Connection \x7b id: " ++ toString id ++ ", closed: " ++ toString (r.isClosed id) ++ " \x7d"

end Relay

end Lockstep
