import Lockstep.Relay.Line

/-!
# Watching a cluster

A relay in use with services that do no more than take the messages of one cluster. What they have
been given shows what was broadcast to it.
-/

set_option autoImplicit false

namespace Lockstep.Relay

structure Watch where
  cluster : String
  line : Line
  /-- The services that watch, in the order they were registered. -/
  watchers : List Nat

namespace Watch

/-- Registers one more watcher, if the relay is open. -/
def add (w : Watch) : Watch :=
  match w.line.traffic.relay.registerRecorder w.cluster with
  | .ok (id, relay) =>
    { w with
      line := { w.line with traffic := { w.line.traffic with relay } }
      watchers := w.watchers ++ [id] }
  | .error _ => w

/-- A fresh relay whose cluster has `n` watchers, shut down after that if `closed`. -/
def create (cluster : String) (n : Nat) (closed : Bool) : Watch :=
  let w := Nat.repeat add n { cluster, line := {}, watchers := [] }
  if closed then
    { w with line := { traffic := { relay := w.line.traffic.relay.shutdown } } }
  else w

def relay (w : Watch) : Relay := w.line.traffic.relay

/-- How many services are registered with the cluster. -/
def members (w : Watch) : Nat := (w.relay.members w.cluster).length

/-- What each watcher has been given once its queue is handled. -/
def seen (w : Watch) : List (List Payload) := w.watchers.map w.relay.recorded

/-- How many services are left when the watchers are unregistered. -/
def membersAfter (w : Watch) : Nat :=
  ((w.watchers.foldl (·.leave w.cluster ·) w.relay).members w.cluster).length

/-- The number a further connection would get. -/
def nextId? (w : Watch) : Option Nat := w.relay.connect.toOption.map (·.1)

end Watch

end Lockstep.Relay
