import Lockstep.Medium
import Lockstep.Relay.Traffic

/-!
# A relay and one of its clusters as a medium

Callers connect to the relay, and register with and broadcast to the cluster. Their calls overlap as
the steps of `Traffic` allow. Handlers do not use the relay themselves and do not fail.
-/

set_option autoImplicit false

namespace Lockstep.Relay

open Medium

/-- A relay in use, and whose handlers its services have. -/
structure Line where
  traffic : Traffic := {}
  /-- The services with the callers that registered their handlers. -/
  owners : List (Nat × Nat) := []

namespace Line

/-- The call that a request is. -/
def call (cluster : String) : Medium.Request → Call
  | .connect => (Request.connect).call
  | .register => (Request.register cluster).call
  | .broadcast conn m => (Request.broadcast conn cluster m).call
  | .close conn => (Request.close conn).call
  | .unregister conn | .drop conn => (Request.unregister cluster conn).call

def ask (cluster : String) (l : Line) (caller : Nat) (request : Medium.Request) : Line :=
  { l with traffic := l.traffic.start caller (call cluster request) }

def reply? (l : Line) (caller : Nat) : Option (Reply × Line) :=
  (l.traffic.collect caller).map fun
    | (.ok conn, traffic) => (.ok (conn.getD 0), { l with traffic })
    | (.error e, traffic) => (.failed e, { l with traffic })

/-- Notes whose handler is initialised. -/
def own (l : Line) (caller : Nat) : Line :=
  match l.traffic.call? caller with
  | some (.initialise _ id) => { l with owners := l.owners ++ [(id, caller)] }
  | _ => l

/-- A message handed to the handler of the service `id`, if a caller has registered it. -/
def handover (l : Line) (id : Nat) (m : Payload) : Option Handover :=
  (l.owners.lookup id).map (⟨·, m⟩)

/-- A step that hands nothing over. -/
def silent (l : Line) (label : Traffic.Label) : Option (Line × Option Handover) :=
  (l.traffic.step label).map fun traffic => ({ l with traffic }, none)

/-- The steps that are not a caller's own. -/
def step (l : Line) : Traffic.Label → Option (Line × Option Handover)
  | .take id =>
    (l.traffic.relay.take id).map fun (m, relay) =>
      ({ l with traffic := { l.traffic with relay } }, l.handover id m)
  | .finish id false => l.silent (.finish id false)
  | .advance caller => l.silent (.advance caller)
  | .initialised caller none => (l.own caller).silent (.initialised caller none)
  | .enqueue caller id => l.silent (.enqueue caller id)
  | _ => none

def callMoves : Nat × Call → List Traffic.Label
  | (caller, .walk _ _ (id :: left)) => (id :: left).map (.enqueue caller)
  | (caller, .initialise _ _) => [.initialised caller none]
  | (_, .over _) => []
  | (caller, _) => [.advance caller]

def endpointMoves (e : Endpoint) (id : Nat) : List Traffic.Label :=
  if e.busy then [.finish id false] else if e.queue.isEmpty then [] else [.take id, .finish id false]

def moves (l : Line) : List Traffic.Label :=
  l.traffic.relay.endpoints.zipIdx.flatMap (fun (e, id) => endpointMoves e id) ++
    l.traffic.calls.flatMap callMoves

end Line

/-- The relay with the cluster. -/
def line (cluster : String) : Medium Line Traffic.Label where
  ask := Line.ask cluster
  reply? := Line.reply?
  step := Line.step
  moves := Line.moves

end Lockstep.Relay
