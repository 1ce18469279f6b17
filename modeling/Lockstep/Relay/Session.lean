import Lockstep.Relay.Basic

/-!
# Handlers, and calls on a relay one after the other

A handler is what it does: a list of `Action`s when it is initialised, and for each message a list of
actions. Actions use the relay themselves, to any depth: a handler may register another one.

A `Session` is a relay with the connections and services made on it; `Session.step` is one call, or
one message given to the handler of a service (`deliver`). Calls do not overlap here, but deliveries
may happen between any two of them.
-/

set_option autoImplicit false

namespace Lockstep.Relay

/-- What a handler does; `own` connections and messages are those the handler was given. -/
inductive Action where
  /-- Closes its own connection. -/
  | close
  | shutdown
  | connect
  | members (cluster : String)
  /-- Broadcasts the message it was given, which is empty while it is initialised. -/
  | echo (cluster : String)
  | send (cluster : String) (m : Payload)
  | register (cluster : String) (init : List Action) (react : Payload → List Action)
  /-- Returns from its initialisation with an error. -/
  | fail (reason : String)
  | panic

inductive ActionResult where
  | done
  | connected (id : Nat)
  | count (n : Nat)
  | failed (e : RelayError)
  deriving Repr, DecidableEq

/-- How a list of actions ends. -/
inductive Ending where
  | completed
  | failed (reason : String)
  | panicked
  deriving Repr, DecidableEq

structure Service where
  id : Nat
  cluster : String
  react : Payload → List Action
  /-- The results of its handler's actions, the oldest first. -/
  results : Queue ActionResult := {}
  /-- Unregistered. -/
  stopped : Bool := false

structure Session where
  relay : Relay := {}
  /-- The connections, by the order in which they were made or copied. -/
  connections : List Nat := []
  services : List Service := []

/-- The outcome of a call to register a handler. -/
inductive Registration where
  | registered (id : Nat)
  | refused (e : RelayError)
  | panicked
  deriving Repr, DecidableEq

namespace Session

def withRelay (s : Session) (r : Relay) : Session := { s with relay := r }

/-- The service becomes a member, if its handler was initialised. -/
def conclude (s : Session) (id : Nat) (cluster : String) (react : Payload → List Action)
    (results : List ActionResult) : Ending → Registration × Session
  | .completed =>
    (.registered id,
      { s with
        relay := s.relay.insertMember cluster id
        services := s.services ++ [{ id, cluster, react, results := .ofList results }] })
  | .failed reason => (.refused (.init { message := reason }), s)
  | .panicked => (.panicked, s)

/-! ## Actions -/

mutual

/-- One action of a handler with the connection `own`, given the message `m`: its result, or how it
ends the handler's list, and the session after it. -/
def perform (own : Nat) (m : Payload) : Action → Session → Except Ending ActionResult × Session
  | .close, s => (.ok .done, s.withRelay (s.relay.close own))
  | .shutdown, s => (.ok .done, s.withRelay s.relay.shutdown)
  | .connect, s =>
    match s.relay.connect with
    | .ok (id, r) => (.ok (.connected id), s.withRelay r)
    | .error e => (.ok (.failed e), s)
  | .members cluster, s => (.ok (.count (s.relay.members cluster).length), s)
  | .echo cluster, s =>
    match s.relay.broadcast own cluster m with
    | .ok r => (.ok .done, s.withRelay r)
    | .error e => (.ok (.failed e), s)
  | .send cluster sent, s =>
    match s.relay.broadcast own cluster sent with
    | .ok r => (.ok .done, s.withRelay r)
    | .error e => (.ok (.failed e), s)
  | .register cluster init react, s =>
    match s.relay.connect with
    | .error e => (.ok (.failed e), s)
    | .ok (id, r) =>
      let (results, ending, s) := performAll id [] init (s.withRelay r)
      match s.conclude id cluster react results ending with
      | (.registered id, s) => (.ok (.connected id), s)
      | (.refused e, s) => (.ok (.failed e), s)
      | (.panicked, s) => (.error .panicked, s)
  | .fail reason, s => (.error (.failed reason), s)
  | .panic, s => (.error .panicked, s)

/-- The actions of a list until one ends it: their results, the end, and the session after it. -/
def performAll (own : Nat) (m : Payload) :
    List Action → Session → List ActionResult × Ending × Session
  | [], s => ([], .completed, s)
  | a :: as, s =>
    match perform own m a s with
    | (.error ending, s) => ([], ending, s)
    | (.ok result, s) =>
      let (results, ending, s) := performAll own m as s
      (result :: results, ending, s)

end

/-! ## Calls -/

/-- Registers a handler: the relay's open check, the handler's initialisation with its own
connection, and then the cluster. The relay is not checked again. -/
def register (s : Session) (cluster : String) (init : List Action)
    (react : Payload → List Action) : List ActionResult × Registration × Session :=
  match s.relay.connect with
  | .error e => ([], .refused e, s)
  | .ok (id, r) =>
    let (results, ending, s) := performAll id [] init (s.withRelay r)
    let (registration, s) := s.conclude id cluster react results ending
    (results, registration, s)

/-- The handler of service `k` is given the oldest message of its queue and reacts to it. -/
def deliver? (s : Session) (k : Nat) : Option Session := do
  let service ← s.services[k]?
  let (m, r) ← s.relay.take service.id
  let (results, ending, s) := performAll service.id m (service.react m) (s.withRelay r)
  let r ← s.relay.finish service.id (ending = .panicked)
  return { s with
    relay := r
    services := s.services.modify k fun service =>
      { service with results := service.results.pushAll results } }

/-- Up to `n` messages are given to the handler of service `k`. -/
def deliverUpTo (s : Session) (k : Nat) : Nat → Session
  | 0 => s
  | n + 1 =>
    match s.deliver? k with
    | some s => s.deliverUpTo k n
    | none => s

/-- Stops service `k`, which is `service`: it leaves its cluster, its connection is closed, and what is
queued for it is handled. -/
def stop (s : Session) (k : Nat) (service : Service) : Session :=
  let s := s.withRelay (s.relay.leave service.cluster service.id)
  let queued := match s.relay.endpoints[service.id]? with
    | some e => e.queue.toList.length
    | none => 0
  let s := s.deliverUpTo k queued
  { s with services := s.services.modify k fun service => { service with stopped := true } }

/-- A connection, named by its place among the connections or by its service. -/
inductive Target where
  | connection (n : Nat)
  | service (n : Nat)
  deriving Repr, DecidableEq

/-- The service `k`, until it is unregistered. -/
def service? (s : Session) (k : Nat) : Option Service :=
  (s.services[k]?).filter fun service => !service.stopped

def id? (s : Session) : Target → Option Nat
  | .connection n => s.connections[n]?
  | .service n => (s.service? n).map (·.id)

/-- What a service's handler was given, and what came of its actions. -/
structure Received where
  messages : List Payload
  results : List ActionResult
  deriving Repr, DecidableEq

def received (s : Session) (k : Nat) : Received :=
  match s.services[k]? with
  | some service =>
    { messages := match s.relay.endpoints[service.id]? with
        | some e => e.handled.toList
        | none => []
      results := service.results.toList }
  | none => ⟨[], []⟩

inductive Call where
  | connect
  | clone (t : Target)
  | close (t : Target)
  | inspect (t : Target)
  | register (cluster : String) (init : List Action) (react : Payload → List Action)
  | broadcast (t : Target) (cluster : String) (m : Payload)
  | members (cluster : String)
  | shutdown
  /-- Unregisters the service or drops it, which is the same. -/
  | unregister (k : Nat)
  /-- Looks at what the service has received, which stays known when it is unregistered. -/
  | observe (k : Nat)
  /-- Not a call: the handler of service `k` is given its next message. -/
  | deliver (k : Nat)

inductive Answer where
  | done
  | noHandle
  | connected (id : Nat)
  | connection (id : Nat) (closed : Bool) (text : String)
  | count (n : Nat)
  | failed (e : RelayError)
  | registration (cluster : String) (outcome : Registration) (results : List ActionResult)
  | received (r : Received)
  deriving Repr, DecidableEq

def step (s : Session) : Call → Answer × Session
  | .connect =>
    match s.relay.connect with
    | .ok (id, r) =>
      (.connected id, { s with relay := r, connections := s.connections ++ [id] })
    | .error e => (.failed e, s)
  | .clone t =>
    match s.id? t with
    | some id => (.connected id, { s with connections := s.connections ++ [id] })
    | none => (.noHandle, s)
  | .close t =>
    match s.id? t with
    | some id => (.done, s.withRelay (s.relay.close id))
    | none => (.noHandle, s)
  | .inspect t =>
    match s.id? t with
    | some id => (.connection id (s.relay.isClosed id) (s.relay.connectionText id), s)
    | none => (.noHandle, s)
  | .register cluster init react =>
    let (results, outcome, s) := s.register cluster init react
    (.registration cluster outcome results, s)
  | .broadcast t cluster m =>
    match s.id? t with
    | some id =>
      match s.relay.broadcast id cluster m with
      | .ok r => (.done, s.withRelay r)
      | .error e => (.failed e, s)
    | none => (.noHandle, s)
  | .members cluster => (.count (s.relay.members cluster).length, s)
  | .shutdown => (.done, s.withRelay s.relay.shutdown)
  | .unregister k =>
    match s.service? k with
    | some service =>
      let s := s.stop k service
      (.received (s.received k), s)
    | none => (.noHandle, s)
  | .observe k =>
    match s.services[k]? with
    | some _ => (.received (s.received k), s)
    | none => (.noHandle, s)
  | .deliver k => (.done, (s.deliver? k).getD s)

/-- The answers to a list of calls, and the session after it. -/
def run (s : Session) : List Call → List Answer × Session
  | [] => ([], s)
  | c :: cs =>
    let (a, s) := s.step c
    let (as, s) := s.run cs
    (a :: as, s)

/-- The calls after `cs` find the session that `cs` leaves. -/
theorem run_append (s : Session) (cs ds : List Call) :
    s.run (cs ++ ds) =
      ((s.run cs).1 ++ ((s.run cs).2.run ds).1, ((s.run cs).2.run ds).2) := by
  induction cs generalizing s with
  | nil => rfl
  | cons c cs ih => simp [run, ih]

/-- Messages are given to the handlers, the first service with a message first, until none is left
or `n` have been given. -/
def settle (s : Session) : Nat → Session
  | 0 => s
  | n + 1 =>
    match (List.range s.services.length).findSome? s.deliver? with
    | some s => s.settle n
    | none => s

end Session

end Lockstep.Relay
