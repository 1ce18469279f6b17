import Lockstep.Inbox
import Lockstep.Machine
import Lockstep.Measurement.Basic
import Lockstep.Medium

/-!
# Measuring latency

One caller registers a service and broadcasts messages of one byte to its own cluster, each when the
one before has been received. `Latency.machine` is this caller on a medium; a receive times out only
where nothing else can happen.
-/

set_option autoImplicit false

namespace Lockstep

open Medium

/-- The `i`-th message of a measurement, a single byte. -/
def probe (i : Nat) : Payload := [UInt8.ofNat i]

/-- The queue of a service that receives the messages of a measurement. -/
def probeInbox (messages : Nat) : Except Fault (Inbox Payload) :=
  Inbox.ofCapacity (max messages 1)

namespace Latency

inductive Stage where
  | register
  | registering
  | send (i : Nat)
  | sending (i : Nat)
  | receive (i : Nat)
  /-- About to stop the service. -/
  | stop (result : Except MeasureError Nat)
  | stopping (result : Except MeasureError Nat)
  | over (result : Except MeasureError Nat)
  /-- The caller ran into a fault. -/
  | faulted (f : Fault)
  /-- The medium ended the caller. -/
  | dead

structure State (S : Type) where
  medium : S
  inbox : Inbox Payload := {}
  /-- The connection of the service, once it is registered. -/
  conn : Nat := 0
  stage : Stage := .register

inductive Label (I : Type) where
  | main
  | medium (i : I)
  /-- The receive times out. -/
  | expire

variable {S I : Type} (M : Medium S I) (messages : Nat)

/-- The caller asks the medium and goes to the stage `next`. -/
def ask (s : State S) (request : Request) (next : Stage) : State S :=
  { s with medium := M.ask s.medium 0 request, stage := next }

def main (s : State S) : Option (State S) :=
  match s.stage with
  | .register =>
    match probeInbox messages with
    | .ok inbox => some (ask M { s with inbox } .register .registering)
    | .error f => some { s with stage := .faulted f }
  | .registering => do
    let (reply, medium) ← M.reply? s.medium 0
    let s := { s with medium }
    match reply with
    | .ok conn => return { s with conn, stage := .send 0 }
    | .failed e => return { s with stage := .over (.error (.relay e)) }
    | .died => return { s with stage := .dead }
  | .send i =>
    if i < messages then some (ask M s (.broadcast s.conn (probe i)) (.sending i))
    else some { s with stage := .stop (.ok messages) }
  | .sending i => do
    let (reply, medium) ← M.reply? s.medium 0
    let s := { s with medium }
    match reply with
    | .ok _ => return { s with stage := .receive i }
    | .failed e => return { s with stage := .stop (.error (.relay e)) }
    | .died => return { s with stage := .dead }
  | .receive i => do
    let (_, inbox) ← s.inbox.receive?
    return { s with inbox, stage := .send (i + 1) }
  | .stop (.ok n) => some (ask M s (.unregister s.conn) (.stopping (.ok n)))
  | .stop (.error e) => some (ask M s (.drop s.conn) (.stopping (.error e)))
  | .stopping result => do
    let (_, medium) ← M.reply? s.medium 0
    return { s with medium, stage := .over result }
  | .over _ | .faulted _ | .dead => none

/-- A step of the medium; what it hands to the service's handler goes into the inbox. -/
def mediumStep (s : State S) (i : I) : Option (State S) := do
  let (medium, handover) ← M.step s.medium i
  let s := { s with medium }
  match handover with
  | some ⟨_, m⟩ => return { s with inbox := s.inbox.offer m }
  | none => return s

def expire (s : State S) : Option (State S) :=
  match s.stage, s.inbox.receive? with
  | .receive i, none => some { s with stage := .stop (.error (.receiveTimeout i)) }
  | _, _ => none

def step (s : State S) : Label I → Option (State S)
  | .main => main M messages s
  | .medium i => mediumStep M s i
  | .expire => expire s

def machine : Machine (State S) (Label I) where
  step := step M messages
  precedes
    | .main, .expire | .medium _, .expire => true
    | _, _ => false

def start (medium : S) : State S := { medium }

/-- The result, if the caller has come to one. -/
def result? (s : State S) : Except Fault (Option (Except MeasureError Nat)) :=
  match s.stage with
  | .over result => .ok (some result)
  | .faulted f => .error f
  | _ => .ok none

/-- The steps that wait for nothing. -/
def moves (s : State S) : List (Label I) := (M.moves s.medium).map .medium ++ [.main]

/-- One run, up to `fuel` rounds. -/
def run (fuel : Nat) (medium : S) : State S :=
  (machine M messages).drive (moves M) (fun _ => [.expire]) fuel (start medium)

end Latency

end Lockstep
