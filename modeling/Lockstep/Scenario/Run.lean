import Lockstep.Barrier.Basic
import Lockstep.Clock
import Lockstep.Inbox
import Lockstep.Machine
import Lockstep.Medium
import Lockstep.Scenario.Verifier

/-!
# Runs of a scenario

Clients and servers on a medium, kept in step by a barrier, and the orchestrator that completes the
three phases. `Run.machine` takes the steps of all of them in any order. A participant that has synced
is `blocked` until the orchestrator has completed the phase it arrived in.

Time-outs expire only where nothing else can happen: first those of servers that wait for a
delivery, then that of the phase, which is longer. A wait for a phase reads the clock as it is called,
and panics if the clock can never show its end. How much time passes is left open, and the end of the
wait for a delivery is taken to be one that a clock can show.
-/

set_option autoImplicit false

namespace Lockstep.Scenario

open Medium

/-- Where a participant stands. -/
inductive Stage where
  /-- About to connect or to register. -/
  | enter
  | entering
  /-- About to arrive for the phase after the next, `first` being the arrival after startup. -/
  | arrive (first : Bool)
  | blocked (first : Bool) (reached : Nat)
  | send (i : Nat)
  | sending (i : Nat)
  /-- Receiving deliveries, or about to conclude. -/
  | verify (v : Verifier)
  /-- About to give up its connection or service; `verified` if nothing failed before. -/
  | depart (error : Option ParticipantError) (verified : Bool)
  | departing (error : Option ParticipantError)
  /-- About to leave the barrier. -/
  | finish (error : Option ParticipantError)
  | ended
  /-- Ended early, its handle dropped. -/
  | dead
  deriving Repr, DecidableEq

structure Participant where
  party : Party
  stage : Stage := .enter
  /-- Its connection, once it has one. -/
  conn : Nat := 0
  /-- A server's deliveries. -/
  inbox : Inbox Payload := {}
  deriving Repr, DecidableEq

/-- The first phase in which errors were reported. -/
structure Failure where
  phase : Phase
  failed : PhaseFailed ParticipantError
  deriving Repr, DecidableEq

/-- How the orchestrator waits for the phases. -/
inductive Waiting where
  /-- For as long as it takes. -/
  | plain
  /-- With a time-out. The clock is read once for each phase, as the wait for it is called. -/
  | timed (clock : Clock)

/-- When the wait for the phase is to end that is called now, if it has a time-out. -/
def Waiting.deadline (waiting : Waiting) (timeout : Duration) (phase : Phase) :
    Except Fault (Option Instant) :=
  match waiting with
  | .plain => .ok none
  | .timed clock => ((clock.reading phase.index).add timeout).map some

inductive Conductor where
  /-- About to wait for the first of the phases `left`. -/
  | conduct (left : List Phase) (failure : Option Failure)
  /-- Waiting for the phase, with those `left` to follow. -/
  | wait (phase : Phase) (deadline : Option Instant) (left : List Phase) (failure : Option Failure)
  /-- Waiting for the participants to end. -/
  | join (failure : Option Failure)
  | returned (result : Except ScenarioError Unit)
  /-- A wait was called that has no end. The participants are left as they are. -/
  | panicked (fault : Fault)

structure Run (S : Type) where
  config : Config
  medium : S
  waiting : Waiting
  barrier : Barrier ParticipantError
  participants : List Participant
  conductor : Conductor := .conduct Phase.all none

namespace Run

variable {S I : Type} (M : Medium S I)

inductive Label (I : Type) where
  | participant (p : Nat)
  | conduct
  | medium (i : I)
  /-- The receive of participant `p` times out. -/
  | expireReceive (p : Nat)
  /-- The wait for the phase times out. -/
  | expirePhase

/-! ## Participants -/

def setParticipant (r : Run S) (p : Nat) (x : Participant) : Run S :=
  { r with participants := r.participants.set p x }

/-- The participant `p`, which is `x`, goes to the stage `stage`. -/
def goTo (r : Run S) (p : Nat) (x : Participant) (stage : Stage) : Run S :=
  r.setParticipant p { x with stage }

def askFor (r : Run S) (p : Nat) (x : Participant) (request : Request) (next : Stage) : Run S :=
  { r with medium := M.ask r.medium p request }.goTo p x next

/-- The queue of a server for the deliveries it expects. -/
def serverInbox (c : Config) : Except Fault (Inbox Payload) := do
  Inbox.ofCapacity (← c.expectedDeliveries)

/-- A client connects; a server makes room for the deliveries it expects and registers. A server
whose deliveries cannot be counted or have no room ends there. -/
def enter (r : Run S) (p : Nat) (x : Participant) : Run S :=
  match x.party with
  | .client _ => askFor M r p x .connect .entering
  | .server _ =>
    match serverInbox r.config with
    | .ok inbox => askFor M r p { x with inbox } .register .entering
    | .error _ => r.goTo p x .dead

def enterError : Party → RelayError → ParticipantError
  | .client _, e => .connect e
  | .server _, e => .register e

def broadcastError : Party → RelayError → ParticipantError
  | .client _, e => .clientBroadcast e
  | .server _, e => .serverBroadcast e

/-- A participant fails that has its connection: a server's service is dropped before it leaves. -/
def afterFailure (party : Party) (e : ParticipantError) : Stage :=
  match party with
  | .client _ => .finish (some e)
  | .server _ => .depart (some e) false

def arrive (r : Run S) (p : Nat) (x : Participant) (first : Bool) : Option (Run S) := do
  match ← r.barrier.sync p with
  | .ok barrier => return { r with barrier }.goTo p x (.blocked first barrier.phase)
  | .error e => return r.goTo p x (afterFailure x.party (.sync e))

/-- What a participant does once the phase it arrived in is completed. -/
def afterPhase (r : Run S) (party : Party) : Bool → Stage
  | true => .send 0
  | false =>
    match party with
    | .client _ => .depart none true
    | .server _ => .verify { wanted := r.config.expectedDeliveries.toOption.getD 0 }

def verify (r : Run S) (p : Nat) (x : Participant) (v : Verifier) : Option (Run S) :=
  let conclude (result : Except ParticipantError Unit) : Stage :=
    match result with
    | .ok () => .depart none true
    | .error e => .depart (some e) true
  if v.wanted = 0 then some (r.goTo p x (conclude (v.conclude r.config)))
  else do
    let (m, inbox) ← x.inbox.receive?
    let stage :=
      match v.accept m with
      | .ok v => .verify v
      | .error e => conclude (.error e)
    return r.goTo p { x with inbox } stage

/-- The request by which a participant gives up its connection or its service. -/
def departure (x : Participant) (verified : Bool) : Request :=
  match x.party with
  | .client _ => .close x.conn
  | .server _ => if verified then .unregister x.conn else .drop x.conn

def participant (r : Run S) (p : Nat) : Option (Run S) := do
  let x ← r.participants[p]?
  match x.stage with
  | .enter => return enter M r p x
  | .entering =>
    let (reply, medium) ← M.reply? r.medium p
    let r := { r with medium }
    match reply with
    | .ok conn => return r.goTo p { x with conn } (.arrive true)
    | .failed e => return r.goTo p x (.finish (some (enterError x.party e)))
    | .died => return r.goTo p x .dead
  | .arrive first => r.arrive p x first
  | .blocked first reached =>
    guard (reached < r.barrier.phase)
    return r.goTo p x (r.afterPhase x.party first)
  | .send i =>
    if i < r.config.messages then
      return askFor M r p x (.broadcast x.conn (Message.bytes ⟨x.party, i⟩)) (.sending i)
    else return r.goTo p x (.arrive false)
  | .sending i =>
    let (reply, medium) ← M.reply? r.medium p
    let r := { r with medium }
    match reply with
    | .ok _ => return r.goTo p x (.send (i + 1))
    | .failed e => return r.goTo p x (afterFailure x.party (broadcastError x.party e))
    | .died => return r.goTo p x .dead
  | .verify v => r.verify p x v
  | .depart error verified => return askFor M r p x (departure x verified) (.departing error)
  | .departing error =>
    let (reply, medium) ← M.reply? r.medium p
    let r := { r with medium }
    match reply with
    | .died => return r.goTo p x .dead
    | _ => return r.goTo p x (.finish error)
  | .finish error =>
    let barrier ← r.barrier.exit p error
    return { r with barrier }.goTo p x .ended
  | .ended | .dead => none

/-- A delivery that does not come in time fails the verification. -/
def expireReceive (r : Run S) (p : Nat) : Option (Run S) := do
  let x ← r.participants[p]?
  match x.stage with
  | .verify v =>
    guard (v.wanted ≠ 0 ∧ x.inbox.items.isEmpty)
    return r.goTo p x (.depart (some .receiveTimeout) true)
  | _ => none

/-! ## The medium -/

/-- Offers a message to the server whose handler it is handed to. -/
def handOver (r : Run S) : Option Handover → Run S
  | some ⟨p, m⟩ =>
    { r with participants := r.participants.modify p fun x =>
        { x with inbox := x.inbox.offer m } }
  | none => r

def mediumStep (r : Run S) (i : I) : Option (Run S) := do
  let (medium, handover) ← M.step r.medium i
  return { r with medium }.handOver handover

/-! ## The orchestrator -/

/-- What is kept of the errors of a completed phase. -/
def recordFailure (failure : Option Failure) (phase : Phase) (completed : Nat)
    (errors : List ParticipantError) : Option Failure :=
  match failure with
  | some failure => some failure
  | none => if errors.isEmpty then none else some ⟨phase, ⟨completed, errors⟩⟩

def Stage.isOver : Stage → Bool
  | .ended | .dead => true
  | _ => false

def deadline (r : Run S) (phase : Phase) : Except Fault (Option Instant) :=
  r.waiting.deadline r.config.phaseTimeout phase

def conduct (r : Run S) : Option (Run S) :=
  match r.conductor with
  | .conduct [] failure => some { r with conductor := .join failure }
  | .conduct (phase :: left) failure =>
    match r.deadline phase with
    | .ok deadline => some { r with conductor := .wait phase deadline left failure }
    | .error fault => some { r with conductor := .panicked fault }
  | .wait phase _ left failure =>
    if r.barrier.isComplete then
      let (errors, barrier) := r.barrier.advance
      let failure := recordFailure failure phase (barrier.phase - 1) errors
      some { r with barrier, conductor := .conduct left failure }
    else none
  | .join failure =>
    if r.participants.all (Stage.isOver ·.stage) then
      some { r with conductor := .returned (match failure with
        | none => .ok ()
        | some f => .error (.phaseFailed f.phase f.failed)) }
    else none
  | .returned _ | .panicked _ => none

/-- A phase that is not completed in time ends the run; the participants are left as they are. -/
def expirePhase (r : Run S) : Option (Run S) :=
  match r.conductor with
  | .wait phase (some _) _ _ =>
    if r.barrier.isComplete then none
    else some { r with conductor := .returned (.error (.stuck phase r.barrier.timeout)) }
  | _ => none

/-! ## The machine -/

def step (r : Run S) : Label I → Option (Run S)
  | .participant p => participant M r p
  | .conduct => r.conduct
  | .medium i => mediumStep M r i
  | .expireReceive p => r.expireReceive p
  | .expirePhase => r.expirePhase

def Label.precedes {I : Type} : Label I → Label I → Bool
  | .expirePhase, _ => false
  | .expireReceive _, .expirePhase => true
  | .expireReceive _, _ => false
  | _, .expireReceive _ | _, .expirePhase => true
  | _, _ => false

def machine : Machine (Run S) (Label I) := ⟨step M, Label.precedes⟩

/-- The participants, the clients before the servers. -/
def parties (c : Config) : List Participant :=
  (List.range c.clients).map (fun i => { party := .client i }) ++
    (List.range c.servers).map (fun j => { party := .server j })

/-- How a run begins. -/
inductive Start (S : Type) where
  | refused (e : ScenarioError)
  | running (r : Run S)

/-- The begin of a run. One that is going to panic in its first wait faults at once, whatever its
participants would still do. If nothing is said of the clock, it was started a day ago and stands
still. -/
def start (c : Config) (medium : S)
    (waiting : Waiting := .timed (.still ⟨86400, 0, by decide, by decide⟩)) :
    Except Fault (Start S) := do
  match c.validate with
  | .error e => return .refused (.config e)
  | .ok () =>
    match ← Barrier.create (← c.participants) with
    | .error e => return .refused (.barrier e)
    | .ok barrier =>
      let _ ← waiting.deadline c.phaseTimeout .startup
      return .running
        { config := c, medium, waiting, barrier := barrier.issueAll.2, participants := parties c }

def result? (r : Run S) : Option (Except ScenarioError Unit) :=
  match r.conductor with
  | .returned result => some result
  | _ => none

/-- How the run has ended: with its result or in a panic. -/
def outcome? (r : Run S) : Option (Except Fault (Except ScenarioError Unit)) :=
  match r.conductor with
  | .returned result => some (.ok result)
  | .panicked fault => some (.error fault)
  | _ => none

theorem outcome?_eq_ok_iff {r : Run S} {result : Except ScenarioError Unit} :
    r.outcome? = some (.ok result) ↔ r.result? = some result := by
  unfold outcome? result?
  cases r.conductor <;> simp

/-! ## One run -/

/-- The steps that wait for nothing. -/
def moves (r : Run S) : List (Label I) :=
  (M.moves r.medium).map .medium ++ (List.range r.participants.length).map .participant ++
    [.conduct]

def expiries (r : Run S) : List (Label I) :=
  (List.range r.participants.length).map .expireReceive ++ [.expirePhase]

/-- The run after up to `fuel` rounds. -/
def settle (fuel : Nat) (r : Run S) : Run S := (machine M).drive (moves M) expiries fuel r

end Run

end Lockstep.Scenario
