import Lockstep.Measurement.Latency

/-!
# Measuring throughput

The owner of a pool registers a service, schedules a broadcast to its cluster for each message, and
receives the messages while the workers broadcast them. The first failed broadcast, if there is one,
is the result, however many messages were received. If not all workers can be made, nothing is
received, and the pool is dropped.
-/

set_option autoImplicit false

namespace Lockstep

open Medium

namespace Throughput

/-- Why the pool is terminated. -/
inductive Ending where
  /-- All messages were received. -/
  | enough
  | timedOut (received : Nat)
  | startFailed (e : PoolError)
  deriving DecidableEq

/-- The service is stopped by name in the first case, and by being dropped in an early return. -/
def Ending.farewell (conn : Nat) : Ending → Request
  | .enough => .unregister conn
  | .timedOut _ | .startFailed _ => .drop conn

inductive Stage where
  | register
  | registering
  /-- About to schedule the `i`-th broadcast, or to start the pool. -/
  | schedule (i : Nat)
  | receive (received : Nat)
  /-- The pool could not be started, and is about to be dropped. -/
  | abandoned (e : PoolError)
  | terminating (ending : Ending)
  /-- The pool is terminated, and the service is about to be stopped. -/
  | stop (ending : Ending)
  | stopping (ending : Ending)
  | over (result : Except MeasureError Nat)
  | faulted (f : Fault)
  | dead

structure State (S : Type) where
  medium : S
  inbox : Inbox Payload := {}
  /-- The tasks are the numbers of the messages. -/
  pool : Pool Nat
  /-- The workers whose broadcast is under way. -/
  asked : List Nat := []
  /-- The errors of broadcasts, in the order they were reported. -/
  failures : List RelayError := []
  conn : Nat := 0
  stage : Stage := .register

inductive Label (I : Type) where
  | main
  | work (w : Nat)
  | medium (i : I)
  | expire
  /-- The owner starts the pool, but only the first `made` of its workers can be made. -/
  | startShort (made : Nat) (reason : String)

variable {S I : Type} (M : Medium S I) (messages : Nat)

/-! ## The owner -/

def ask (s : State S) (request : Request) (next : Stage) : State S :=
  { s with medium := M.ask s.medium 0 request, stage := next }

/-- A step of the pool itself. -/
def poolStep (s : State S) (l : Pool.Label Nat) : Option (State S) :=
  (s.pool.step l).map fun pool => { s with pool }

/-- The result, when the pool is terminated and these broadcasts failed. -/
def verdict (failures : List RelayError) : Ending → Except MeasureError Nat
  | .startFailed e => .error (.pool e)
  | .enough =>
    match failures with
    | e :: _ => .error (.relay e)
    | [] => .ok messages
  | .timedOut received =>
    match failures with
    | e :: _ => .error (.relay e)
    | [] => .error (.receiveTimeout received)

def main (s : State S) : Option (State S) :=
  match s.stage with
  | .register =>
    match probeInbox messages with
    | .ok inbox => some (ask M { s with inbox } .register .registering)
    | .error f => some { s with stage := .faulted f }
  | .registering => do
    let (reply, medium) ← M.reply? s.medium 0
    let s := { s with medium }
    match reply with
    | .ok conn => return { s with conn, stage := .schedule 0 }
    | .failed e => return { s with stage := .over (.error (.relay e)) }
    | .died => return { s with stage := .dead }
  | .schedule i => do
    if i < messages then
      let s ← poolStep s (.schedule i)
      return { s with stage := .schedule (i + 1) }
    else
      let s ← poolStep s .start
      return { s with stage := .receive 0 }
  | .receive received => do
    if received < messages then
      let (_, inbox) ← s.inbox.receive?
      return { s with inbox, stage := .receive (received + 1) }
    else
      let s ← poolStep s (.terminate true)
      return { s with stage := .terminating .enough }
  | .abandoned e => do
    let s ← poolStep s .drop
    return { s with stage := .terminating (.startFailed e) }
  | .terminating ending =>
    match s.pool.owner with
    | .closing => poolStep s .close
    | .joining => do
      let s ← poolStep s .return
      return { s with stage := .stop ending }
    | .free => none
  | .stop ending => some (ask M s (ending.farewell s.conn) (.stopping ending))
  | .stopping ending => do
    let (_, medium) ← M.reply? s.medium 0
    return { s with medium, stage := .over (verdict messages s.failures ending) }
  | .over _ | .faulted _ | .dead => none

def startShort (s : State S) (made : Nat) (reason : String) : Option (State S) :=
  match s.stage with
  | .schedule i =>
    if i < messages then none
    else do
      let t ← poolStep s (.startShort made reason)
      return { t with stage := .abandoned (s.pool.startShort made reason).1 }
  | _ => none

/-! ## The workers -/

/-- The broadcast of worker `w` is over, and with it the task. -/
def taskOver (s : State S) (w : Nat) (failures : List RelayError) (panicked : Bool) :
    Option (State S) :=
  poolStep { s with asked := s.asked.erase w, failures := s.failures ++ failures }
    (.finish w panicked)

/-- Worker `w` is caller `w + 1` of the medium. -/
def work (s : State S) (w : Nat) : Option (State S) :=
  match s.pool.workers[w]? with
  | some (.running i) =>
    if w ∈ s.asked then do
      let (reply, medium) ← M.reply? s.medium (w + 1)
      let s := { s with medium }
      match reply with
      | .ok _ => taskOver s w [] false
      | .failed e => taskOver s w [e] false
      | .died => taskOver s w [] true
    else
      some { s with
        medium := M.ask s.medium (w + 1) (.broadcast s.conn (probe i))
        asked := w :: s.asked }
  | some (.holding _) => poolStep s (.check w)
  | some .idle => (poolStep s (.take w)).or (poolStep s (.leave w))
  | _ => none

/-! ## The machine -/

def mediumStep (s : State S) (i : I) : Option (State S) := do
  let (medium, handover) ← M.step s.medium i
  let s := { s with medium }
  match handover with
  | some ⟨_, m⟩ => return { s with inbox := s.inbox.offer m }
  | none => return s

/-- The receive times out: the pool is told to quit. -/
def expire (s : State S) : Option (State S) :=
  match s.stage, s.inbox.receive? with
  | .receive received, none =>
    if received < messages then do
      let s ← poolStep s (.terminate false)
      return { s with stage := .terminating (.timedOut received) }
    else none
  | _, _ => none

def step (s : State S) : Label I → Option (State S)
  | .main => main M messages s
  | .work w => work M s w
  | .medium i => mediumStep M s i
  | .expire => expire messages s
  | .startShort made reason => startShort messages s made reason

def machine : Machine (State S) (Label I) where
  step := step M messages
  precedes
    | .expire, _ => false
    | _, .expire => true
    | _, _ => false

def start (threads : Nat) (medium : S) : State S :=
  { medium, pool := .fresh threads }

/-- The result, if the owner has come to one. -/
def result? (s : State S) : Except Fault (Option (Except MeasureError Nat)) :=
  match s.stage with
  | .over result => .ok (some result)
  | .faulted f => .error f
  | _ => .ok none

/-- The steps that wait for nothing. -/
def moves (s : State S) : List (Label I) :=
  (M.moves s.medium).map .medium ++ (List.range s.pool.workers.length).map .work ++ [.main]

/-- One run, up to `fuel` rounds. -/
def run (fuel threads : Nat) (medium : S) : State S :=
  (machine M messages).drive (moves M) (fun _ => [.expire]) fuel (start threads medium)

end Throughput

end Lockstep
