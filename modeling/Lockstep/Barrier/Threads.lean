import Lockstep.Barrier.Basic
import Lockstep.Machine
import Lockstep.Queue

/-!
# Threads on a barrier

The participants and the orchestrator as threads that share the barrier's lock and two condition
variables. A thread that has to wait looks at its condition under the lock (`awake`), keeps the lock
while it has found that it must wait (`holding`), and gives the lock up and falls asleep in one step
(`asleep`). The arrival that completes a phase wakes the orchestrator; completing the phase wakes the
participants; `wake` and `wakeOrchestrator` are wake-ups for no reason. Each other step is a critical
section and needs the lock to be free.

In `Threads.machine` a time-out expires only where no thread can go on, the orchestrator's before the
participants', whose time is longer. `Threads.hastyMachine` lets time-outs expire at any time. The end of
a time-out is taken to be an instant that a clock can show; a call without such an end would panic
before it locks for the first time, or for the second time if it arrives first.
-/

set_option autoImplicit false

namespace Lockstep.Barrier

/-- What a participant's thread does next with its handle. A thread with nothing left drops it. -/
inductive Op (ε : Type) where
  | sync
  /-- A blocking sync, and up to `more` of them after it: one that fails is the last. -/
  | syncWait (timed : Bool) (more : Nat)
  | exit (error : Option ε)
  deriving Repr, DecidableEq

/-- How many calls an operation is at most. -/
def Op.calls {ε : Type} : Op ε → Nat
  | .syncWait _ more => more + 1
  | _ => 1

/-- What is left to do once the first call is over. -/
def Op.after {ε : Type} : List (Op ε) → List (Op ε)
  | .syncWait timed (more + 1) :: rest => .syncWait timed more :: rest
  | _ :: rest => rest
  | [] => []

/-- Where a thread stands that has to wait for a condition. -/
inductive Stage where
  /-- About to lock and look at the condition. -/
  | awake
  /-- Has the lock and has found that it must wait. -/
  | holding
  /-- Asleep on the condition variable and not notified. -/
  | asleep
  deriving Repr, DecidableEq

def Stage.notified : Stage → Stage
  | .asleep => .awake
  | stage => stage

/-- A blocking call that has arrived in phase `reached`. -/
structure Blocked where
  timed : Bool
  reached : Nat
  stage : Stage
  deriving Repr, DecidableEq

structure Thread (ε : Type) where
  /-- The operations left, the current one first. -/
  todo : List (Op ε)
  blocked : Option Blocked := none
  /-- The results of its syncs so far. -/
  results : Queue (Except SyncError Unit) := {}

/-- The current sync is over. -/
def Thread.synced {ε : Type} (t : Thread ε) : Thread ε :=
  { t with todo := Op.after t.todo, blocked := none, results := t.results.push (.ok ()) }

/-- The current sync fails, and with it its operation. -/
def Thread.fail {ε : Type} (t : Thread ε) (e : SyncError) : Thread ε :=
  { t with todo := t.todo.tail, blocked := none, results := t.results.push (.error e) }

structure Orchestrator (ε : Type) where
  /-- How many waits are left, the current one included. -/
  left : Nat
  /-- Whether the wait that so many are to follow has a time-out. -/
  timed : Nat → Bool
  stage : Stage := .awake
  results : Queue (Except WaitTimeout (List ε)) := {}

structure Threads (ε : Type) where
  barrier : Barrier ε
  /-- A thread is `holding`. -/
  locked : Bool := false
  threads : List (Thread ε)
  orchestrator : Orchestrator ε

namespace Threads

variable {ε : Type}

inductive Label where
  | act (p : Nat)
  | conduct
  | wake (p : Nat)
  | wakeOrchestrator
  | expire (p : Nat)
  | expireOrchestrator
  deriving Repr, DecidableEq

/-! ## Waking up -/

/-- The arrival that completes the phase wakes the orchestrator. -/
def notifyIfComplete (s : Threads ε) : Threads ε :=
  if s.barrier.arrived = s.barrier.total then
    { s with orchestrator := { s.orchestrator with stage := s.orchestrator.stage.notified } }
  else s

/-- A completed phase wakes every participant. -/
def notifyAdvanced (s : Threads ε) : Threads ε :=
  { s with threads := s.threads.map fun t =>
      { t with blocked := t.blocked.map fun b => { b with stage := b.stage.notified } } }

/-! ## Participants -/

def setThread (s : Threads ε) (p : Nat) (t : Thread ε) : Threads ε :=
  { s with threads := s.threads.set p t }

/-- The current operation of the participant `p`, which is not blocked. -/
def perform (s : Threads ε) (p : Nat) (t : Thread ε) : Op ε → Option (Threads ε)
  | .exit error => do
    let b ← s.barrier.exit p error
    return notifyIfComplete ({ s with barrier := b }.setThread p { t with todo := [] })
  | .sync => do
    match ← s.barrier.sync p with
    | .ok b => return notifyIfComplete ({ s with barrier := b }.setThread p t.synced)
    | .error e => return s.setThread p (t.fail e)
  | .syncWait timed _ => do
    match ← s.barrier.sync p with
    | .ok b =>
      let t := { t with blocked := some ⟨timed, b.phase, .awake⟩ }
      return notifyIfComplete ({ s with barrier := b }.setThread p t)
    | .error e => return s.setThread p (t.fail e)

def act (s : Threads ε) (p : Nat) : Option (Threads ε) := do
  let t ← s.threads[p]?
  match t.blocked with
  | some b =>
    match b.stage with
    | .asleep => none
    | .holding =>
      return { s with locked := false }.setThread p
        { t with blocked := some { b with stage := .asleep } }
    | .awake =>
      guard !s.locked
      if s.barrier.phase ≤ b.reached then
        return { s with locked := true }.setThread p
          { t with blocked := some { b with stage := .holding } }
      else return s.setThread p t.synced
  | none =>
    guard !s.locked
    match t.todo with
    | [] => none
    | op :: _ => s.perform p t op

/-- The time of the participant's blocking call is over. -/
def expire (s : Threads ε) (p : Nat) : Option (Threads ε) := do
  let t ← s.threads[p]?
  match t.blocked with
  | some { timed := true, reached, stage := .asleep } =>
    guard !s.locked
    if s.barrier.phase ≤ reached then
      return s.setThread p (t.fail (.timedOut reached))
    else return s.setThread p t.synced
  | _ => none

def wake (s : Threads ε) (p : Nat) : Option (Threads ε) := do
  let t ← s.threads[p]?
  match t.blocked with
  | some { timed, reached, stage := .asleep } =>
    return s.setThread p { t with blocked := some ⟨timed, reached, .awake⟩ }
  | _ => none

/-! ## The orchestrator -/

/-- The current wait returns with the errors of the completed phase. -/
def completed (s : Threads ε) : Threads ε :=
  let (errors, b) := s.barrier.advance
  notifyAdvanced { s with
    barrier := b
    orchestrator := { s.orchestrator with
      left := s.orchestrator.left - 1
      stage := .awake
      results := s.orchestrator.results.push (.ok errors) } }

def conduct (s : Threads ε) : Option (Threads ε) := do
  let o := s.orchestrator
  guard (o.left ≠ 0)
  match o.stage with
  | .asleep => none
  | .holding => return { s with locked := false, orchestrator := { o with stage := .asleep } }
  | .awake =>
    guard !s.locked
    if s.barrier.isComplete then return s.completed
    else return { s with locked := true, orchestrator := { o with stage := .holding } }

/-- The time of the current wait is over; after a wait that gave up there are no more. -/
def expireOrchestrator (s : Threads ε) : Option (Threads ε) := do
  let o := s.orchestrator
  guard (o.left ≠ 0 ∧ o.timed (o.left - 1) ∧ o.stage = .asleep ∧ s.locked = false)
  if s.barrier.isComplete then return s.completed
  else
    return { s with orchestrator := { o with
      left := 0
      stage := .awake
      results := o.results.push (.error s.barrier.timeout) } }

def wakeOrchestrator (s : Threads ε) : Option (Threads ε) :=
  match s.orchestrator.stage with
  | .asleep => some { s with orchestrator := { s.orchestrator with stage := .awake } }
  | _ => none

/-! ## The machine -/

def step (s : Threads ε) : Label → Option (Threads ε)
  | .act p => s.act p
  | .conduct => s.conduct
  | .wake p => s.wake p
  | .wakeOrchestrator => s.wakeOrchestrator
  | .expire p => s.expire p
  | .expireOrchestrator => s.expireOrchestrator

def Label.precedes : Label → Label → Bool
  | .act _, .expire _ | .act _, .expireOrchestrator => true
  | .conduct, .expire _ | .conduct, .expireOrchestrator => true
  | .expireOrchestrator, .expire _ => true
  | _, _ => false

def machine (ε : Type) : Machine (Threads ε) Label := ⟨step, Label.precedes⟩

def hastyMachine (ε : Type) : Machine (Threads ε) Label := ⟨step, fun _ _ => false⟩

/-- The threads of a fresh barrier, one for each program, and an orchestrator with up to `waits`
waits. -/
def start (programs : List (List (Op ε))) (waits : Nat) (timed : Nat → Bool) : Threads ε where
  barrier := (Barrier.fresh programs.length).issueAll.2
  threads := programs.map fun todo => { todo }
  orchestrator := { left := waits, timed }

/-! ## One run -/

/-- The steps that wait for nothing, wake-ups for no reason apart. -/
def moves (s : Threads ε) : List Label :=
  (List.range s.threads.length).map .act ++ [.conduct]

def expiries (s : Threads ε) : List Label :=
  .expireOrchestrator :: (List.range s.threads.length).map .expire

/-- Every call and every wait looks, sleeps, is woken and returns at most. -/
def budget (s : Threads ε) : Nat :=
  let calls := s.threads.flatMap fun t => t.todo.map Op.calls
  4 * (calls.foldr (· + ·) (s.threads.length + s.orchestrator.left + 1))

/-- The threads when nothing is left to do. -/
def settle (s : Threads ε) : Threads ε := (machine ε).drive moves expiries s.budget s

end Threads

/-! ## Scripts -/

/-- How a participant ends after its rounds. -/
inductive Ending (ε : Type) where
  | exit (error : Option ε)
  /-- One more arrival that does not block, then the exit. -/
  | syncExit (error : Option ε)
  | drop
  deriving Repr, DecidableEq

structure Script (ε : Type) where
  rounds : Nat
  ending : Ending ε
  deriving Repr, DecidableEq

def Ending.ops {ε : Type} : Ending ε → List (Op ε)
  | .exit error => [.exit error]
  | .syncExit error => [.sync, .exit error]
  | .drop => []

/-- The program of a script, its blocking syncs with or without a time-out. -/
def Script.ops {ε : Type} (script : Script ε) (timed : Bool) : List (Op ε) :=
  match script.rounds with
  | 0 => script.ending.ops
  | more + 1 => .syncWait timed more :: script.ending.ops

/-- The threads of these scripts, with an orchestrator that waits up to `phases` times. -/
def Threads.ofScripts {ε : Type} (scripts : List (Script ε)) (timed : Bool) (phases : Nat) :
    Threads ε :=
  .start (scripts.map (·.ops timed)) phases fun _ => true

end Lockstep.Barrier
