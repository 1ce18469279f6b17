import Lockstep.Machine
import Lockstep.Queue
import Lockstep.Report

/-!
# The worker pool

Tasks are queued in the order they are scheduled. Once the pool is started, its workers take them in
that order; each worker looks at the `quit` flag between taking a task and running it. To terminate
the pool, the owner sets the flag unless the workers are to drain the queue, closes the queue, waits
for the workers to leave and discards what is left. A task that panics ends like any other.

The tasks that were run and those that were dropped unrun are kept in `ran` and `discarded`.
-/

set_option autoImplicit false

namespace Lockstep

inductive PoolError where
  | alreadyStarted
  | terminated
  | spawn (reason : String)
  deriving Repr, DecidableEq

instance : Reportable PoolError where
  message
    | .alreadyStarted => "Pool was already started"
    | .terminated => "Pool was terminated"
    | .spawn reason => "Failed to spawn worker: " ++ reason
  causes
    | .spawn reason => [reason]
    | _ => []

/-- Where a worker stands. -/
inductive Worker (τ : Type) where
  /-- About to take a task. -/
  | idle
  /-- Has taken a task and not looked at the flag. -/
  | holding (task : τ)
  | running (task : τ)
  | left
  deriving Repr, DecidableEq

/-- Where the owner stands. -/
inductive Owner where
  | free
  /-- Terminating, the queue still open. -/
  | closing
  /-- Waiting for the workers to leave. -/
  | joining
  deriving Repr, DecidableEq

structure Pool (τ : Type) where
  threads : Nat
  /-- Tasks are accepted. -/
  isOpen : Bool := true
  started : Bool := false
  quit : Bool := false
  /-- The tasks nobody has taken, the oldest first. -/
  queue : Queue τ := {}
  workers : List (Worker τ) := []
  owner : Owner := .free
  /-- The tasks that were started, in that order. -/
  ran : Queue τ := {}
  /-- The tasks dropped without running. -/
  discarded : Queue τ := {}
  deriving Repr, DecidableEq

namespace Pool

variable {τ : Type}

inductive Label (τ : Type) where
  | schedule (task : τ)
  | start
  /-- The owner starts the pool, but only the first `made` of its workers can be made. -/
  | startShort (made : Nat) (reason : String)
  | terminate (wait : Bool)
  /-- The owner drops the pool, which terminates it unless that was done. -/
  | drop
  /-- The owner closes the queue. -/
  | close
  /-- The owner's call returns, all workers having left. -/
  | return
  | take (w : Nat)
  | check (w : Nat)
  | finish (w : Nat) (panicked : Bool)
  | leave (w : Nat)
  deriving Repr, DecidableEq

/-- The number of tasks that no worker has taken. -/
def pending (p : Pool τ) : Nat := p.queue.toList.length

/-! ## The owner -/

def schedule (p : Pool τ) (task : τ) : Except PoolError (Pool τ) :=
  if p.isOpen then .ok { p with queue := p.queue.push task } else .error .terminated

/-- The pool is started with `made` workers. -/
def startWith (p : Pool τ) (made : Nat) : Except PoolError (Pool τ) :=
  if !p.isOpen then .error .terminated
  else if p.started then .error .alreadyStarted
  else .ok { p with started := true, workers := List.replicate made .idle }

def start (p : Pool τ) : Except PoolError (Pool τ) := p.startWith p.threads

/-- A start that fails with the worker after the first `made`: its error, and the pool, which counts as
started all the same and keeps the workers it has. -/
def startShort (p : Pool τ) (made : Nat) (reason : String) : PoolError × Pool τ :=
  match p.startWith made with
  | .ok p => (.spawn reason, p)
  | .error e => (e, p)

def terminate (p : Pool τ) (wait : Bool) : Pool τ :=
  { p with quit := p.quit || !wait, owner := .closing }

def close (p : Pool τ) : Pool τ := { p with isOpen := false, owner := .joining }

/-- The end of a termination: the workers are gone, and what is queued is dropped. -/
def finishTermination (p : Pool τ) : Pool τ :=
  { p with
    owner := .free
    workers := []
    queue := {}
    discarded := p.discarded.pushAll p.queue.toList }

/-! ## Workers -/

def hasLeft : Worker τ → Bool
  | .left => true
  | _ => false

def setWorker (p : Pool τ) (w : Nat) (worker : Worker τ) : Pool τ :=
  { p with workers := p.workers.set w worker }

def take (p : Pool τ) (w : Nat) : Option (Pool τ) :=
  match p.workers[w]?, p.queue.pop? with
  | some .idle, some (task, queue) => some { p.setWorker w (.holding task) with queue }
  | _, _ => none

/-- The worker looks at the flag: it runs its task, or drops it and leaves. -/
def check (p : Pool τ) (w : Nat) : Option (Pool τ) :=
  match p.workers[w]? with
  | some (.holding task) =>
    if p.quit then some { p.setWorker w .left with discarded := p.discarded.push task }
    else some { p.setWorker w (.running task) with ran := p.ran.push task }
  | _ => none

/-- The worker's task ends. That it panicked makes no difference to the worker. -/
def finish (p : Pool τ) (w : Nat) : Option (Pool τ) :=
  match p.workers[w]? with
  | some (.running _) => some (p.setWorker w .idle)
  | _ => none

/-- The worker leaves, as the queue is closed and empty. -/
def leave (p : Pool τ) (w : Nat) : Option (Pool τ) :=
  match p.workers[w]? with
  | some .idle => if p.queue.isEmpty && !p.isOpen then some (p.setWorker w .left) else none
  | _ => none

/-! ## The machine -/

/-- The owner calls nothing while it terminates the pool. A refused call changes nothing. -/
def step (p : Pool τ) : Label τ → Option (Pool τ)
  | .schedule task =>
    if p.owner = .free then some ((p.schedule task).toOption.getD p) else none
  | .start => if p.owner = .free then some (p.start.toOption.getD p) else none
  | .startShort made reason =>
    if p.owner = .free ∧ made < p.threads then some (p.startShort made reason).2 else none
  | .terminate wait => if p.owner = .free then some (p.terminate wait) else none
  | .drop =>
    if p.owner = .free then
      some (if p.isOpen || !p.workers.isEmpty then p.terminate false else p)
    else none
  | .close => if p.owner = .closing then some p.close else none
  | .return =>
    if p.owner = .joining ∧ p.workers.all hasLeft then some p.finishTermination else none
  | .take w => p.take w
  | .check w => p.check w
  | .finish w _ => p.finish w
  | .leave w => p.leave w

def machine (τ : Type) : Machine (Pool τ) (Label τ) := ⟨step, fun _ _ => false⟩

/-- A pool of `threads` workers that is not started. -/
def fresh (threads : Nat) : Pool τ := { threads }

end Pool

end Lockstep
