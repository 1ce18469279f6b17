import Lockstep.Pool.Basic
import Lockstep.Text.Order

/-!
# Tasks behind gates

A pool whose tasks wait for a gate to be opened, append to a common log and perhaps panic. A `Session`
lets the workers go on after every call as far as they can: a running task ends when its gate is open.
-/

set_option autoImplicit false

namespace Lockstep.Pool

structure GatedTask where
  gate : Option Nat := none
  entry : Option String := none
  panics : Bool := false
  deriving Repr, DecidableEq

structure Session where
  pool : Pool GatedTask
  /-- The gates that are open. -/
  opened : List Nat := []
  log : Queue String := {}
  /-- How many tasks ended. -/
  done : Nat := 0
  /-- How many tasks were refused, and so dropped unrun. -/
  refused : Nat := 0
  /-- The pool was dropped. -/
  dropped : Bool := false

namespace Session

def create (threads : Nat) : Session := { pool := .fresh threads }

def isOpen (s : Session) : Option Nat → Bool
  | some gate => gate ∈ s.opened
  | none => true

/-- The task of worker `w` ends, if it may. -/
def finish (s : Session) (w : Nat) : Option Session :=
  match s.pool.workers[w]? with
  | some (.running task) =>
    if s.isOpen task.gate then
      (s.pool.step (.finish w task.panics)).map fun pool =>
        { s with pool, log := s.log.pushAll task.entry.toList, done := s.done + 1 }
    else none
  | _ => none

/-- A step of the pool itself. -/
def lift (s : Session) (l : Label GatedTask) : Option Session :=
  (s.pool.step l).map fun pool => { s with pool }

/-- What worker `w` does next. -/
def work (s : Session) (w : Nat) : Option Session :=
  (s.finish w).or <| (s.lift (.check w)).or <| (s.lift (.take w)).or <| s.lift (.leave w)

/-- The next step of a worker, of a termination or of none. -/
def advance (s : Session) : Option Session :=
  ((List.range s.pool.workers.length).findSome? s.work).or (s.lift .return)

/-- Up to `n` steps. -/
def settleWithin (s : Session) : Nat → Session
  | 0 => s
  | n + 1 =>
    match s.advance with
    | some s => s.settleWithin n
    | none => s

/-- Each queued task is taken, checked and run, each worker ends its task and leaves, and the owner
returns. -/
def budget (s : Session) : Nat := 3 * (s.pool.pending + s.pool.workers.length) + 2

def settle (s : Session) : Session := s.settleWithin s.budget

/-- A step of the owner, after which the workers go on. -/
def call (s : Session) (l : Label GatedTask) : Session := ((s.lift l).getD s).settle

def release (s : Session) (gates : List Nat) : Session :=
  { s with opened := s.opened ++ gates }.settle

/-! ## Calls -/

def schedule (s : Session) (task : GatedTask) : Except PoolError Unit × Session :=
  match s.pool.schedule task with
  | .ok _ => (.ok (), s.call (.schedule task))
  | .error e => (.error e, { s with refused := s.refused + 1 })

def start (s : Session) : Except PoolError Unit × Session :=
  match s.pool.start with
  | .ok _ => (.ok (), s.call .start)
  | .error e => (.error e, s)

/-- Terminates the pool; the gates open while the owner waits for the workers. -/
def terminate (s : Session) (wait : Bool) (gates : List Nat) : Session :=
  ((s.lift (.terminate wait)).bind (·.lift .close)).getD s |>.release gates

/-- Drops the pool, likewise. -/
def drop (s : Session) (gates : List Nat) : Session :=
  let s := (s.lift .drop).getD s
  { (s.lift .close).getD s with dropped := true }.release gates

/-- The tasks dropped unrun so far. -/
def discarded (s : Session) : Nat := s.pool.discarded.toList.length + s.refused

/-- The log; where several workers write it, in the order of texts. -/
def entries (s : Session) : List String :=
  if s.pool.threads > 1 then sortTexts s.log.toList else s.log.toList

end Session

end Lockstep.Pool
