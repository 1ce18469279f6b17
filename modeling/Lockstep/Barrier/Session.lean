import Lockstep.Barrier.Basic

/-!
# Calls on a barrier

A `Session` is a barrier together with the handles of its participants, and a `Call` is what the
participants and the orchestrator do with them. A blocking call is two events: its arrival, after
which the handle is `blocked`, and its return by `join` or, out of time, by `giveUp`. A wait is one
event, at its completion; `during` lists what the participants do while it is blocked. So a list of
calls is a history of the barrier, whichever way the threads behind it interleave. How long a time-out
is does not matter here, as long as a clock can show its end.
-/

set_option autoImplicit false

namespace Lockstep.Barrier

/-- The state of a handle that was given out. -/
inductive Handle where
  | free
  /-- In use by a call that has arrived in phase `reached` and has not returned. -/
  | blocked (timed : Bool) (reached : Nat)
  /-- Consumed by an exit, or dropped. -/
  | gone
  deriving Repr, DecidableEq

structure Session (ε : Type) where
  barrier : Barrier ε
  /-- The handles, in the order they were given out. -/
  handles : List Handle
  deriving Repr, DecidableEq

/-- What a participant does without blocking. -/
inductive Move (ε : Type) where
  | sync (p : Nat)
  | exit (p : Nat) (error : Option ε)
  /-- The handle is dropped, which is no arrival. -/
  | drop (p : Nat)
  deriving Repr, DecidableEq

/-- The ways to wait for a phase. -/
inductive WaitKind where
  /-- Blocks until the phase is complete. -/
  | plain
  /-- Gives up after a while. -/
  | timed
  /-- Blocks, and fails if there were errors. -/
  | checked
  deriving Repr, DecidableEq

inductive Call (ε : Type) where
  | issue
  | issueAll
  | move (m : Move ε)
  /-- Arrives and blocks until the phase is completed. -/
  | syncWait (p : Nat) (timed : Bool)
  /-- The blocked call of `p` returns, if its phase is completed. -/
  | join (p : Nat)
  /-- The time of the blocked call of `p` is over. -/
  | giveUp (p : Nat)
  | wait (kind : WaitKind) (during : List (Move ε))
  /-- The counters are read. -/
  | inspect
  deriving Repr, DecidableEq

inductive MoveAnswer where
  | done
  | refused (e : SyncError)
  /-- The handle was never given out, is gone, or is in use by a blocked call. -/
  | noHandle
  deriving Repr, DecidableEq

inductive WaitAnswer (ε : Type) where
  | completed (errors : List ε)
  /-- The checked wait of a phase without errors. -/
  | clean
  | failed (e : PhaseFailed ε)
  | timedOut (e : WaitTimeout)
  /-- The phase is not complete, and the wait has no time-out. -/
  | wouldBlock
  deriving Repr, DecidableEq

inductive Answer (ε : Type) where
  | issued (p : Option Nat)
  | issuedAll (ps : List Nat)
  | moved (a : MoveAnswer)
  | blocked
  | notBlocked
  | waited (during : List MoveAnswer) (outcome : WaitAnswer ε)
  | counters (phase arrived finished : Nat)
  deriving Repr, DecidableEq

namespace Session

variable {ε : Type}

def create (n : Nat) : Except Fault (Except CreateError (Session ε)) := do
  return (← Barrier.create n).map fun barrier => { barrier, handles := [] }

def isFree (s : Session ε) (p : Nat) : Bool := s.handles[p]? == some .free

/-- The participants whose handles can be used. -/
def freeHandles (s : Session ε) : List Nat :=
  (s.handles.zipIdx.filter fun (h, _) => h == .free).map (·.2)

/-- The session after something was done with the handle `p`. -/
def update (s : Session ε) (p : Nat) (h : Handle) (b : Barrier ε) : Session ε :=
  { barrier := b, handles := s.handles.set p h }

/-- What a participant's move answers, and the session after it. -/
def move (s : Session ε) (m : Move ε) : MoveAnswer × Session ε :=
  let refuse := (.noHandle, s)
  match m with
  | .sync p =>
    if s.isFree p then
      match s.barrier.sync p with
      | some (.ok b) => (.done, s.update p .free b)
      | some (.error e) => (.refused e, s)
      | none => refuse
    else refuse
  | .exit p error =>
    if s.isFree p then
      match s.barrier.exit p error with
      | some b => (.done, s.update p .gone b)
      | none => refuse
    else refuse
  | .drop p => if s.isFree p then (.done, s.update p .gone s.barrier) else refuse

/-- Several moves, one after the other. -/
def moves (s : Session ε) : List (Move ε) → List MoveAnswer × Session ε
  | [] => ([], s)
  | m :: ms =>
    let (a, s) := s.move m
    let (as, s) := s.moves ms
    (a :: as, s)

/-- The arrival of a blocking call. The end of a timed one is taken to be an instant that a clock can
show; otherwise the call would panic right after its arrival. -/
def syncWait (s : Session ε) (p : Nat) (timed : Bool) : Answer ε × Session ε :=
  let refuse := (.moved .noHandle, s)
  if s.isFree p then
    match s.barrier.sync p with
    | some (.ok b) => (.blocked, s.update p (.blocked timed b.phase) b)
    | some (.error e) => (.moved (.refused e), s)
    | none => refuse
  else refuse

def join (s : Session ε) (p : Nat) : Answer ε × Session ε :=
  match s.handles[p]? with
  | some (.blocked _ reached) =>
    if s.barrier.phase ≤ reached then (.blocked, s) else (.moved .done, s.update p .free s.barrier)
  | _ => (.notBlocked, s)

def giveUp (s : Session ε) (p : Nat) : Answer ε × Session ε :=
  match s.handles[p]? with
  | some (.blocked true reached) =>
    if s.barrier.phase ≤ reached then
      (.moved (.refused (.timedOut reached)), s.update p .free s.barrier)
    else (.moved .done, s.update p .free s.barrier)
  | some (.blocked false _) => (.blocked, s)
  | _ => (.notBlocked, s)

/-- A blocking call with a time-out that nobody completes the phase for: it arrives and gives up. -/
def syncWaitTimeout (s : Session ε) (p : Nat) : Answer ε × Session ε :=
  match s.syncWait p true with
  | (.blocked, s) => s.giveUp p
  | refused => refused

/-- A wait that looks at the phase, is blocked during the moves, and then goes by what it finds. The end of
a timed one is taken to be an instant that a clock can show; otherwise the call would panic before it
looks at the barrier. -/
def wait (s : Session ε) (kind : WaitKind) (during : List (Move ε)) : Answer ε × Session ε :=
  let phase := s.barrier.phase
  let (answers, s) := s.moves during
  if s.barrier.isComplete then
    let (errors, b) := s.barrier.advance
    let outcome :=
      match kind with
      | .plain | .timed => .completed errors
      | .checked => if errors.isEmpty then .clean else .failed ⟨phase, errors⟩
    (.waited answers outcome, { s with barrier := b })
  else
    match kind with
    | .timed => (.waited answers (.timedOut s.barrier.timeout), s)
    | _ => (.waited answers .wouldBlock, s)

def step (s : Session ε) : Call ε → Answer ε × Session ε
  | .issue =>
    match s.barrier.issue with
    | some (p, b) => (.issued (some p), { barrier := b, handles := s.handles ++ [.free] })
    | none => (.issued none, s)
  | .issueAll =>
    let (ps, b) := s.barrier.issueAll
    (.issuedAll ps, { barrier := b, handles := s.handles ++ ps.map fun _ => .free })
  | .move m =>
    let (a, s) := s.move m
    (.moved a, s)
  | .syncWait p timed => s.syncWait p timed
  | .join p => s.join p
  | .giveUp p => s.giveUp p
  | .wait kind during => s.wait kind during
  | .inspect => (.counters s.barrier.phase s.barrier.arrived s.barrier.finished, s)

/-- The answers to a history of calls, and the session after it. -/
def run (s : Session ε) : List (Call ε) → List (Answer ε) × Session ε
  | [] => ([], s)
  | c :: cs =>
    let (a, s) := s.step c
    let (as, s) := s.run cs
    (a :: as, s)

/-- A history can be cut in two: the second part goes on where the first ends. -/
theorem run_append (s : Session ε) (cs ds : List (Call ε)) :
    s.run (cs ++ ds) =
      ((s.run cs).1 ++ ((s.run cs).2.run ds).1, ((s.run cs).2.run ds).2) := by
  induction cs generalizing s with
  | nil => rfl
  | cons c cs ih => simp [run, ih]

theorem length_answers_run (s : Session ε) (cs : List (Call ε)) :
    (s.run cs).1.length = cs.length := by
  induction cs generalizing s with
  | nil => rfl
  | cons c cs ih => simp [run, ih]

/-- Up to `n` waits in a row, until a phase is not complete: `errors` and then all of theirs. -/
def waitsAfter (errors : List ε) (s : Session ε) : Nat → List ε × Session ε
  | 0 => (errors, s)
  | n + 1 =>
    match s.wait .plain [] with
    | (.waited _ (.completed more), s) => waitsAfter (errors ++ more) s n
    | _ => (errors, s)

/-- Up to `n` waits in a row: all their errors. -/
def waits (s : Session ε) (n : Nat) : List ε × Session ε := waitsAfter [] s n

end Session

end Lockstep.Barrier
