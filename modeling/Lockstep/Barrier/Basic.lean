import Lockstep.Barrier.Error
import Lockstep.Word

/-!
# The phase barrier

A `Barrier` counts the arrivals of a fixed number of participants in the current phase. A participant
arrives by `sync`, or for good by `exit`, which may report an error. `advance` completes the phase: it
hands out the errors of the phase and starts the next one, in which those who have left count as
arrived. An error belongs to the phase its participant was working towards, so that of a participant
that has already arrived is kept in `nextErrors` for the next phase.

Every operation here is one critical section of the barrier's lock.
-/

set_option autoImplicit false

namespace Lockstep

inductive Slot where
  /-- Taking part; `reached` is the last phase in which the participant arrived by `sync`. -/
  | active (reached : Option Nat)
  /-- Left, and arrived in every phase from then on. -/
  | done
  deriving Repr, DecidableEq

def Slot.hasArrived (phase : Nat) : Slot → Bool
  | .active reached => reached == some phase
  | .done => true

structure Barrier (ε : Type) where
  total : Nat
  phase : Nat
  /-- How many have arrived in the current phase. -/
  arrived : Nat
  /-- How many have left. -/
  finished : Nat
  /-- How many handles were given out. -/
  issued : Nat
  slots : List Slot
  /-- Errors of the current phase, in the order they were reported. -/
  errors : List ε
  /-- Errors that belong to the next phase. -/
  nextErrors : List ε
  deriving Repr, DecidableEq

namespace Barrier

variable {ε : Type}

/-- The barrier for `n` participants, none of which has arrived. -/
def fresh (n : Nat) : Barrier ε where
  total := n
  phase := 0
  arrived := 0
  finished := 0
  issued := 0
  slots := List.replicate n (.active none)
  errors := []
  nextErrors := []

/-- The bytes of a slot: two words. -/
def slotSize : Nat := 16

/-- The barrier for `n` participants. There is none for nobody, and the slots have to fit a block. -/
def create (n : Nat) : Except Fault (Except CreateError (Barrier ε)) :=
  if n = 0 then .ok (.error .noParticipants)
  else if Word.fitsBlock n slotSize then .ok (.ok (fresh n))
  else .error .capacity

/-- Everyone has arrived. -/
def isComplete (b : Barrier ε) : Bool := b.total ≤ b.arrived

theorem isComplete_iff {b : Barrier ε} : b.isComplete = true ↔ b.total ≤ b.arrived := by
  simp [isComplete]

/-- The participants that have not arrived in the current phase, in ascending order. -/
def missing (b : Barrier ε) : List Nat :=
  (b.slots.zipIdx.filter fun (slot, _) => !slot.hasArrived b.phase).map (·.2)

/-! ## Handles -/

/-- The next handle, until all have been given out. -/
def issue (b : Barrier ε) : Option (Nat × Barrier ε) :=
  if b.issued < b.total then some (b.issued, { b with issued := b.issued + 1 }) else none

/-- All handles that are left. -/
def issueAll (b : Barrier ε) : List Nat × Barrier ε :=
  (List.range' b.issued (b.total - b.issued), { b with issued := max b.issued b.total })

/-! ## Participants -/

/-- The participant `p` arrives in the current phase, unless it has already. `none` for a participant
that has left or does not exist. -/
def sync (b : Barrier ε) (p : Nat) : Option (Except SyncError (Barrier ε)) :=
  match b.slots[p]? with
  | some (.active reached) =>
    if reached = some b.phase then some (.error (.alreadyArrived b.phase))
    else
      some (.ok { b with
        slots := b.slots.set p (.active (some b.phase))
        arrived := b.arrived + 1 })
  | _ => none

/-- The participant `p` leaves, perhaps with an error. `none` for a participant that has left or does
not exist. -/
def exit (b : Barrier ε) (p : Nat) (error : Option ε) : Option (Barrier ε) :=
  match b.slots[p]? with
  | some (.active reached) =>
    let left := { b with slots := b.slots.set p .done, finished := b.finished + 1 }
    if reached = some b.phase then
      some { left with nextErrors := b.nextErrors ++ error.toList }
    else
      some { left with arrived := b.arrived + 1, errors := b.errors ++ error.toList }
  | _ => none

/-- Leaves with the outcome of the participant's work. -/
def finish (b : Barrier ε) (p : Nat) (result : Except ε Unit) : Option (Barrier ε) :=
  b.exit p (match result with | .ok () => none | .error e => some e)

/-! ## The orchestrator -/

/-- Completes the phase: its errors, and the barrier in the next phase. -/
def advance (b : Barrier ε) : List ε × Barrier ε :=
  (b.errors, { b with
    phase := b.phase + 1
    arrived := b.finished
    errors := b.nextErrors
    nextErrors := [] })

/-- The report of a wait that gives up now. -/
def timeout (b : Barrier ε) : WaitTimeout := ⟨b.phase, b.missing⟩

/-! ## Texts -/

/-- The counters in one line; the errors are those of the current phase. -/
def text (b : Barrier ε) : String :=
  "PhaseBarrier \x7b total: " ++ toString b.total ++ ", phase: " ++ toString b.phase ++
    ", arrived: " ++ toString b.arrived ++ ", finished: " ++ toString b.finished ++
    ", errors: " ++ toString b.errors.length ++ " \x7d"

/-- The text of the handle of participant `p`. -/
def handleText (p : Nat) : String := "Participant \x7b index: " ++ toString p ++ " \x7d"

end Barrier

end Lockstep
