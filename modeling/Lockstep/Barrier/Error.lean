import Lockstep.Report
import Lockstep.Text.Order

/-!
# Errors of a barrier
-/

set_option autoImplicit false

namespace Lockstep

/-- A barrier for nobody. -/
inductive CreateError where
  | noParticipants
  deriving Repr, DecidableEq

inductive SyncError where
  /-- The participant has already arrived in this phase, which is not completed yet. -/
  | alreadyArrived (phase : Nat)
  /-- The participant arrived, but the phase was not completed in time. -/
  | timedOut (phase : Nat)
  deriving Repr, DecidableEq

/-- A wait that gave up in `phase`, where the participants `missing` had not arrived. -/
structure WaitTimeout where
  phase : Nat
  missing : List Nat
  deriving Repr, DecidableEq

/-- A completed phase in which errors were reported. -/
structure PhaseFailed (ε : Type) where
  phase : Nat
  errors : List ε
  deriving Repr, DecidableEq

/-- All errors of the phase in one line. -/
def PhaseFailed.summary {ε : Type} [Reportable ε] (failed : PhaseFailed ε) : String :=
  "; ".intercalate (failed.errors.map Reportable.message)

/-- The errors in the order of their messages, for threads that reported them in no order. -/
def PhaseFailed.sorted {ε : Type} [Reportable ε] (failed : PhaseFailed ε) : PhaseFailed ε :=
  let le (a b : ε) : Bool := textLe (Reportable.message a) (Reportable.message b)
  { failed with errors := failed.errors.mergeSort le }

/-! ## Messages -/

instance : Reportable CreateError where
  message | .noParticipants => "Barrier requires at least one participant"

instance : Reportable SyncError where
  message
    | .alreadyArrived phase => "Participant already arrived in phase " ++ toString phase
    | .timedOut phase => "Phase " ++ toString phase ++ " was not completed in time"

/-- Indices in brackets, separated by commas. -/
def indexList (is : List Nat) : String := "[" ++ ", ".intercalate (is.map toString) ++ "]"

instance : Reportable WaitTimeout where
  message e :=
    "Phase " ++ toString e.phase ++ " timed out waiting for participants " ++ indexList e.missing

instance {ε : Type} : Reportable (PhaseFailed ε) where
  message e :=
    "Phase " ++ toString e.phase ++ " failed with " ++ toString e.errors.length ++ " error(s)"

/-- Errors that are plain texts. -/
instance : Reportable String where
  message e := e

end Lockstep
