/-!
# Faults

What a machine with words of 64 bits cannot compute. A caller that runs into a fault ends there,
without a result of its own.
-/

set_option autoImplicit false

namespace Lockstep

inductive Fault where
  /-- A sum is no word. -/
  | sum
  /-- A product is no word. -/
  | product
  /-- No block of memory is large enough. -/
  | capacity
  /-- The end of a wait cannot be shown by a clock. -/
  | deadline
  deriving Repr, DecidableEq

def Fault.message : Fault → String
  | .sum => "attempt to add with overflow"
  | .product => "attempt to multiply with overflow"
  | .capacity => "capacity overflow"
  | .deadline => "overflow when adding duration to instant"

end Lockstep
