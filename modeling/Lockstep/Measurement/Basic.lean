import Lockstep.Duration
import Lockstep.Pool.Basic
import Lockstep.Relay.Error
import Lockstep.Text.Whole

/-!
# Measurements

How many messages were broadcast in how much time, what that is for each message, and how many a
second.
-/

set_option autoImplicit false

namespace Lockstep

inductive MeasureError where
  | relay (e : RelayError)
  | pool (e : PoolError)
  /-- A delivery did not come in time; `received` came before it. -/
  | receiveTimeout (received : Nat)
  deriving Repr, DecidableEq

instance : Reportable MeasureError where
  message
    | .relay e => "Relay error: " ++ Reportable.message e
    | .pool e => "Pool error: " ++ Reportable.message e
    | .receiveTimeout received =>
      "Broadcast receive timeout after " ++ toString received ++ " messages"
  causes
    | .relay e => chain e
    | .pool e => chain e
    | .receiveTimeout _ => []

structure Measurement where
  messages : Nat
  elapsed : Duration
  deriving Repr, DecidableEq

namespace Measurement

/-- The time for each message, in whole nanoseconds. It is zero for no messages, and for more than
a 32-bit word can count. -/
def perMessage (m : Measurement) : Duration := (m.elapsed.div? m.messages).getD .zero

/-- Messages in a second, zero if there were none or no time passed. -/
def rate (m : Measurement) : Float :=
  if m.messages = 0 ∨ m.elapsed.isZero then 0.0
  else
    let secs := m.elapsed.secs.toUInt64.toFloat + m.elapsed.nanos.toUInt64.toFloat / 1e9
    m.messages.toUInt64.toFloat / secs

/-- One line with all figures, the rate rounded to a whole number. -/
def text (m : Measurement) : String :=
  toString m.messages ++ " messages in " ++ m.elapsed.text ++ " (" ++ m.perMessage.text ++
    "/msg, " ++ toString (wholeOfFloat m.rate) ++ " msg/s)"

/-- The messages took no longer than the whole. -/
def isConsistent (m : Measurement) : Bool := m.perMessage ≤ m.elapsed

end Measurement

end Lockstep
