import Lockstep.Relay.Basic

/-!
# What can be asked of a relay

A `Medium` is a relay as its callers see it. A caller asks for something and goes on when the reply is
there; in between, and at any other time, the medium takes steps of its own, some of which hand a
message to a handler. Callers are numbered; each registers at most one handler, and knows its
connection or service by the number that came with the reply.
-/

set_option autoImplicit false

namespace Lockstep

namespace Medium

inductive Request where
  | connect
  | register
  | broadcast (conn : Nat) (m : Payload)
  | close (conn : Nat)
  /-- Unregisters the service. -/
  | unregister (conn : Nat)
  /-- Drops the service, which stops it likewise. -/
  | drop (conn : Nat)
  deriving Repr, DecidableEq

inductive Reply where
  /-- Done; the number of the connection, if one was made. -/
  | ok (conn : Nat)
  | failed (e : RelayError)
  /-- The caller ends here. -/
  | died
  deriving Repr, DecidableEq

/-- A message is handed to the handler that the caller has registered. -/
structure Handover where
  caller : Nat
  m : Payload
  deriving Repr, DecidableEq

end Medium

open Medium in
structure Medium (S I : Type) where
  ask : S → Nat → Request → S
  /-- The reply to the caller, once it is there. -/
  reply? : S → Nat → Option (Reply × S)
  /-- A step of the medium's own. -/
  step : S → I → Option (S × Option Handover)
  /-- The steps that may be possible. -/
  moves : S → List I

end Lockstep
