import Lockstep.Report

/-!
# Errors of a relay
-/

set_option autoImplicit false

namespace Lockstep

inductive RelayError where
  /-- The relay was shut down. -/
  | relayClosed
  /-- The connection was closed. -/
  | connectionClosed
  /-- The handler of a service failed to initialise. -/
  | init (cause : Report)
  /-- The delivery of a service could not be started. -/
  | spawn (reason : String)
  deriving Repr, DecidableEq

instance : Reportable RelayError where
  message
    | .relayClosed => "Relay is closed"
    | .connectionClosed => "Connection is closed"
    | .init cause => "Handler initialization failed: " ++ cause.message
    | .spawn reason => "Failed to spawn delivery thread: " ++ reason
  causes
    | .init cause => cause.chain
    | .spawn reason => [reason]
    | _ => []

end Lockstep
