import Lockstep.Barrier.Error
import Lockstep.Relay.Error
import Lockstep.Scenario.Config

/-!
# Errors of a scenario
-/

set_option autoImplicit false

namespace Lockstep

/-- Why a participant failed. -/
inductive ParticipantError where
  | connect (e : RelayError)
  | register (e : RelayError)
  | clientBroadcast (e : RelayError)
  | serverBroadcast (e : RelayError)
  | receiveTimeout
  | notFound (message : String)
  | duplicate (message : String)
  | sync (e : SyncError)
  deriving Repr, DecidableEq

instance : Reportable ParticipantError where
  message
    | .connect e => "connection failed: " ++ Reportable.message e
    | .register e => "registration failed: " ++ Reportable.message e
    | .clientBroadcast e => "client broadcast failed: " ++ Reportable.message e
    | .serverBroadcast e => "server broadcast failed: " ++ Reportable.message e
    | .receiveTimeout => "broadcast receive timeout"
    | .notFound message => "broadcast not found: " ++ message
    | .duplicate message => "duplicate broadcast: " ++ message
    | .sync e => "barrier misuse: " ++ Reportable.message e
  causes
    | .connect e | .register e | .clientBroadcast e | .serverBroadcast e => chain e
    | .sync e => chain e
    | _ => []

namespace Scenario

inductive Phase where
  | startup
  | broadcasting
  | verification
  deriving Repr, DecidableEq

def Phase.name : Phase → String
  | .startup => "startup"
  | .broadcasting => "broadcasting"
  | .verification => "verification"

/-- The place of the phase among the phases. -/
def Phase.index : Phase → Nat
  | .startup => 0
  | .broadcasting => 1
  | .verification => 2

/-- The phases in their order. -/
def Phase.all : List Phase := [.startup, .broadcasting, .verification]

end Scenario

/-- Why a scenario did not succeed. -/
inductive ScenarioError where
  | config (e : ConfigError)
  | barrier (e : CreateError)
  | phaseFailed (phase : Scenario.Phase) (failed : PhaseFailed ParticipantError)
  /-- Some participants did not arrive in time. -/
  | stuck (phase : Scenario.Phase) (timeout : WaitTimeout)
  deriving Repr, DecidableEq

instance : Reportable ScenarioError where
  message
    | .config e => "Configuration error: " ++ Reportable.message e
    | .barrier e => "Barrier error: " ++ Reportable.message e
    | .phaseFailed phase failed => phase.name ++ " phase failed: " ++ failed.summary
    | .stuck phase timeout => phase.name ++ " phase is stuck: " ++ Reportable.message timeout
  causes
    | .config e => chain e
    | .barrier e => chain e
    | .phaseFailed _ failed => chain failed
    | .stuck _ timeout => chain timeout

end Lockstep
