import Lockstep.Pool.Session
import Lockstep.Proofs.Barrier.Phases
import Lockstep.Proofs.Barrier.Sleepers
import Lockstep.Proofs.Measurement.Outcomes
import Lockstep.Proofs.Measurement.Relayed
import Lockstep.Proofs.Relay.Membership
import Lockstep.Proofs.Relay.Shutdown
import Lockstep.Proofs.Scenario.Consecutive
import Lockstep.Proofs.Scenario.Deadlock
import Lockstep.Relay.Watch
import Lockstep.Proofs.Scenario.Verdicts
import Lockstep.Proofs.Measurement.Balance
import Lockstep.Proofs.Scenario.Waits
import Lockstep.Proofs.Barrier.Traces
import Lockstep.Proofs.Measurement.Division
import Lockstep.Proofs.Pool.Lifecycle
import Lockstep.Proofs.Relay.Registrations
import Lockstep.Proofs.Relay.Accounts
import Lockstep.Proofs.Relay.Connections
import Lockstep.Proofs.Barrier.WellFormed
import Lockstep.Proofs.Scenario.Reading
import Lockstep.Proofs.Receipts
import Lockstep.Proofs.Scenario.Limits
