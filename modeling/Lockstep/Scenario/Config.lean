import Lockstep.Duration
import Lockstep.Report

/-!
# Configurations of a scenario

`Config.validate` is what is checked before a run. The numbers that a run computes from a
configuration are machine words, so `participants` and `expectedDeliveries` may fault.
-/

set_option autoImplicit false

namespace Lockstep

inductive ConfigError where
  | noServers
  | noMessages
  | receiveTimeoutZero
  | phaseTimeoutTooShort
  deriving Repr, DecidableEq

instance : Reportable ConfigError where
  message
    | .noServers => "At least one server is required"
    | .noMessages => "At least one message per participant is required"
    | .receiveTimeoutZero => "Receive timeout must be greater than zero"
    | .phaseTimeoutTooShort => "Phase timeout must be greater than the receive timeout"

namespace Scenario

structure Config where
  /-- Participants that only broadcast. -/
  clients : Nat := 25
  /-- Participants that broadcast, receive and verify. -/
  servers : Nat := 25
  /-- How many messages each participant broadcasts. -/
  messages : Nat := 25
  /-- How long a server waits for each delivery. -/
  receiveTimeout : Duration := ⟨1, 0, by decide, by decide⟩
  /-- How long a phase may take. -/
  phaseTimeout : Duration := ⟨30, 0, by decide, by decide⟩
  deriving Repr, DecidableEq

namespace Config

def validate (c : Config) : Except ConfigError Unit :=
  if c.servers = 0 then .error .noServers
  else if c.messages = 0 then .error .noMessages
  else if c.receiveTimeout.isZero then .error .receiveTimeoutZero
  else if c.phaseTimeout ≤ c.receiveTimeout then .error .phaseTimeoutTooShort
  else .ok ()

theorem validate_eq_ok_iff {c : Config} : c.validate = .ok () ↔
    c.servers ≠ 0 ∧ c.messages ≠ 0 ∧ c.receiveTimeout.toNanos ≠ 0 ∧
      c.receiveTimeout.toNanos < c.phaseTimeout.toNanos := by
  unfold validate
  split
  next hservers => simp [hservers]
  next hservers =>
    split
    next hmessages => simp [hmessages]
    next hmessages =>
      split
      next hzero => simp [Duration.isZero_iff.1 hzero]
      next hzero =>
        have hpos : c.receiveTimeout.toNanos ≠ 0 := fun h => hzero (Duration.isZero_iff.2 h)
        split
        next hle => simp [Nat.not_lt.2 hle]
        next hlt => simp [hservers, hmessages, hpos, Nat.lt_of_not_le hlt]

/-- The defaults pass. -/
example : ({} : Config).validate = .ok () := rfl

def participants (c : Config) : Except Fault Nat := Word.add c.clients c.servers

/-- How many deliveries each server expects. -/
def expectedDeliveries (c : Config) : Except Fault Nat := do
  Word.mul (← c.participants) c.messages

end Config

end Scenario

end Lockstep
