import Lockstep.Relay.Basic
import Lockstep.Scenario.Error
import Lockstep.Scenario.Message

/-!
# Verification of deliveries

A server receives as many messages as it expects, reads each as text, and refuses a text that came
before. Then it checks that every expected message is among them. `verify` does so with the messages
of a list, where a receive fails when the list is used up.
-/

set_option autoImplicit false

namespace Lockstep.Scenario

structure Verifier where
  /-- How many messages are still to be received. -/
  wanted : Nat
  /-- The texts received, the latest first. -/
  seen : List String := []
  deriving Repr, DecidableEq

namespace Verifier

def accept (v : Verifier) (m : Payload) : Except ParticipantError Verifier :=
  let text := Utf8.decodeLossy m
  if text ∈ v.seen then .error (.duplicate text)
  else .ok { wanted := v.wanted - 1, seen := text :: v.seen }

/-- Takes the expected texts out of those received; fails at the first that is not there. -/
def checkOff : List String → List String → Except ParticipantError Unit
  | [], _ => .ok ()
  | text :: expected, seen =>
    if text ∈ seen then checkOff expected (seen.erase text) else .error (.notFound text)

def conclude (c : Config) (v : Verifier) : Except ParticipantError Unit :=
  checkOff (c.expected.map Message.text) v.seen

/-- Receives the messages of a list and concludes. -/
def verify (c : Config) : Verifier → List Payload → Except ParticipantError Unit
  | ⟨0, seen⟩, _ => conclude c ⟨0, seen⟩
  | ⟨_ + 1, _⟩, [] => .error .receiveTimeout
  | ⟨n + 1, seen⟩, m :: queue => do
    let v ← accept ⟨n + 1, seen⟩ m
    verify c v queue

end Verifier

end Lockstep.Scenario
