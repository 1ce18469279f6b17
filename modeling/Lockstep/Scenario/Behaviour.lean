import Lockstep.Medium

/-!
# Media given by their behaviour

A `Behaviour` says for each caller how its requests come out and which messages are handed to its
handler. They are handed over one at a time between its registration and the end of its first
broadcast.
-/

set_option autoImplicit false

namespace Lockstep.Scenario

open Medium

inductive Outcome where
  | succeeds
  | fails (e : RelayError)
  | dies
  deriving Repr, DecidableEq

structure Behaviour where
  connect : Nat → Outcome
  register : Nat → Outcome
  broadcast : Nat → Payload → Outcome
  unregister : Nat → Outcome
  /-- What the handler of the caller is handed. -/
  handed : Nat → List Payload

/-- What a caller waits for. -/
structure Pending where
  caller : Nat
  outcome : Outcome
  /-- The reply comes when everything has been handed over. -/
  afterHanded : Bool
  deriving Repr, DecidableEq

structure Scripted where
  behaviour : Behaviour
  pending : List Pending := []
  /-- The registered callers, with the messages still to be handed to each. -/
  left : List (Nat × List Payload) := []

namespace Scripted

/-- How the request of a caller comes out. -/
def outcome (b : Behaviour) (caller : Nat) : Request → Outcome
  | .connect => b.connect caller
  | .register => b.register caller
  | .broadcast _ m => b.broadcast caller m
  | .unregister _ => b.unregister caller
  | .close _ | .drop _ => .succeeds

def ask (s : Scripted) (caller : Nat) (request : Request) : Scripted :=
  let outcome := outcome s.behaviour caller request
  match request with
  | .register =>
    let left := if outcome = .succeeds then [(caller, s.behaviour.handed caller)] else []
    { s with left := s.left ++ left, pending := s.pending ++ [⟨caller, outcome, false⟩] }
  | .broadcast _ _ => { s with pending := s.pending ++ [⟨caller, outcome, true⟩] }
  | _ => { s with pending := s.pending ++ [⟨caller, outcome, false⟩] }

def reply (caller : Nat) : Outcome → Reply
  | .succeeds => .ok caller
  | .fails e => .failed e
  | .dies => .died

/-- Nothing is left to be handed to the caller's handler. -/
def isHanded (s : Scripted) (caller : Nat) : Bool :=
  ((s.left.lookup caller).getD []).isEmpty

def reply? (s : Scripted) (caller : Nat) : Option (Reply × Scripted) := do
  let p ← s.pending.find? (·.caller == caller)
  guard (!p.afterHanded || s.isHanded caller)
  return (reply caller p.outcome,
    { s with pending := s.pending.filter (·.caller != caller) })

/-- Hands the next message to the handler of the caller. -/
def step (s : Scripted) (caller : Nat) : Option (Scripted × Option Handover) :=
  match s.left.lookup caller with
  | some (m :: rest) =>
    some ({ s with left := s.left.map fun (k, ms) => if k == caller then (k, rest) else (k, ms) },
      some ⟨caller, m⟩)
  | _ => none

end Scripted

/-- The number of a connection is that of its caller. -/
def scripted : Medium Scripted Nat where
  ask := Scripted.ask
  reply? := Scripted.reply?
  step := Scripted.step
  moves s := s.left.filterMap fun (k, ms) => if ms.isEmpty then none else some k

end Lockstep.Scenario
