import Lockstep.Medium
import Lockstep.Queue

/-!
# A medium that multiplies deliveries

Each broadcast, whoever makes it, has its `Copy`: how often its message is handed to the service, or
how it fails. Beyond the list every broadcast is delivered once. The copies are handed over one at a
time, whenever the medium gets to it.
-/

set_option autoImplicit false

namespace Lockstep

open Medium

inductive Copy where
  | delivered (n : Nat)
  | failed (e : RelayError)
  /-- The caller ends in its broadcast. -/
  | died
  deriving Repr, DecidableEq

structure Copies where
  /-- The reply to a registration. -/
  registration : Reply
  /-- The fates of the broadcasts to come. -/
  copies : List Copy
  /-- The replies that callers have not taken. -/
  replies : List (Nat × Reply) := []
  /-- Copies not handed over yet. -/
  pending : Queue Payload := {}
  deriving Repr, DecidableEq

namespace Copies

def reply (s : Copies) (caller : Nat) (r : Reply) : Copies :=
  { s with replies := s.replies ++ [(caller, r)] }

/-- The fate of the next broadcast, and the medium without it. -/
def next (s : Copies) : Copy × Copies :=
  match s.copies with
  | [] => (.delivered 1, s)
  | c :: copies => (c, { s with copies })

def ask (s : Copies) (caller : Nat) : Request → Copies
  | .register => s.reply caller s.registration
  | .broadcast _ m =>
    match s.next with
    | (.delivered n, s) =>
      { s with pending := s.pending.pushAll (List.replicate n m) }.reply caller (.ok 0)
    | (.failed e, s) => s.reply caller (.failed e)
    | (.died, s) => s.reply caller .died
  | _ => s.reply caller (.ok 0)

def reply? (s : Copies) (caller : Nat) : Option (Reply × Copies) := do
  let r ← s.replies.lookup caller
  return (r, { s with replies := s.replies.filter (·.1 != caller) })

def step (s : Copies) (_ : Unit) : Option (Copies × Option Handover) :=
  s.pending.pop?.map fun (m, pending) => ({ s with pending }, some ⟨0, m⟩)

def medium : Medium Copies Unit where
  ask := ask
  reply? := reply?
  step := step
  moves s := if s.pending.isEmpty then [] else [()]

end Copies

end Lockstep
