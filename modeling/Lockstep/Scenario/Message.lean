import Lockstep.Scenario.Config
import Lockstep.Text.Utf8

/-!
# Messages of a scenario

A message says who sends it and which of the sender's messages it is.
-/

set_option autoImplicit false

namespace Lockstep.Scenario

/-- A participant, by its place among the clients or among the servers. -/
inductive Party where
  | client (i : Nat)
  | server (j : Nat)
  deriving Repr, DecidableEq

structure Message where
  sender : Party
  index : Nat
  deriving Repr, DecidableEq

namespace Message

def text : Message → String
  | ⟨.client i, k⟩ => "client #" ++ toString i ++ ", broadcast " ++ toString k
  | ⟨.server j, k⟩ => "server #" ++ toString j ++ ", broadcast " ++ toString k

/-- The message as it is broadcast. -/
def bytes (m : Message) : List UInt8 := Utf8.encode m.text

end Message

/-- The messages of one participant. -/
def Config.messagesOf (c : Config) (sender : Party) : List Message :=
  (List.range c.messages).map (⟨sender, ·⟩)

/-- All messages, those of the clients before those of the servers. -/
def Config.expected (c : Config) : List Message :=
  (List.range c.clients).flatMap (fun i => c.messagesOf (.client i)) ++
    (List.range c.servers).flatMap (fun j => c.messagesOf (.server j))

end Lockstep.Scenario
