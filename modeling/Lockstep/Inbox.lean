import Lockstep.Queue
import Lockstep.Word

/-!
# Bounded queues of deliveries

An `Inbox` holds the messages that were handed to a service and that nobody has received yet. It has
room for a fixed number of them; a message offered to a full inbox is dropped.

The places of an inbox are laid out side by side in one block of memory, and are counted round by
round in words. So there is no inbox for very many messages.
-/

set_option autoImplicit false

namespace Lockstep

structure Inbox (α : Type) where
  /-- The number of free places. -/
  room : Nat := 0
  items : Queue α := {}
  deriving Repr, DecidableEq

namespace Inbox

variable {α : Type}

/-- The bytes of one place: a stamp of a word, and the three words that say where a message is. -/
def placeSize : Nat := 32

/-- The empty inbox with room for `capacity` messages. The places have to fit a block. Rounds are
counted in twice the least power of two above the capacity; where that is no word, its computation
faults before, and the power of two itself before the doubling. -/
def ofCapacity (capacity : Nat) : Except Fault (Inbox α) :=
  if Word.fitsBlock capacity placeSize then .ok { room := capacity }
  else if 4 * capacity < Word.bound then .error .capacity
  else if 2 * capacity < Word.bound then .error .product
  else .error .sum

def offer (q : Inbox α) (a : α) : Inbox α :=
  match q.room with
  | 0 => q
  | room + 1 => { room, items := q.items.push a }

/-- The oldest message, and the inbox without it. -/
def receive? (q : Inbox α) : Option (α × Inbox α) :=
  q.items.pop?.map fun (a, items) => (a, { room := q.room + 1, items })

/-! ## What is in the inbox -/

theorem ofCapacity_eq_ok_iff {n : Nat} {q : Inbox α} :
    ofCapacity n = .ok q ↔ Word.fitsBlock n placeSize = true ∧ q = { room := n } := by
  unfold ofCapacity
  by_cases h : Word.fitsBlock n placeSize = true
  · rw [if_pos h]
    exact ⟨fun e => ⟨h, (Except.ok.inj e).symm⟩, fun e => congrArg _ e.2.symm⟩
  · rw [if_neg h]
    refine ⟨fun e => ?_, fun e => absurd e.1 h⟩
    split at e
    · cases e
    · split at e <;> cases e

theorem toList_offer (q : Inbox α) (a : α) :
    (q.offer a).items.toList = if q.room = 0 then q.items.toList else q.items.toList ++ [a] := by
  obtain ⟨room, items⟩ := q
  cases room <;> simp [offer]

/-- Free and taken places together stay the same when a message is offered. -/
theorem room_add_length_offer (q : Inbox α) (a : α) :
    (q.offer a).room + (q.offer a).items.toList.length = q.room + q.items.toList.length := by
  obtain ⟨room, items⟩ := q
  cases room with
  | zero => rfl
  | succ room => simp [offer]; omega

theorem receive?_eq_none_iff {q : Inbox α} : q.receive? = none ↔ q.items.toList = [] := by
  simp [receive?, Queue.pop?_eq_none_iff]

theorem toList_eq_of_receive? {q r : Inbox α} {a : α} (h : q.receive? = some (a, r)) :
    q.items.toList = a :: r.items.toList := by
  obtain ⟨⟨b, items⟩, hp, he⟩ := Option.map_eq_some_iff.1 h
  obtain ⟨rfl, rfl⟩ := Prod.mk.inj he
  exact Queue.toList_eq_of_pop? hp

/-- Free and taken places together stay the same when a message is received. -/
theorem room_add_length_receive? {q r : Inbox α} {a : α} (h : q.receive? = some (a, r)) :
    r.room + r.items.toList.length = q.room + q.items.toList.length := by
  obtain ⟨⟨b, items⟩, hp, he⟩ := Option.map_eq_some_iff.1 h
  obtain ⟨rfl, rfl⟩ := Prod.mk.inj he
  rw [Queue.toList_eq_of_pop? hp]
  simp
  omega

end Inbox

end Lockstep
