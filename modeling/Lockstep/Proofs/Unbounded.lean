import Mathlib.Data.List.ReduceOption
import Lockstep.Proofs.Inbox

/-!
# A bounded queue and an unbounded one

A queue is used by some who offer messages and by one reader; `Use` is what any of them does, so a list
of uses is an interleaving of all. A `Channel` is a queue as they see it, with places for so many
messages or without a bound.

Where the reader tries to receive no more messages than there are places, it cannot tell the one queue
from the other (`lossless`): a message that is dropped comes after all that the reader will ask
for. `Alike` relates the two queues; each use keeps it (`Alike.offer`, `Alike.receive`), and so do all
of them (`Alike.uses`).
-/

set_option autoImplicit false

namespace Lockstep

/-- What somebody does with a queue. -/
inductive Use (α : Type) where
  | offer (a : α)
  /-- The reader tries to receive a message. -/
  | receive
  deriving Repr, DecidableEq

namespace Use

variable {α : Type}

def offered? : Use α → Option α
  | .offer a => some a
  | .receive => none

def offered (us : List (Use α)) : List α := us.filterMap offered?

/-- How often the reader tries to receive a message. -/
def attempts (us : List (Use α)) : Nat := us.countP (·.offered?.isNone)

theorem attempts_append (us vs : List (Use α)) : attempts (us ++ vs) = attempts us + attempts vs :=
  List.countP_append

theorem attempts_offer (a : α) (us : List (Use α)) : attempts (.offer a :: us) = attempts us :=
  List.countP_cons_of_neg (by simp [offered?])

theorem attempts_receive (us : List (Use α)) : attempts (.receive :: us) = attempts us + 1 :=
  List.countP_cons_of_pos rfl

end Use

structure Channel (Q α : Type) where
  offer : Q → α → Q
  /-- The oldest message, and the queue without it. -/
  receive? : Q → Option (α × Q)

namespace Channel

variable {Q α : Type} (C : Channel Q α)

def bounded : Channel (Inbox α) α := ⟨Inbox.offer, Inbox.receive?⟩

def unbounded : Channel (Queue α) α := ⟨Queue.push, Queue.pop?⟩

def next (q : Q) : Use α → Q
  | .offer a => C.offer q a
  | .receive => ((C.receive? q).map (·.2)).getD q

def after (q : Q) (us : List (Use α)) : Q := us.foldl C.next q

/-- What each attempt of the reader yields. -/
def answers : Q → List (Use α) → List (Option α)
  | _, [] => []
  | q, .offer a :: us => answers (C.offer q a) us
  | q, .receive :: us => (C.receive? q).map (·.1) :: answers (C.next q .receive) us

/-- What the reader receives. -/
def received (q : Q) (us : List (Use α)) : List α := (C.answers q us).reduceOption

variable {C}

theorem after_append (q : Q) (us vs : List (Use α)) :
    C.after q (us ++ vs) = C.after (C.after q us) vs := List.foldl_append

theorem received_receive (q : Q) (us : List (Use α)) : C.received q (.receive :: us) =
    ((C.receive? q).map (·.1)).toList ++ C.received (C.next q .receive) us := by
  rw [received, answers]
  cases (C.receive? q).map (·.1) with
  | none => exact List.reduceOption_cons_of_none _
  | some a => exact List.reduceOption_cons_of_some a _

end Channel

open Channel

variable {α : Type} {n tries : Nat} {offered got : List α} {us : List (Use α)} {q : Inbox α}
  {u : Queue α} {a : α}

/-! ## The queue without a bound -/

theorem pop?_eq_head? (u : Queue α) : u.pop?.map (·.1) = u.toList.head? := by
  cases hpop : u.pop? with
  | none =>
    rw [Queue.pop?_eq_none_iff.1 hpop]
    rfl
  | some r =>
    rw [Queue.toList_eq_of_pop? hpop]
    rfl

theorem toList_next_receive (u : Queue α) :
    (unbounded.next u .receive).toList = u.toList.tail := by
  unfold next unbounded
  cases hpop : u.pop? with
  | none => simp [hpop, Queue.pop?_eq_none_iff.1 hpop]
  | some r => simp [hpop, Queue.toList_eq_of_pop? hpop]

theorem toList_after_offers (u : Queue α) (given : List α) :
    (unbounded.after u (given.map .offer)).toList = u.toList ++ given := by
  induction given generalizing u with
  | nil => exact (List.append_nil _).symm
  | cons a given ih =>
    have htail := ih (u.push a)
    rw [Queue.toList_push, List.append_assoc] at htail
    exact htail

theorem toList_after_receives (u : Queue α) (k : Nat) :
    (unbounded.after u (.replicate k .receive)).toList = u.toList.drop k := by
  induction k generalizing u with
  | zero => rfl
  | succ k ih =>
    have htail := ih (unbounded.next u .receive)
    rw [toList_next_receive, List.drop_tail] at htail
    exact htail

/-- What a reader receives next of a queue without a bound that was handed these messages, of which it
has received `k`. -/
theorem next_of_unbounded (given : List α) (k : Nat) :
    (unbounded.receive? (unbounded.after {} (given.map .offer ++ .replicate k .receive))).map (·.1) =
      given[k]? := by
  have hleft : (unbounded.after {} (given.map .offer ++ .replicate k .receive)).toList =
      given.drop k := by
    rw [after_append, toList_after_receives, toList_after_offers, Queue.toList_empty,
      List.nil_append]
  refine (pop?_eq_head? _).trans ?_
  rw [hleft, List.head?_drop]

/-! ## Both queues -/

/-- Two queues that were offered the same, and of which their reader got the same. -/
structure Alike (n : Nat) (offered got : List α) (tries : Nat) (q : Inbox α) (u : Queue α) :
    Prop where
  holds : q.Holds n offered got.length
  rest : u.toList = offered.drop got.length
  inOrder : got = offered.take got.length
  length_le : got.length ≤ tries

theorem Alike.empty (n : Nat) : Alike n ([] : List α) [] 0 { room := n } {} where
  holds := Inbox.holds_empty n
  rest := rfl
  inOrder := rfl
  length_le := Nat.le_refl 0

namespace Alike

variable (hq : Alike n offered got tries q u)
include hq

theorem offer (a : α) : Alike n (offered ++ [a]) got tries (q.offer a) (u.push a) where
  holds := hq.holds.offer a
  rest := by
    rw [Queue.toList_push, hq.rest, List.drop_append_of_le_length hq.holds.received]
  inOrder := by
    rw [List.take_append_of_le_length hq.holds.received]
    exact hq.inOrder
  length_le := hq.length_le

/-- The reader gets the same from both queues. -/
theorem receive (hlt : tries < n) :
    q.receive?.map (·.1) = u.pop?.map (·.1) ∧
      Alike n offered (got ++ (q.receive?.map (·.1)).toList) (tries + 1)
        (bounded.next q .receive) (unbounded.next u .receive) := by
  have hgot : got.length < n := Nat.lt_of_le_of_lt hq.length_le hlt
  have hrest : (unbounded.next u .receive).toList = offered.drop (got.length + 1) := by
    rw [toList_next_receive, hq.rest, List.tail_drop]
  refine ⟨?_, ?_⟩
  · rw [hq.holds.receive?_eq hgot, pop?_eq_head?, hq.rest, List.head?_drop]
  cases hr : q.receive? with
  | none =>
    have hall := hq.holds.length_eq_of_empty hgot (Inbox.receive?_eq_none_iff.1 hr)
    have hnext : bounded.next q .receive = q := by simp [next, bounded, hr]
    rw [hnext, Option.map_none, Option.toList_none, List.append_nil]
    refine ⟨hq.holds, ?_, hq.inOrder, Nat.le_succ_of_le hq.length_le⟩
    rw [hrest, ← hall, List.drop_length, List.drop_eq_nil_of_le (Nat.le_succ _)]
  | some r =>
    obtain ⟨a, q'⟩ := r
    have hget := hq.holds.getElem?_of_receive hgot hr
    have hnext : bounded.next q .receive = q' := by simp [next, bounded, hr]
    have hlength : (got ++ [a]).length = got.length + 1 := List.length_append
    rw [hnext, Option.map_some, Option.toList_some]
    refine ⟨hlength ▸ hq.holds.receive hgot hr, hlength ▸ hrest, ?_, ?_⟩
    · rw [hlength, List.take_add_one, hget, ← hq.inOrder]
      rfl
    · rw [hlength]
      exact Nat.succ_le_succ hq.length_le

/-- All uses together yield the same, as long as the reader does not ask too often. -/
theorem uses (hle : tries + Use.attempts us ≤ n) :
    bounded.answers q us = unbounded.answers u us ∧
      Alike n (offered ++ Use.offered us) (got ++ bounded.received q us) (tries + Use.attempts us)
        (bounded.after q us) (unbounded.after u us) := by
  induction us generalizing offered got tries q u with
  | nil =>
    refine ⟨rfl, ?_⟩
    simpa [Use.offered, received, answers, Use.attempts, after] using hq
  | cons next us ih =>
    cases next with
    | offer a =>
      rw [Use.attempts_offer] at hle ⊢
      have htail := ih (hq.offer a) hle
      rw [List.append_assoc] at htail
      exact htail
    | receive =>
      rw [Use.attempts_receive] at hle ⊢
      obtain ⟨hsame, hnext⟩ := hq.receive (by omega)
      obtain ⟨hanswers, htail⟩ := ih hnext (by omega)
      refine ⟨congrArg₂ List.cons hsame hanswers, ?_⟩
      rw [List.append_assoc, Nat.add_right_comm] at htail
      rw [received_receive]
      exact htail

end Alike

/-! ## What a reader is promised -/

/-- Nothing is lost of what the reader asks for. -/
structure Lossless (n : Nat) (us : List (Use α)) : Prop where
  /-- Each of the first `n` messages gets a place. -/
  enqueued : ∀ before a later, us = before ++ .offer a :: later →
    (Use.offered before).length < n →
    (bounded.after { room := n } (before ++ [.offer a])).items.toList =
      (bounded.after { room := n } before).items.toList ++ [a]
  inOrder : ∀ k < (bounded.received { room := n } us).length,
    (bounded.received { room := n } us)[k]? = (Use.offered us)[k]?
  /-- The queue is found empty only if too little was offered. -/
  found : ∀ before later, us = before ++ .receive :: later →
    (bounded.after { room := n } before).receive? = none →
    (Use.offered before).length < Use.attempts before + 1
  same : bounded.answers { room := n } us = unbounded.answers {} us

theorem after_offer (before : List (Use α)) (a : α) :
    bounded.after q (before ++ [.offer a]) = (bounded.after q before).offer a :=
  after_append q before [.offer a]

/-- **Nothing is lost for a reader that asks for no more messages than the queue has places.** -/
theorem lossless (hle : Use.attempts us ≤ n) : Lossless n us := by
  have huses {vs : List (Use α)} (hvs : Use.attempts vs ≤ n) :
      bounded.answers { room := n } vs = unbounded.answers {} vs ∧
        Alike n (Use.offered vs) (bounded.received { room := n } vs) (Use.attempts vs)
          (bounded.after { room := n } vs) (unbounded.after {} vs) := by
    have h := (Alike.empty n).uses (u := {}) (show 0 + Use.attempts vs ≤ n by omega)
    rwa [List.nil_append, List.nil_append, Nat.zero_add] at h
  refine ⟨?_, ?_, ?_, (huses hle).1⟩
  · rintro before a later rfl hlt
    rw [Use.attempts_append] at hle
    have hbefore := (huses (show Use.attempts before ≤ n by omega)).2
    rw [after_offer, Inbox.toList_offer, if_neg (hbefore.holds.room_ne_zero hlt)]
  · intro k hk
    have hgot := (huses hle).2.inOrder
    rw [hgot, List.getElem?_take_of_lt hk]
  · rintro before later rfl hempty
    rw [Use.attempts_append, Use.attempts_receive] at hle
    have hbefore := (huses (show Use.attempts before ≤ n by omega)).2
    have hlength := hbefore.length_le
    have hall := hbefore.holds.length_eq_of_empty (by omega) (Inbox.receive?_eq_none_iff.1 hempty)
    omega

end Lockstep
