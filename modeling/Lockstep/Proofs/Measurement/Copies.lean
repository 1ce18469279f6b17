import Mathlib.Algebra.GroupWithZero.Nat
import Mathlib.Data.List.Nodup
import Mathlib.Data.List.Perm.Basic
import Lockstep.Measurement.Copies
import Lockstep.Proofs.Lookup
import Lockstep.Proofs.Measurement.Progress

/-!
# A medium that multiplies deliveries, as its callers see it

`Copies.fate copies k` is how the `k`-th broadcast comes out, `errors` and `delivered` sum up the first
broadcasts. `Answered copies n callers failures m` says that `n` broadcasts were made, of which the
callers `callers` have not heard, and that the others reported `failures`.
-/

set_option autoImplicit false

namespace Lockstep

open Medium

namespace Copy

def error? : Copy → Option RelayError
  | .failed e => some e
  | _ => none

/-- How often the message is handed over. -/
def count : Copy → Nat
  | .delivered n => n
  | _ => 0

def reply : Copy → Reply
  | .delivered _ => .ok 0
  | .failed e => .failed e
  | .died => .died

theorem error?_reply (c : Copy) : c.reply.error? = c.error? := by
  cases c <;> rfl

end Copy

/-- Who is found in a list without repetitions is in it once. -/
theorem perm_of_lookup {α : Type} {l : List (Nat × α)} {k : Nat} {a : α}
    (hl : (l.map (·.1)).Nodup) (hk : l.lookup k = some a) :
    l.Perm ((k, a) :: l.filter (·.1 != k)) := by
  induction l with
  | nil => cases hk
  | cons entry l ih =>
    obtain ⟨j, b⟩ := entry
    rw [List.map_cons, List.nodup_cons] at hl
    by_cases hj : k = j
    · subst hj
      rw [List.lookup_cons_self] at hk
      obtain rfl := Option.some.inj hk
      rw [List.filter_cons_of_neg (by simp), List.filter_eq_self.2]
      intro entry hm
      simp only [bne_iff_ne]
      rintro rfl
      exact hl.1 (List.mem_map_of_mem (f := (·.1)) hm)
    · rw [List.lookup_cons, beq_false_of_ne hj] at hk
      rw [List.filter_cons_of_pos (by simpa using Ne.symm hj)]
      exact ((ih hl.2 hk).cons _).trans (.swap _ _ _)

namespace Copies

variable {copies : List Copy} {m m' : Copies} {n caller conn : Nat} {p : Payload} {r : Reply}
  {callers : List Nat} {failures : List RelayError} {single : Prop}

/-- How the `k`-th broadcast comes out. -/
def fate (copies : List Copy) (k : Nat) : Copy := copies.getD k (.delivered 1)

/-- The errors of the first `n` broadcasts, in the order of these. -/
def errors (copies : List Copy) (n : Nat) : List RelayError :=
  (List.range n).filterMap fun k => (fate copies k).error?

/-- How often messages are handed over for the first `n` broadcasts. -/
def delivered (copies : List Copy) (n : Nat) : Nat :=
  ((List.range n).map fun k => (fate copies k).count).sum

theorem errors_succ (copies : List Copy) (n : Nat) :
    errors copies (n + 1) = errors copies n ++ (fate copies n).error?.toList := by
  rw [errors, List.range_succ, List.filterMap_append, errors]
  cases h : (fate copies n).error? <;> simp [h]

theorem delivered_succ (copies : List Copy) (n : Nat) :
    delivered copies (n + 1) = delivered copies n + (fate copies n).count := by
  simp [delivered, List.range_succ]

theorem delivered_mono (copies : List Copy) {k : Nat} (hle : n ≤ k) :
    delivered copies n ≤ delivered copies k := by
  induction hle with
  | refl => exact Nat.le_refl _
  | step _ ih =>
    rw [delivered_succ]
    exact Nat.le_add_right_of_le ih

/-! ## Requests and replies -/

theorem ask_broadcast (hrest : m.copies = copies.drop n) (caller conn : Nat) (p : Payload) :
    ∃ pending, m.ask caller (.broadcast conn p) =
        { m with
          copies := copies.drop (n + 1), pending
          replies := m.replies ++ [(caller, (fate copies n).reply)] } ∧
      pending.toList = m.pending.toList ++ List.replicate (fate copies n).count p := by
  have hnext : m.next = (fate copies n, { m with copies := copies.drop (n + 1) }) := by
    rw [← List.tail_drop, ← hrest, fate, List.getD_eq_getElem?_getD, ← List.head?_drop, ← hrest, next]
    cases m with
    | mk registration left replies pending => cases left <;> rfl
  simp only [ask, hnext]
  cases fate copies n with
  | delivered k => exact ⟨_, rfl, Queue.toList_pushAll _ _⟩
  | failed e => exact ⟨m.pending, rfl, (List.append_nil _).symm⟩
  | died => exact ⟨m.pending, rfl, (List.append_nil _).symm⟩

theorem ask_farewell (ending : Throughput.Ending) :
    m.ask caller (ending.farewell conn) = m.reply caller (.ok 0) := by
  cases ending <;> rfl

theorem reply?_eq_some_iff : m.reply? caller = some (r, m') ↔
    m.replies.lookup caller = some r ∧
      m' = { m with replies := m.replies.filter (·.1 != caller) } := by
  simp only [reply?, Option.bind_eq_bind, Option.bind_eq_some_iff]
  constructor
  · rintro ⟨r, hr, heq⟩
    cases heq
    exact ⟨hr, rfl⟩
  · rintro ⟨hr, rfl⟩
    exact ⟨r, hr, rfl⟩

/-! ## Handing over -/

theorem step_eq_none_iff {i : Unit} : medium.step m i = none ↔ m.pending.toList = [] :=
  Option.map_eq_none_iff.trans Queue.pop?_eq_none_iff

theorem step_of_notMem_moves {i : Unit} (hi : i ∉ medium.moves m) : medium.step m i = none := by
  have hempty : m.pending.isEmpty = true := by
    by_contra hne
    exact hi (by simp [medium, hne])
  exact step_eq_none_iff.2 (Queue.isEmpty_iff.1 hempty)

/-- Of the copies of the first `n` broadcasts `i` were received from an inbox with this much room, and
those that are not handed over yet are pending. -/
def Accounted (copies : List Copy) (room n : Nat) (m : Copies) (inbox : Inbox Payload) (i : Nat) :
    Prop :=
  ∃ offered, Inbox.Holds room offered i inbox ∧
    offered.length + m.pending.toList.length = delivered copies n

namespace Accounted

variable {room i : Nat} {inbox : Inbox Payload} (ha : Accounted copies room n m inbox i)
include ha

theorem broadcast (hpending : m'.pending.toList.length =
    m.pending.toList.length + (fate copies n).count) :
    Accounted copies room (n + 1) m' inbox i := by
  obtain ⟨offered, hholds, hcount⟩ := ha
  refine ⟨offered, hholds, ?_⟩
  rw [hpending, delivered_succ]
  omega

/-- A copy that is handed over is offered to the inbox. -/
theorem pass {pending : Queue Payload} (hpop : m.pending.pop? = some (p, pending)) :
    Accounted copies room n { m with pending } (inbox.offer p) i := by
  obtain ⟨offered, hholds, hcount⟩ := ha
  refine ⟨offered ++ [p], hholds.offer p, ?_⟩
  rw [Queue.toList_eq_of_pop? hpop, List.length_cons] at hcount
  rw [List.length_append, List.length_singleton, ← hcount]
  show offered.length + 1 + pending.toList.length = _
  omega

theorem receive {rest : Inbox Payload} (hlt : i < room) (hreceive : inbox.receive? = some (p, rest)) :
    Accounted copies room n m rest (i + 1) := by
  obtain ⟨offered, hholds, hcount⟩ := ha
  exact ⟨offered, hholds.receive hlt hreceive, hcount⟩

theorem le_delivered : i ≤ delivered copies n := by
  obtain ⟨offered, hholds, hcount⟩ := ha
  have hreceived := hholds.received
  omega

/-- Where nothing is left to be handed over and the inbox is empty, all copies are received. -/
theorem delivered_eq (hlt : i < room) (hpending : m.pending.toList = [])
    (hempty : inbox.items.toList = []) : delivered copies n = i := by
  obtain ⟨offered, hholds, hcount⟩ := ha
  rw [← hcount, hholds.length_eq_of_empty hlt hempty, hpending]
  rfl

end Accounted

/-! ## What was answered -/

/-- The errors in replies that nobody has taken. -/
def reported (m : Copies) : List RelayError := m.replies.filterMap (·.2.error?)

/-- `n` broadcasts were made. The callers `callers` have not heard of theirs, or of something else that
does not fail; the others have reported `failures`. If there is only a single caller, the errors come
in the order of the broadcasts. -/
structure Answered (copies : List Copy) (single : Prop) (n : Nat) (callers : List Nat)
    (failures : List RelayError) (m : Copies) : Prop where
  rest : m.copies = copies.drop n
  waiting : (m.replies.map (·.1)).Perm callers
  failed : (failures ++ m.reported).Perm (errors copies n)
  first : single → failures ++ m.reported = errors copies n

namespace Answered

theorem of_perm {callers' : List Nat} (ha : Answered copies single n callers failures m)
    (hperm : callers.Perm callers') : Answered copies single n callers' failures m :=
  ⟨ha.rest, ha.waiting.trans hperm, ha.failed, ha.first⟩

theorem exists_reply (ha : Answered copies single n callers failures m) (hmem : caller ∈ callers) :
    ∃ r m', m.reply? caller = some (r, m') := by
  have hin : caller ∈ m.replies.map (·.1) := ha.waiting.mem_iff.2 hmem
  obtain ⟨⟨k, r⟩, hentry, rfl⟩ := List.mem_map.1 hin
  cases hlookup : m.replies.lookup k with
  | none =>
    have hne := List.lookup_eq_none_iff.1 hlookup _ hentry
    simp at hne
  | some r => exact ⟨r, _, reply?_eq_some_iff.2 ⟨hlookup, rfl⟩⟩

/-- Something else is asked for, and does not fail. -/
theorem ask (ha : Answered copies single n callers failures m) (herror : r.error? = none) :
    Answered copies single n (caller :: callers) failures (m.reply caller r) := by
  have hreported : (m.reply caller r).reported = m.reported := by
    simp [reported, reply, herror]
  refine ⟨ha.rest, ?_, ?_, ?_⟩
  · simp only [reply, List.map_append, List.map_cons, List.map_nil]
    exact List.perm_append_comm.trans (ha.waiting.cons caller)
  · rw [hreported]
    exact ha.failed
  · rw [hreported]
    exact ha.first

theorem broadcast (ha : Answered copies single n callers failures m) (caller conn : Nat)
    (p : Payload) :
    Answered copies single (n + 1) (caller :: callers) failures
      (m.ask caller (.broadcast conn p)) := by
  obtain ⟨pending, heq, -⟩ := ask_broadcast ha.rest caller conn p
  have hreported : (m.ask caller (.broadcast conn p)).reported =
      m.reported ++ (fate copies n).error?.toList := by
    rw [heq]
    simp only [reported, List.filterMap_append]
    cases herror : (fate copies n).error? <;> simp [Copy.error?_reply, herror]
  refine ⟨by rw [heq], ?_, ?_, fun hone => ?_⟩
  · rw [heq]
    simp only [List.map_append, List.map_cons, List.map_nil]
    exact List.perm_append_comm.trans (ha.waiting.cons caller)
  · rw [hreported, errors_succ, ← List.append_assoc]
    exact ha.failed.append_right _
  · rw [hreported, errors_succ, ← List.append_assoc, ha.first hone]

/-- A caller hears of what it asked for. -/
theorem hear (ha : Answered copies single n (caller :: callers) failures m)
    (hnodup : (caller :: callers).Nodup) (hsingle : single → callers = [])
    (hr : m.reply? caller = some (r, m')) :
    Answered copies single n callers (failures ++ r.error?.toList) m' := by
  obtain ⟨hlookup, rfl⟩ := reply?_eq_some_iff.1 hr
  have hperm := perm_of_lookup (ha.waiting.nodup_iff.2 hnodup) hlookup
  have hreported : m.reported.Perm
      (r.error?.toList ++ reported { m with replies := m.replies.filter (·.1 != caller) }) := by
    refine (hperm.filterMap _).trans ?_
    rw [Pool.filterMap_cons_eq]
    exact .refl _
  have hwaiting : ((m.replies.filter (·.1 != caller)).map (·.1)).Perm callers :=
    ((hperm.map (·.1)).symm.trans ha.waiting).cons_inv
  refine ⟨ha.rest, hwaiting, ?_, fun hone => ?_⟩
  · rw [List.append_assoc]
    exact (hreported.symm.append_left failures).trans ha.failed
  · rw [hsingle hone] at hwaiting
    have hnil := List.map_eq_nil_iff.1 hwaiting.eq_nil
    rw [hnil] at hperm hreported ⊢
    have hfirst := ha.first hone
    rw [reported, hperm.eq_singleton] at hfirst
    rw [← hfirst]
    cases herror : r.error? <;> simp [reported, herror]

end Answered

end Copies

end Lockstep
