/-!
# Queues

A `Queue` grows at its end and is taken from at its front, each in constant time on the average. It is
kept as two lists, the one at the end reversed. `Queue.toList` is what a queue holds, the oldest first,
and each operation has its equation there (`toList_push`, `toList_pushAll`, `toList_eq_of_pop?`). Where
the two lists meet does not matter.
-/

set_option autoImplicit false

namespace Lockstep

structure Queue (α : Type) where
  front : List α := []
  /-- The end of the queue, the newest first. -/
  back : List α := []
  deriving Repr, DecidableEq

namespace Queue

variable {α : Type}

def toList (q : Queue α) : List α := q.front ++ q.back.reverse

def ofList (as : List α) : Queue α := { front := as }

def isEmpty (q : Queue α) : Bool := q.front.isEmpty && q.back.isEmpty

def push (q : Queue α) (a : α) : Queue α := { q with back := a :: q.back }

def pushAll (q : Queue α) (as : List α) : Queue α := { q with back := as.reverse ++ q.back }

/-- The oldest element, and the queue without it. -/
def pop? (q : Queue α) : Option (α × Queue α) :=
  match q.front with
  | a :: front => some (a, { q with front })
  | [] =>
    match q.back.reverse with
    | a :: front => some (a, { front })
    | [] => none

/-! ## What is in the queue -/

@[simp] theorem toList_empty : ({} : Queue α).toList = [] := rfl

@[simp] theorem toList_ofList (as : List α) : (ofList as).toList = as := by
  simp [toList, ofList]

@[simp] theorem toList_push (q : Queue α) (a : α) : (q.push a).toList = q.toList ++ [a] := by
  simp [toList, push]

@[simp] theorem toList_pushAll (q : Queue α) (as : List α) :
    (q.pushAll as).toList = q.toList ++ as := by
  simp [toList, pushAll]

theorem isEmpty_iff {q : Queue α} : q.isEmpty = true ↔ q.toList = [] := by
  simp [isEmpty, toList]

theorem pop?_eq_none_iff {q : Queue α} : q.pop? = none ↔ q.toList = [] := by
  obtain ⟨front, back⟩ := q
  cases front with
  | cons a front => simp [pop?, toList]
  | nil =>
    simp only [pop?, toList, List.nil_append]
    cases back.reverse <;> simp

/-- A queue gives its oldest element. -/
theorem toList_eq_of_pop? {q r : Queue α} {a : α} (h : q.pop? = some (a, r)) :
    q.toList = a :: r.toList := by
  obtain ⟨front, back⟩ := q
  cases front with
  | cons b front =>
    obtain ⟨rfl, rfl⟩ := Prod.mk.inj (Option.some.inj h)
    rfl
  | nil =>
    simp only [pop?] at h
    simp only [toList, List.nil_append]
    cases hb : back.reverse with
    | nil => simp [hb] at h
    | cons b rest =>
      simp only [hb, Option.some.injEq, Prod.mk.injEq] at h
      obtain ⟨rfl, rfl⟩ := h
      simp

/-- A queue that holds something can be taken from. -/
theorem exists_pop? {q : Queue α} {a : α} {as : List α} (h : q.toList = a :: as) :
    ∃ r, q.pop? = some (a, r) ∧ r.toList = as := by
  cases hp : q.pop? with
  | none => simp [pop?_eq_none_iff.1 hp] at h
  | some p =>
    obtain ⟨b, r⟩ := p
    rw [toList_eq_of_pop? hp] at h
    obtain ⟨rfl, rfl⟩ := List.cons.inj h
    exact ⟨r, rfl, rfl⟩

end Queue

end Lockstep
