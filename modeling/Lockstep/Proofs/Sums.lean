import Mathlib.Algebra.BigOperators.Group.List.Basic
import Mathlib.Algebra.GroupWithZero.Nat

/-!
# Sums over lists in which one entry changes
-/

set_option autoImplicit false

namespace Lockstep

variable {α : Type} {p k : Nat}

theorem sum_map_set {l : List α} {x y : α} (f : α → Nat) (hx : l[p]? = some x) :
    ((l.set p y).map f).sum + f x = (l.map f).sum + f y := by
  induction l generalizing p with
  | nil => cases hx
  | cons z l ih =>
    cases p with
    | zero =>
      cases hx
      simp only [List.set_cons_zero, List.map_cons, List.sum_cons]
      omega
    | succ p =>
      have := ih hx
      simp only [List.set_cons_succ, List.map_cons, List.sum_cons]
      omega

/-- The entry of a number, if each number has one at most. -/
theorem sum_map_update {l : List (Nat × α)} {a b : α} (f : α → Nat) (hl : (l.map (·.1)).Nodup)
    (ha : l.lookup k = some a) :
    ((l.map fun (j, c) => if j == k then (j, b) else (j, c)).map (f ·.2)).sum + f a =
      (l.map (f ·.2)).sum + f b := by
  induction l with
  | nil => cases ha
  | cons entry l ih =>
    obtain ⟨j, c⟩ := entry
    rw [List.map_cons, List.nodup_cons] at hl
    by_cases hj : j = k
    · subst hj
      have hsame : (l.map fun (i, c) => if i == j then (i, b) else (i, c)) = l := by
        refine (List.map_congr_left fun entry hm => ?_).trans (List.map_id l)
        have hne : entry.1 ≠ j := fun heq => hl.1 (List.mem_map.2 ⟨entry, hm, heq⟩)
        simp [hne]
      rw [List.lookup_cons_self] at ha
      cases ha
      rw [List.map_cons, List.map_cons, List.map_cons, List.sum_cons, List.sum_cons, hsame]
      simp only [beq_self_eq_true, if_true]
      omega
    · rw [List.lookup_cons, beq_false_of_ne (Ne.symm hj)] at ha
      have hrest := ih hl.2 ha
      rw [List.map_cons, List.map_cons, List.map_cons, List.sum_cons, List.sum_cons]
      simp only [beq_false_of_ne hj, Bool.false_eq_true, if_false] at hrest ⊢
      omega

end Lockstep
