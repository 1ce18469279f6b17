import Mathlib.Data.List.Basic

/-!
# Lists that are looked up by a number

What `List.lookup` finds after the entries of one number were changed or dropped.
-/

set_option autoImplicit false

namespace Lockstep

variable {α : Type} {k k' : Nat}

theorem lookup_map_update (l : List (Nat × α)) (b : α) :
    (l.map fun (j, a) => if j == k then (j, b) else (j, a)).lookup k' =
      if k' = k then (l.lookup k').map fun _ => b else l.lookup k' := by
  induction l with
  | nil => simp
  | cons entry l ih =>
    obtain ⟨j, a⟩ := entry
    by_cases hk' : k' = j
    · subst hk'
      by_cases hk : k' = k <;> simp [hk]
    · have hfalse : (k' == j) = false := beq_false_of_ne hk'
      rw [List.lookup_cons, hfalse]
      show _ = if k' = k then (l.lookup k').map fun _ => b else l.lookup k'
      rw [← ih]
      by_cases hk : j = k <;> simp [List.lookup_cons, hk, hfalse]
      rw [← hk, hfalse]

theorem lookup_filter_ne (l : List (Nat × α)) :
    (l.filter fun (j, _) => j != k).lookup k' = if k' = k then none else l.lookup k' := by
  induction l with
  | nil => simp
  | cons entry l ih =>
    obtain ⟨j, a⟩ := entry
    by_cases hj : j = k
    · subst hj
      rw [List.filter_cons_of_neg (by simp), ih, List.lookup_cons]
      split
      · rfl
      · rename_i hne
        rw [beq_false_of_ne hne]
    · rw [List.filter_cons_of_pos (by simpa using hj), List.lookup_cons, List.lookup_cons, ih]
      by_cases hk' : k' = j
      · subst hk'
        simp [hj]
      · simp [beq_false_of_ne hk']

theorem lookup_eq_some_of_mem {l : List (Nat × α)} {a : α} (hl : (l.map (·.1)).Nodup)
    (hm : (k, a) ∈ l) : l.lookup k = some a := by
  induction l with
  | nil => cases hm
  | cons entry l ih =>
    rw [List.map_cons, List.nodup_cons] at hl
    rcases List.mem_cons.1 hm with rfl | hm
    · exact List.lookup_cons_self
    · have hne : k ≠ entry.1 := fun heq => hl.1 (heq ▸ List.mem_map_of_mem (f := (·.1)) hm)
      rw [List.lookup_cons, beq_false_of_ne hne]
      exact ih hl.2 hm

end Lockstep
