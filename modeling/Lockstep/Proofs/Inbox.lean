import Lockstep.Inbox

/-!
# What a bounded queue keeps

`Inbox.Holds n offered k q` says that `q`, which has `n` places, was offered the messages `offered`,
of which its reader has received `k`. Up to the `n`-th message none of them is dropped, and the reader
gets these in the order in which they were offered (`Holds.offer`, `Holds.receive`).
-/

set_option autoImplicit false

namespace Lockstep.Inbox

variable {α : Type} {n k : Nat} {offered : List α} {q r : Inbox α} {a : α}

structure Holds (n : Nat) (offered : List α) (k : Nat) (q : Inbox α) : Prop where
  size : q.room + q.items.toList.length = n
  /-- The next to be received are those of the first `n` that are left. -/
  first : q.items.toList.take (n - k) = (offered.take n).drop k
  all : offered.length < n → q.items.toList = offered.drop k
  received : k ≤ offered.length

theorem holds_empty (n : Nat) : Holds n ([] : List α) 0 { room := n } where
  size := rfl
  first := by simp
  all _ := rfl
  received := Nat.le_refl 0

namespace Holds

variable (hq : Holds n offered k q)
include hq

/-- As long as fewer than `n` messages were offered there is room. -/
theorem room_ne_zero (hlt : offered.length < n) : q.room ≠ 0 := by
  have hsize := hq.size
  rw [hq.all hlt, List.length_drop] at hsize
  omega

theorem offer (a : α) : Holds n (offered ++ [a]) k (q.offer a) where
  size := (room_add_length_offer q a).trans hq.size
  first := by
    by_cases hlt : offered.length < n
    · have hall : (q.offer a).items.toList = (offered ++ [a]).drop k := by
        rw [toList_offer, if_neg (hq.room_ne_zero hlt), hq.all hlt,
          List.drop_append_of_le_length hq.received]
      rw [hall, ← List.drop_take]
    · have hle := Nat.le_of_not_lt hlt
      rw [List.take_append_of_le_length hle, ← hq.first, toList_offer]
      split
      · rfl
      · rw [List.take_append_of_le_length]
        have hlength := congrArg List.length hq.first
        simp only [List.length_take, List.length_drop] at hlength
        omega
  all hlt := by
    rw [List.length_append, List.length_singleton] at hlt
    have hlt : offered.length < n := Nat.lt_of_succ_lt hlt
    rw [toList_offer, if_neg (hq.room_ne_zero hlt), hq.all hlt,
      List.drop_append_of_le_length hq.received]
  received := by
    have := hq.received
    rw [List.length_append]
    omega

/-- The reader gets the messages in order. -/
theorem getElem?_of_receive (hlt : k < n) (hr : q.receive? = some (a, r)) :
    offered[k]? = some a := by
  have hfirst := hq.first
  obtain ⟨d, hd⟩ : ∃ d, n - k = d + 1 := ⟨n - k - 1, by omega⟩
  rw [toList_eq_of_receive? hr, hd, List.take_succ_cons] at hfirst
  have hhead := congrArg List.head? hfirst
  rw [List.head?_cons, List.head?_drop, List.getElem?_take_of_lt hlt] at hhead
  exact hhead.symm

theorem receive (hlt : k < n) (hr : q.receive? = some (a, r)) : Holds n offered (k + 1) r := by
  have hget := hq.getElem?_of_receive hlt hr
  have hitems := toList_eq_of_receive? hr
  refine ⟨(room_add_length_receive? hr).trans hq.size, ?_, fun hall => ?_, ?_⟩
  · obtain ⟨d, hd⟩ : ∃ d, n - k = d + 1 := ⟨n - k - 1, by omega⟩
    have hfirst := congrArg List.tail hq.first
    rw [hitems, hd, List.take_succ_cons, List.tail_cons, List.tail_drop] at hfirst
    rw [show n - (k + 1) = d by omega, hfirst]
  · have hdrop := congrArg List.tail (hq.all hall)
    rwa [hitems, List.tail_cons, List.tail_drop] at hdrop
  · exact (List.getElem?_eq_some_iff.1 hget).1

/-- A receive finds nothing only where all that was offered is received. -/
theorem length_eq_of_empty (hlt : k < n) (hempty : q.items.toList = []) : offered.length = k := by
  have hfirst := hq.first
  have hle := hq.received
  rw [hempty, List.take_nil] at hfirst
  have hlength := congrArg List.length hfirst
  simp only [List.length_nil, List.length_drop, List.length_take] at hlength
  omega

/-- A receive yields the next of all that was offered, if there is a next. -/
theorem receive?_eq (hlt : k < n) : q.receive?.map (·.1) = offered[k]? := by
  cases hr : q.receive? with
  | none =>
    have hall := hq.length_eq_of_empty hlt (receive?_eq_none_iff.1 hr)
    exact (List.getElem?_eq_none (Nat.le_of_eq hall)).symm
  | some r => exact (hq.getElem?_of_receive hlt hr).symm

/-- Before the first receive the queue has as much as fits. -/
theorem toList_eq_take (hzero : k = 0) : q.items.toList = offered.take n := by
  subst hzero
  have hfirst := hq.first
  have hsize := hq.size
  rw [Nat.sub_zero, List.drop_zero, List.take_of_length_le (by omega)] at hfirst
  exact hfirst

end Holds

end Lockstep.Inbox
