import Lockstep.Fault

/-!
# Machine words

Counts are natural numbers; where the program computes with 64-bit words, a result that does not
fit is a fault. What is laid out in memory has to fit into one block.
-/

set_option autoImplicit false

namespace Lockstep.Word

/-- The first number that does not fit a word, two to the sixty-fourth. -/
def bound : Nat := 0x10000000000000000

/-- The largest number that a word with a sign can hold. -/
def signedMax : Nat := 0x7fffffffffffffff

/-- The number, or the fault if it does not fit. -/
def check (fault : Fault) (n : Nat) : Except Fault Nat :=
  if n < bound then .ok n else .error fault

def add (a b : Nat) : Except Fault Nat := check .sum (a + b)

def mul (a b : Nat) : Except Fault Nat := check .product (a * b)

/-- The bytes of a block of memory are counted by a word with a sign. -/
def fitsBlock (count size : Nat) : Bool := count * size ≤ signedMax

/-! ## Results -/

theorem check_eq_ok_iff {fault : Fault} {n m : Nat} :
    check fault n = .ok m ↔ n < bound ∧ n = m := by
  unfold check
  by_cases h : n < bound
  · rw [if_pos h]
    exact ⟨fun e => ⟨h, Except.ok.inj e⟩, fun e => congrArg _ e.2⟩
  · rw [if_neg h]
    exact ⟨nofun, fun e => absurd e.1 h⟩

theorem check_eq_error_iff {fault f : Fault} {n : Nat} :
    check fault n = .error f ↔ bound ≤ n ∧ fault = f := by
  unfold check
  by_cases h : n < bound
  · rw [if_pos h]
    exact ⟨nofun, fun e => absurd h (Nat.not_lt.2 e.1)⟩
  · rw [if_neg h]
    exact ⟨fun e => ⟨Nat.not_lt.1 h, Except.error.inj e⟩, fun e => congrArg _ e.2⟩

theorem add_eq_ok_iff {a b n : Nat} : add a b = .ok n ↔ a + b < bound ∧ a + b = n :=
  check_eq_ok_iff

theorem mul_eq_ok_iff {a b n : Nat} : mul a b = .ok n ↔ a * b < bound ∧ a * b = n :=
  check_eq_ok_iff

end Lockstep.Word
