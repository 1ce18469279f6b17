/-!
# Whole numbers in place of doubles

`wholeOfFloat` is the whole number nearest to a nonnegative finite double, a tie going to the even
neighbour. It is computed from the bits, so it is exact for every size.
-/

set_option autoImplicit false

namespace Lockstep

/-- The quotient rounded to the nearest whole number, a half to the even one. -/
def roundHalfEven (num den : Nat) : Nat :=
  let q := num / den
  let twice := 2 * (num % den)
  if twice < den ∨ twice = den ∧ q % 2 = 0 then q else q + 1

/-- The significand and the exponent of a positive finite double: its value is
`significand * 2 ^ (exponent - 1075)`. -/
def significand (bits : Nat) : Nat × Nat :=
  let part := bits % (1 <<< 52)
  let exponent := (bits >>> 52) % (1 <<< 11)
  if exponent = 0 then (part, 1) else (part + (1 <<< 52), exponent)

def wholeOfBits (bits : Nat) : Nat :=
  let (s, e) := significand bits
  if e ≥ 1075 then s <<< (e - 1075) else roundHalfEven s (1 <<< (1075 - e))

/-- The nearest whole number, for a nonnegative finite double. -/
def wholeOfFloat (x : Float) : Nat := wholeOfBits x.toBits.toNat

end Lockstep
