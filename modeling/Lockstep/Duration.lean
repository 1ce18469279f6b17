import Lockstep.Word

/-!
# Durations

Whole seconds and the nanoseconds below one second. `Duration.toNanos` is the length; `Duration.le`
compares by it. `Duration.div?` is the division by a 32-bit count, done on the two parts in words, and
`Duration.text` is the short text with a unit.
-/

set_option autoImplicit false

namespace Lockstep

structure Duration where
  secs : Nat
  nanos : Nat
  secs_lt : secs < Word.bound
  nanos_lt : nanos < 1000000000
  deriving DecidableEq, Repr

namespace Duration

/-- The duration of these parts, if they are within their bounds. -/
def ofParts? (secs nanos : Nat) : Option Duration :=
  if h : secs < Word.bound ∧ nanos < 1000000000 then some ⟨secs, nanos, h.1, h.2⟩ else none

def zero : Duration := ⟨0, 0, by decide, by decide⟩

/-- The length in nanoseconds. -/
def toNanos (d : Duration) : Nat := d.secs * 1000000000 + d.nanos

def isZero (d : Duration) : Bool := d.secs == 0 && d.nanos == 0

instance : LE Duration := ⟨fun a b => a.toNanos ≤ b.toNanos⟩

instance (a b : Duration) : Decidable (a ≤ b) :=
  inferInstanceAs (Decidable (a.toNanos ≤ b.toNanos))

theorem isZero_iff {d : Duration} : d.isZero = true ↔ d.toNanos = 0 := by
  simp only [isZero, toNanos, Bool.and_eq_true, beq_iff_eq]
  omega

/-! ## Division -/

/-- The first number that is no 32-bit word, two to the thirty-second. -/
def countBound : Nat := 0x100000000

/-- The duration divided by `count`, rounded down to whole nanoseconds. Seconds and nanoseconds are
divided apart and the seconds left over are carried down as nanoseconds; `none` if a word would
overflow on the way, if `count` is zero or if it is no 32-bit word. -/
def div? (d : Duration) (count : Nat) : Option Duration := do
  guard (0 < count ∧ count < countBound)
  let carried ← (Word.mul (d.secs % count) 1000000000).toOption
  let rest ← (Word.add carried (d.nanos % count)).toOption
  let nanos := d.nanos / count + rest / count
  guard (rest / count < countBound ∧ nanos < countBound)
  ofParts? (d.secs / count) nanos

/-! ## Text -/

/-- The digits of `n` below the point, `width` of them, without the zeros at the end. -/
def fraction (width n : Nat) : List Char :=
  let digits := Nat.toDigits 10 n
  ((List.replicate (width - digits.length) '0' ++ digits).reverse.dropWhile (· == '0')).reverse

/-- `whole` and a fraction of `width` digits, the point only where a digit follows it. -/
def decimal (whole width part : Nat) : String :=
  let digits := fraction width part
  toString whole ++ (if digits.isEmpty then "" else "." ++ String.ofList digits)

/-- The largest unit that leaves a whole part, of s, ms, µs and ns. -/
def text (d : Duration) : String :=
  if d.secs > 0 then decimal d.secs 9 d.nanos ++ "s"
  else if d.nanos ≥ 1000000 then decimal (d.nanos / 1000000) 6 (d.nanos % 1000000) ++ "ms"
  else if d.nanos ≥ 1000 then decimal (d.nanos / 1000) 3 (d.nanos % 1000) ++ "µs"
  else decimal d.nanos 0 0 ++ "ns"

end Duration

end Lockstep
