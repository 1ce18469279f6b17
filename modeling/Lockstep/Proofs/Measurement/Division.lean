import Mathlib.Data.Option.Basic
import Lockstep.Measurement.Basic

/-!
# The time for each message

A duration is divided by a count in two parts: the seconds that are left over are carried down, as
nanoseconds in a word, and two quotients are added that have to stay below one second. `Fits` says
that no word overflows on the way, `fits_of_count` that none does for any duration, and
`Duration.div?_eq_some` that the parts then make up the floor of the whole quotient.
`perMessage_is_floor` is what this means for a measurement, whatever its count.
-/

set_option autoImplicit false

namespace Lockstep

namespace Duration

/-- What is left of the seconds and of the nanoseconds, in nanoseconds, when both are divided. -/
def remainder (d : Duration) (count : Nat) : Nat :=
  d.secs % count * 1000000000 + d.nanos % count

/-- The division overflows nowhere: the remainder is a word, and the nanoseconds stay below one
second. -/
structure Fits (d : Duration) (count : Nat) : Prop where
  carried : d.secs % count * 1000000000 < Word.bound
  remainder : d.remainder count < Word.bound
  quotient : d.remainder count / count < countBound
  nanos : d.nanos / count + d.remainder count / count < 1000000000

variable {d e : Duration} {count more : Nat}

/-- The nanoseconds of both parts together are a quotient of its own. -/
theorem nanos_div_add (hcount : 0 < count) :
    d.nanos / count + d.remainder count / count =
      (d.secs % count * 1000000000 + d.nanos) / count := by
  have hsplit : d.secs % count * 1000000000 + d.nanos =
      d.remainder count + count * (d.nanos / count) := by
    rw [Duration.remainder, Nat.add_assoc, Nat.mod_add_div]
  rw [hsplit, Nat.add_mul_div_left _ _ hcount, Nat.add_comm]

/-- The seconds that are left over are less than the count, and the nanoseconds less than one of
them. -/
theorem secs_mod_add_nanos_lt (hcount : 0 < count) :
    d.secs % count * 1000000000 + d.nanos < count * 1000000000 := by
  have hsecs : d.secs % count < count := Nat.mod_lt _ hcount
  have hnanos := d.nanos_lt
  omega

theorem count_mul_lt (hbound : count < countBound) : count * 1000000000 < Word.bound := by
  simp only [countBound, Word.bound] at hbound ⊢
  omega

theorem remainder_le : d.remainder count ≤ d.secs % count * 1000000000 + d.nanos :=
  Nat.add_le_add_left (Nat.mod_le _ _) _

/-- No duration is too long, and no count too large. -/
theorem fits_of_count (hcount : 0 < count) (hbound : count < countBound) : d.Fits count := by
  have hlt := secs_mod_add_nanos_lt (d := d) hcount
  have hnanos : d.nanos / count + d.remainder count / count < 1000000000 := by
    rw [nanos_div_add hcount]
    exact Nat.div_lt_of_lt_mul hlt
  have hquotient : d.remainder count / count < countBound :=
    Nat.lt_trans (Nat.lt_of_le_of_lt (Nat.le_add_left _ _) hnanos) (by decide)
  have hrest : d.secs % count * 1000000000 + d.nanos < Word.bound :=
    Nat.lt_trans hlt (count_mul_lt hbound)
  exact ⟨Nat.lt_of_le_of_lt (Nat.le_add_right _ _) hrest, Nat.lt_of_le_of_lt remainder_le hrest,
    hquotient, hnanos⟩

/-- The floor of the quotient is made up of that of the seconds and that of what is left. -/
theorem toNanos_div (hcount : 0 < count) : d.toNanos / count =
    d.secs / count * 1000000000 + (d.nanos / count + d.remainder count / count) := by
  have hsplit : d.toNanos =
      d.secs % count * 1000000000 + d.nanos + count * (d.secs / count * 1000000000) := by
    calc d.toNanos
        = (d.secs % count + count * (d.secs / count)) * 1000000000 + d.nanos := by
          rw [Nat.mod_add_div, toNanos]
      _ = _ := by rw [Nat.add_mul, Nat.mul_assoc, Nat.add_right_comm]
  rw [nanos_div_add hcount, hsplit, Nat.add_mul_div_left _ _ hcount, Nat.add_comm]

/-- Where no word overflows the division gives the floor. -/
theorem div?_eq_some (hcount : 0 < count) (hbound : count < countBound) :
    ∃ q, d.div? count = some q ∧ q.toNanos = d.toNanos / count := by
  obtain ⟨hcarried, hremainder, hquotient, hnanos⟩ := fits_of_count (d := d) hcount hbound
  have hsecs : d.secs / count < Word.bound := Nat.lt_of_le_of_lt (Nat.div_le_self _ _) d.secs_lt
  have hword : d.nanos / count + d.remainder count / count < countBound :=
    Nat.lt_trans hnanos (by decide)
  refine ⟨⟨_, _, hsecs, hnanos⟩, ?_, by rw [toNanos_div hcount, toNanos]⟩
  have hmul : Word.mul (d.secs % count) 1000000000 = .ok (d.secs % count * 1000000000) :=
    Word.mul_eq_ok_iff.2 ⟨hcarried, rfl⟩
  have hadd : Word.add (d.secs % count * 1000000000) (d.nanos % count) =
      .ok (d.remainder count) := Word.add_eq_ok_iff.2 ⟨hremainder, rfl⟩
  have hparts : ofParts? (d.secs / count) (d.nanos / count + d.remainder count / count) =
      some ⟨_, _, hsecs, hnanos⟩ := dif_pos ⟨hsecs, hnanos⟩
  simp only [div?, Option.bind_eq_bind, Option.bind_eq_some_iff, Option.guard_eq_some', exists_const]
  exact ⟨⟨hcount, hbound⟩, _, congrArg Except.toOption hmul, _, congrArg Except.toOption hadd,
    ⟨hquotient, hword⟩, hparts⟩

/-- A count that is zero, or no 32-bit word, divides nothing. -/
theorem div?_eq_none (hcount : count = 0 ∨ countBound ≤ count) : d.div? count = none := by
  have hnot : (guard (0 < count ∧ count < countBound) : Option Unit) = none := if_neg (by omega)
  rw [div?, hnot]
  rfl

end Duration

namespace Measurement

open Duration (countBound)

variable (m : Measurement)

theorem perMessage_eq_zero (hcount : m.messages = 0 ∨ countBound ≤ m.messages) :
    m.perMessage = .zero := by
  rw [perMessage, Duration.div?_eq_none hcount]
  rfl

theorem div?_eq_perMessage (hcount : 0 < m.messages) (hbound : m.messages < countBound) :
    m.elapsed.div? m.messages = some m.perMessage ∧
      m.perMessage.toNanos = m.elapsed.toNanos / m.messages := by
  obtain ⟨q, hq, hfloor⟩ := Duration.div?_eq_some (d := m.elapsed) hcount hbound
  have hper : m.perMessage = q := by rw [perMessage, hq, Option.getD_some]
  exact ⟨hper ▸ hq, hper ▸ hfloor⟩

/-- Whatever the count, the time for each message is a quotient rounded down, or nothing. -/
theorem toNanos_perMessage : m.perMessage.toNanos =
    if m.messages < countBound then m.elapsed.toNanos / m.messages else 0 := by
  split
  · rename_i hbound
    rcases Nat.eq_zero_or_pos m.messages with hzero | hcount
    · rw [perMessage_eq_zero m (.inl hzero), hzero, Nat.div_zero]
      rfl
    · exact (div?_eq_perMessage m hcount hbound).2
  · rename_i hbound
    rw [perMessage_eq_zero m (.inr (Nat.le_of_not_lt hbound))]
    rfl

/-- What the time for each message is. -/
structure Apportioned : Prop where
  /-- A count of messages that is a 32-bit word divides what has elapsed without an overflow, and
  the result is the floor of the quotient in nanoseconds. -/
  floor : 0 < m.messages → m.messages < countBound → m.elapsed.Fits m.messages ∧
    m.elapsed.div? m.messages = some m.perMessage ∧
      m.perMessage.toNanos = m.elapsed.toNanos / m.messages
  zero : m.messages = 0 ∨ countBound ≤ m.messages → m.perMessage = .zero
  /-- All messages together took no longer than the whole. -/
  total : m.perMessage.toNanos * m.messages ≤ m.elapsed.toNanos
  /-- In a longer time each message took no less. -/
  monotone : ∀ longer, m.elapsed ≤ longer →
    m.perMessage ≤ { m with elapsed := longer }.perMessage
  /-- Of more messages in the same time each took no more. -/
  antitone : 0 < m.messages → ∀ more, m.messages ≤ more → more < countBound →
    { m with messages := more }.perMessage ≤ m.perMessage

/-- **The time for each message is the floor of the quotient**, for all counts and durations. -/
theorem perMessage_is_floor : m.Apportioned where
  floor hcount hbound := ⟨Duration.fits_of_count hcount hbound, div?_eq_perMessage m hcount hbound⟩
  zero := perMessage_eq_zero m
  total := by
    rw [toNanos_perMessage]
    split
    · exact Nat.div_mul_le_self _ _
    · rw [Nat.zero_mul]
      exact Nat.zero_le _
  monotone longer hle := by
    show m.perMessage.toNanos ≤ ({ m with elapsed := longer } : Measurement).perMessage.toNanos
    rw [toNanos_perMessage, toNanos_perMessage]
    split
    · exact Nat.div_le_div_right hle
    · exact Nat.le_refl 0
  antitone hcount more hmore hbound := by
    show ({ m with messages := more } : Measurement).perMessage.toNanos ≤ m.perMessage.toNanos
    rw [toNanos_perMessage, toNanos_perMessage, if_pos hbound,
      if_pos (Nat.lt_of_le_of_lt hmore hbound)]
    exact Nat.div_le_div_left hmore hcount

/-- Close to the ends of both ranges. -/
example : perMessage ⟨4294967295, ⟨18446744073709551614, 999999999, by decide, by decide⟩⟩ =
    ⟨4294967296, 999999999, by decide, by decide⟩ := by
  decide

end Measurement

end Lockstep
