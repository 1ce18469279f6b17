import Lockstep.Duration

/-!
# Clocks

An `Instant` is what a clock shows: the seconds since it was started, in a word with a sign, and the
nanoseconds below one second. `Instant.add` is the instant so much later, where a clock could show it
(`Instant.exists_add_iff`). A `Clock` is a list of readings, each taken no earlier than the one before.
-/

set_option autoImplicit false

namespace Lockstep

structure Instant where
  secs : Nat
  nanos : Nat
  secs_le : secs ≤ Word.signedMax
  nanos_lt : nanos < 1000000000
  deriving Repr

namespace Instant

/-- The instant of these parts, the nanoseconds being below one second. -/
def ofParts (secs nanos : Nat) (h : nanos < 1000000000) : Except Fault Instant :=
  if hsecs : secs ≤ Word.signedMax then .ok ⟨secs, nanos, hsecs, h⟩ else .error .deadline

def zero : Instant := ⟨0, 0, Nat.zero_le _, Duration.zero.nanos_lt⟩

/-- The nanoseconds since the clock was started. -/
def toNanos (t : Instant) : Nat := t.secs * 1000000000 + t.nanos

/-- The instant that is `d` later. The nanoseconds may make up one more second. -/
def add (t : Instant) (d : Duration) : Except Fault Instant :=
  if h : t.nanos + d.nanos < 1000000000 then ofParts (t.secs + d.secs) (t.nanos + d.nanos) h
  else
    ofParts (t.secs + d.secs + 1) (t.nanos + d.nanos - 1000000000)
      (by have := t.nanos_lt; have := d.nanos_lt; omega)

theorem add_eq_error {t : Instant} {d : Duration} {fault : Fault} (he : t.add d = .error fault) :
    fault = .deadline := by
  have hparts {secs nanos : Nat} {h : nanos < 1000000000}
      (he : ofParts secs nanos h = .error fault) : fault = .deadline := by
    unfold ofParts at he
    split at he
    · cases he
    · exact (Except.error.inj he).symm
  unfold add at he
  split at he <;> exact hparts he

theorem exists_ofParts_iff {secs nanos : Nat} {h : nanos < 1000000000} :
    (∃ t, ofParts secs nanos h = .ok t) ↔ secs ≤ Word.signedMax := by
  unfold ofParts
  split
  · rename_i hsecs
    exact iff_of_true ⟨_, rfl⟩ hsecs
  · rename_i hsecs
    exact iff_of_false nofun hsecs

theorem exists_add_iff {t : Instant} {d : Duration} : (∃ u, t.add d = .ok u) ↔
    t.toNanos + d.toNanos < (Word.signedMax + 1) * 1000000000 := by
  have ht := t.nanos_lt
  have hd := d.nanos_lt
  unfold add toNanos Duration.toNanos
  split <;> rw [exists_ofParts_iff] <;> omega

end Instant

structure Clock where
  reading : Nat → Instant
  mono : ∀ i j, i ≤ j → (reading i).toNanos ≤ (reading j).toNanos

namespace Clock

/-- A clock that shows the same all the time. -/
def still (t : Instant) : Clock := ⟨fun _ => t, fun _ _ _ => Nat.le_refl _⟩

/-- The readings but the first `n`. -/
def drop (c : Clock) (n : Nat) : Clock :=
  ⟨fun k => c.reading (n + k), fun _ _ h => c.mono _ _ (Nat.add_le_add_left h n)⟩

end Clock

end Lockstep
