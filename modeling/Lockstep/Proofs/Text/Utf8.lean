import Lockstep.Text.Utf8

/-!
# Reading ASCII

Lossy decoding gives an ASCII text only for the bytes that encode it: everything else that is read
gives a character above ASCII, a replacement or the end of a sequence (`Pending.Sound`).
-/

set_option autoImplicit false

namespace Lockstep.Utf8

def IsAscii (cs : List Char) : Prop := ∀ c ∈ cs, c.toNat < 0x80

instance : DecidablePred IsAscii := fun cs =>
  decidable_of_iff (cs.all (·.toNat < 0x80) = true) (by simp [IsAscii])

/-- The sequence can only end in characters above ASCII. -/
inductive Pending.Sound : Pending → Prop
  | one {bits} : 2 ≤ bits → bits < 0x360 ∨ 0x380 ≤ bits ∧ bits < 0x4400 →
      Pending.Sound { owed := 1, bits }
  | two {low high bits} : 0x80 ≤ low → high ≤ 0xBF → 2 ≤ bits * 64 + (low - 0x80) →
      bits * 64 + (high - 0x80) < 0x360 ∨
        0x380 ≤ bits * 64 + (low - 0x80) ∧ bits * 64 + (high - 0x80) < 0x4400 →
      Pending.Sound { owed := 2, low, high, bits }
  | three {low high bits} : 0x80 ≤ low → high ≤ 0xBF → 0x10 ≤ bits * 64 + (low - 0x80) →
      bits * 64 + (high - 0x80) < 0x110 → Pending.Sound { owed := 3, low, high, bits }

variable {b : Nat} {p : Pending} {c : Char} {cs : List Char} {bytes : List UInt8}

theorem encodeChars_cons_of_lt (hc : c.toNat < 0x80) (cs : List Char) :
    encodeChars (c :: cs) = UInt8.ofNat c.toNat :: encodeChars cs := by
  have hle : c.val.toNat ≤ 127 := Nat.le_of_lt_succ hc
  rw [encodeChars, List.flatMap_cons, String.utf8EncodeChar]
  simp only [if_pos hle]
  rfl

theorem toNat_ofNat {n : Nat} (hn : n.isValidChar) : (Char.ofNat n).toNat = n := by
  rw [Char.ofNat, dif_pos hn]
  rfl

/-! ## Sequences -/

/-- A byte that starts a sequence announces a character above ASCII. -/
theorem sound_of_start (hs : start b = .sequence p) : p.Sound := by
  unfold start at hs
  repeat' split at hs
  all_goals cases hs
  · exact .one (by omega) (by omega)
  · exact .two (by omega) (by omega) (by omega) (by omega)
  · exact .two (by omega) (by omega) (by omega) (by omega)
  · exact .two (by omega) (by omega) (by omega) (by omega)
  · exact .three (by omega) (by omega) (by omega) (by omega)
  · exact .three (by omega) (by omega) (by omega) (by omega)
  · exact .three (by omega) (by omega) (by omega) (by omega)

section
variable (hp : p.Sound) (hlow : p.low ≤ b) (hhigh : b ≤ p.high)
include hp hlow hhigh

/-- So does the rest of a sequence after a byte of it. -/
theorem Pending.Sound.next (howed : ¬ p.owed ≤ 1) :
    Pending.Sound { owed := p.owed - 1, bits := p.bits * 64 + (b - 0x80) } := by
  cases hp with
  | one => exact absurd (Nat.le_refl 1) howed
  | two h1 h2 h3 h4 =>
    simp only at hlow hhigh ⊢
    exact .one (by omega) (by omega)
  | three h1 h2 h3 h4 =>
    simp only at hlow hhigh ⊢
    exact .two (by omega) (by omega) (by omega) (by omega)

/-- The last byte of a sequence makes a character above ASCII. -/
theorem Pending.Sound.last (howed : p.owed ≤ 1) :
    0x80 ≤ (Char.ofNat (p.bits * 64 + (b - 0x80))).toNat := by
  cases hp with
  | @one bits h1 h2 =>
    simp only at hlow hhigh ⊢
    have hvalid : (bits * 64 + (b - 0x80)).isValidChar := by
      rcases h2 with h2 | h2
      · exact .inl (by omega)
      · exact .inr (by omega)
    rw [toNat_ofNat hvalid]
    omega
  | two | three => exact absurd howed (by simp)

end

theorem replacement_toNat : 0x80 ≤ replacement.toNat := by decide

/-- What comes of a sequence begins with a character above ASCII. -/
theorem exists_of_read_some (hp : p.Sound) (bytes : List UInt8) :
    ∃ c cs, read (some p) bytes = c :: cs ∧ 0x80 ≤ c.toNat := by
  induction bytes generalizing p with
  | nil => exact ⟨replacement, [], rfl, replacement_toNat⟩
  | cons b bytes ih =>
    simp only [read]
    split
    · rename_i hrange
      split
      · rename_i howed
        exact ⟨_, _, rfl, hp.last hrange.1 hrange.2 howed⟩
      · rename_i howed
        exact ih (hp.next hrange.1 hrange.2 howed)
    · exact ⟨replacement, _, rfl, replacement_toNat⟩

/-! ## Characters -/

theorem eq_ofNat_of_start {b : UInt8} (hs : start b.toNat = .char c) :
    b = UInt8.ofNat c.toNat ∧ c.toNat < 0x80 := by
  unfold start at hs
  repeat' split at hs
  all_goals cases hs
  rename_i hlt
  have hvalid : b.toNat.isValidChar := .inl (by omega)
  rw [toNat_ofNat hvalid]
  exact ⟨UInt8.ofNat_toNat.symm, hlt⟩

theorem start_of_lt (hc : c.toNat < 0x80) : start (UInt8.ofNat c.toNat).toNat = .char c := by
  have hbyte : (UInt8.ofNat c.toNat).toNat = c.toNat := by
    rw [UInt8.toNat_ofNat']
    omega
  rw [hbyte, start, if_pos hc, Char.ofNat_toNat]

theorem read_encodeChars (hcs : IsAscii cs) : read none (encodeChars cs) = cs := by
  induction cs with
  | nil => rfl
  | cons c cs ih =>
    have hc := hcs c List.mem_cons_self
    rw [encodeChars_cons_of_lt hc, read, start_of_lt hc]
    exact congrArg (c :: ·) (ih fun c hm => hcs c (List.mem_cons_of_mem _ hm))

theorem eq_encodeChars_of_read (hcs : IsAscii cs) (hread : read none bytes = cs) :
    bytes = encodeChars cs := by
  induction bytes generalizing cs with
  | nil =>
    obtain rfl : [] = cs := hread
    rfl
  | cons b bytes ih =>
    have hnot {c : Char} {rest : List Char} (heq : c :: rest = cs) : ¬ 0x80 ≤ c.toNat :=
      Nat.not_le_of_lt (hcs c (heq ▸ List.mem_cons_self))
    rw [read] at hread
    cases hs : start b.toNat with
    | char c =>
      rw [hs] at hread
      obtain rfl : c :: read none bytes = cs := hread
      obtain ⟨hb, hc⟩ := eq_ofNat_of_start hs
      rw [encodeChars_cons_of_lt hc, ← hb,
        ← ih (fun c hm => hcs c (List.mem_cons_of_mem _ hm)) rfl]
    | sequence p =>
      rw [hs] at hread
      obtain ⟨c, rest, heq, hc⟩ := exists_of_read_some (sound_of_start hs) bytes
      exact absurd hc (hnot (heq.symm.trans hread))
    | illFormed =>
      rw [hs] at hread
      exact absurd replacement_toNat (hnot hread)

/-- Only the encoding of an ASCII text is read as this text. -/
theorem decodeLossy_eq_iff {s : String} (hs : IsAscii s.toList) :
    decodeLossy bytes = s ↔ bytes = encode s := by
  rw [decodeLossy, encode]
  refine ⟨?_, ?_⟩
  · rintro rfl
    rw [String.toList_ofList] at hs ⊢
    exact eq_encodeChars_of_read hs rfl
  · rintro rfl
    rw [read_encodeChars hs, String.ofList_toList]

end Lockstep.Utf8
