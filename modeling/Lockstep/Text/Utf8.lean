/-!
# UTF-8 text

`Utf8.encode` is the encoding. `Utf8.decodeLossy` reads any bytes: well-formed sequences become their
characters, and every maximal part of an ill-formed one becomes a single replacement character. A
part is maximal when one byte more could no longer start a well-formed sequence, so the byte that
breaks a sequence off is read again as the start of the next.
-/

set_option autoImplicit false

namespace Lockstep.Utf8

def encodeChars (cs : List Char) : List UInt8 := cs.flatMap String.utf8EncodeChar

def encode (s : String) : List UInt8 := encodeChars s.toList

/-- U+FFFD, which stands for what cannot be read. -/
def replacement : Char := '\uFFFD'

/-- A sequence that has started: the bytes it still needs, the range of the next of them, and the
value of the bits so far. -/
structure Pending where
  owed : Nat
  low : Nat := 0x80
  high : Nat := 0xBF
  bits : Nat
  deriving Repr, DecidableEq

/-- What a byte between two characters is. -/
inductive Start where
  | char (c : Char)
  | sequence (p : Pending)
  | illFormed

/-- The ranges leave out overlong forms, surrogates and values above U+10FFFF. -/
def start (b : Nat) : Start :=
  if b < 0x80 then .char (Char.ofNat b)
  else if b < 0xC2 then .illFormed
  else if b < 0xE0 then .sequence { owed := 1, bits := b - 0xC0 }
  else if b = 0xE0 then .sequence { owed := 2, low := 0xA0, bits := 0 }
  else if b = 0xED then .sequence { owed := 2, high := 0x9F, bits := 0xD }
  else if b < 0xF0 then .sequence { owed := 2, bits := b - 0xE0 }
  else if b = 0xF0 then .sequence { owed := 3, low := 0x90, bits := 0 }
  else if b < 0xF4 then .sequence { owed := 3, bits := b - 0xF0 }
  else if b = 0xF4 then .sequence { owed := 3, high := 0x8F, bits := 4 }
  else .illFormed

/-- The characters of bytes read from between two characters (`none`) or inside a sequence. -/
def read : Option Pending → List UInt8 → List Char
  | none, [] => []
  | some _, [] => [replacement]
  | none, b :: bs =>
    match start b.toNat with
    | .char c => c :: read none bs
    | .sequence p => read (some p) bs
    | .illFormed => replacement :: read none bs
  | some p, b :: bs =>
    if p.low ≤ b.toNat ∧ b.toNat ≤ p.high then
      let bits := p.bits * 64 + (b.toNat - 0x80)
      if p.owed ≤ 1 then Char.ofNat bits :: read none bs
      else read (some { owed := p.owed - 1, bits }) bs
    else
      replacement ::
        match start b.toNat with
        | .char c => c :: read none bs
        | .sequence p => read (some p) bs
        | .illFormed => replacement :: read none bs

def decodeLossy (bytes : List UInt8) : String := String.ofList (read none bytes)

end Lockstep.Utf8
