import Mathlib.Data.List.Nodup
import Lockstep.Proofs.Text.Utf8
import Lockstep.Scenario.Message

/-!
# The messages of a scenario are told apart

The text of a message is ASCII and says which message it is (`Message.text_injective`), so the
expected messages are all different (`nodup_expected`), and of all bytes only those of a message are
read as its text (`decodeLossy_eq_text_iff`).
-/

set_option autoImplicit false

namespace Lockstep.Scenario

open Utf8

variable {c : Config} {m m' : Message}

/-! ## Texts -/

theorem toList_toString (n : Nat) : (toString n).toList = Nat.toDigits 10 n := Nat.toList_repr

theorem toString_injective {n m : Nat} (h : (toString n).toList = (toString m).toList) : n = m := by
  have hdigits := congrArg (Nat.ofDigitChars 10 · 0) h
  simpa [toList_toString] using hdigits

theorem isAscii_toString (n : Nat) : IsAscii (toString n).toList := by
  intro c hc
  rw [toList_toString] at hc
  have hdigit := Nat.isDigit_of_mem_toDigits (by decide) (by decide) hc
  simp only [Char.isDigit, Bool.and_eq_true, decide_eq_true_eq] at hdigit
  exact Nat.lt_of_le_of_lt (UInt32.le_iff_toNat_le.1 hdigit.2) (by decide)

theorem comma_notMem_toString (n : Nat) : ',' ∉ (toString n).toList := by
  intro hc
  rw [toList_toString] at hc
  have hdigit := Nat.isDigit_of_mem_toDigits (by decide) (by decide) hc
  exact absurd hdigit (by decide)

/-- The two numbers in a text are told apart. -/
theorem numbers_inj {kind : String} {i j k l : Nat}
    (htext : kind ++ toString i ++ ", broadcast " ++ toString k =
      kind ++ toString j ++ ", broadcast " ++ toString l) : i = j ∧ k = l := by
  have hlist := congrArg String.toList htext
  simp only [String.toList_append, List.append_assoc] at hlist
  have hlist := List.append_cancel_left hlist
  have hrest : ',' ∉ " broadcast ".toList ++ (toString k).toList := by
    rw [List.mem_append, not_or]
    exact ⟨by decide, comma_notMem_toString k⟩
  obtain ⟨hi, -, hk⟩ :=
    (List.append_cons_inj_of_notMem (comma_notMem_toString i) hrest).1 hlist
  have hk := List.append_cancel_left hk
  exact ⟨toString_injective hi, toString_injective hk⟩

/-- **A text says which message it is.** -/
theorem Message.text_injective : Function.Injective Message.text := by
  rintro ⟨sender, i⟩ ⟨sender', j⟩ htext
  cases sender with
  | client a =>
    cases sender' with
    | client b =>
      obtain ⟨rfl, rfl⟩ := numbers_inj htext
      rfl
    | server b => exact absurd (congrArg (·.toList.head?) htext) (by simp [text])
  | server a =>
    cases sender' with
    | client b => exact absurd (congrArg (·.toList.head?) htext) (by simp [text])
    | server b =>
      obtain ⟨rfl, rfl⟩ := numbers_inj htext
      rfl

theorem Message.isAscii_text (m : Message) : IsAscii m.text.toList := by
  have hall (kind : String) (hkind : IsAscii kind.toList) (i k : Nat) :
      IsAscii (kind ++ toString i ++ ", broadcast " ++ toString k).toList := by
    intro c hc
    simp only [String.toList_append, List.mem_append] at hc
    rcases hc with ((hc | hc) | hc) | hc
    · exact hkind c hc
    · exact isAscii_toString i c hc
    · exact (by decide : IsAscii ", broadcast ".toList) c hc
    · exact isAscii_toString k c hc
  obtain ⟨sender, k⟩ := m
  cases sender with
  | client i => exact hall "client #" (by decide) i k
  | server j => exact hall "server #" (by decide) j k

/-- Of all bytes, only those of the message are read as its text. -/
theorem decodeLossy_eq_text_iff {bytes : List UInt8} :
    decodeLossy bytes = m.text ↔ bytes = m.bytes :=
  decodeLossy_eq_iff m.isAscii_text

/-! ## The expected messages -/

theorem mem_messagesOf {sender : Party} :
    m ∈ c.messagesOf sender ↔ m.sender = sender ∧ m.index < c.messages := by
  obtain ⟨s, k⟩ := m
  simp only [Config.messagesOf, List.mem_map, List.mem_range, Message.mk.injEq]
  refine ⟨?_, ?_⟩
  · rintro ⟨k, hk, rfl, rfl⟩
    exact ⟨rfl, hk⟩
  · rintro ⟨rfl, hk⟩
    exact ⟨k, hk, rfl, rfl⟩

theorem length_expected (c : Config) :
    c.expected.length = (c.clients + c.servers) * c.messages := by
  simp [Config.expected, Config.messagesOf, List.length_flatMap, Nat.add_mul]

/-- As many deliveries are expected as there are messages. -/
theorem length_eq_of_expectedDeliveries {n : Nat} (hn : c.expectedDeliveries = .ok n) :
    c.expected.length = n := by
  rw [Config.expectedDeliveries, Config.participants] at hn
  cases hsum : Word.add c.clients c.servers with
  | error fault =>
    rw [hsum] at hn
    cases hn
  | ok k =>
    rw [hsum] at hn
    obtain ⟨-, rfl⟩ := Word.add_eq_ok_iff.1 hsum
    exact (length_expected c).trans (Word.mul_eq_ok_iff.1 hn).2

theorem nodup_messagesOf (c : Config) (sender : Party) : (c.messagesOf sender).Nodup :=
  List.nodup_range.map fun _ _ heq => (Message.mk.inj heq).2

/-- **The expected messages are all different.** -/
theorem nodup_expected (c : Config) : c.expected.Nodup := by
  have hgroup (party : Nat → Party) (hparty : Function.Injective party) (n : Nat) :
      ((List.range n).flatMap fun i => c.messagesOf (party i)).Nodup := by
    refine List.nodup_flatMap.2 ⟨fun i _ => nodup_messagesOf c _, ?_⟩
    refine List.nodup_range.imp fun hne m hm hm' => hne (hparty ?_)
    exact (mem_messagesOf.1 hm).1.symm.trans (mem_messagesOf.1 hm').1
  refine List.nodup_append.2 ⟨hgroup .client (fun _ _ => Party.client.inj) _,
    hgroup .server (fun _ _ => Party.server.inj) _, ?_⟩
  intro m hm m' hm' heq
  obtain ⟨i, -, hclient⟩ := List.mem_flatMap.1 hm
  obtain ⟨j, -, hserver⟩ := List.mem_flatMap.1 hm'
  have hsender := (mem_messagesOf.1 hclient).1.symm.trans
    ((congrArg Message.sender heq).trans (mem_messagesOf.1 hserver).1)
  cases hsender

end Lockstep.Scenario
