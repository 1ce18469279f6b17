import Lockstep.Proofs.Scenario.Messages
import Lockstep.Proofs.Scenario.Verdicts

/-!
# Reading the messages of a scenario

`Message.read?` reads a text: the kind of the sender, its number up to the comma, and the index after
the word that follows. A number is read only if it has no zero too many, so exactly the texts of
messages are read, each as the message it is of (`Message.read?_eq_some_iff`). It follows that no two
of the messages that a server expects have one text, however many there are.
-/

set_option autoImplicit false

namespace Lockstep.Scenario

variable {cs ds : List Char} {i k n : Nat} {m : Message} {text : String}

/-! ## Numbers -/

/-- Digits, the first of them a zero only where it is the whole number. -/
def IsNumeral (cs : List Char) : Prop :=
  cs ≠ [] ∧ (∀ c ∈ cs, c.isDigit = true) ∧ (cs.head? = some '0' → cs = ['0'])

instance : DecidablePred IsNumeral := fun cs =>
  inferInstanceAs (Decidable (cs ≠ [] ∧ (∀ c ∈ cs, c.isDigit = true) ∧
    (cs.head? = some '0' → cs = ['0'])))

def number? (cs : List Char) : Option Nat :=
  if IsNumeral cs then some (Nat.ofDigitChars 10 cs 0) else none

theorem isNumeral_toDigits (n : Nat) : IsNumeral (Nat.toDigits 10 n) := by
  refine ⟨Nat.toDigits_ne_nil, fun c hc => Nat.isDigit_of_mem_toDigits (by decide) (by decide) hc,
    ?_⟩
  induction n using Nat.strongRecOn with
  | ind n ih =>
    intro hzero
    by_cases hlt : n < 10
    · rw [Nat.toDigits_of_lt_base hlt] at hzero ⊢
      exact congrArg ([·]) (Option.some.inj hzero)
    · -- the leading digits are those of a tenth of it, which is not zero
      have hpos : 0 < n / 10 := Nat.div_pos (Nat.le_of_not_lt hlt) (by decide)
      have hsplit := Nat.toDigits_append_toDigits (b := 10) (by decide) hpos
        (Nat.mod_lt n (by decide))
      rw [Nat.div_add_mod] at hsplit
      rw [← hsplit, List.head?_append_of_ne_nil _ Nat.toDigits_ne_nil] at hzero
      have htenth := ih (n / 10) (by omega) hzero
      have hvalue := congrArg (Nat.ofDigitChars 10 · 0) htenth
      rw [Nat.ofDigitChars_ten_toDigits] at hvalue
      exact absurd hvalue (Nat.ne_of_gt hpos)

/-- Nothing follows a zero, so what comes before a last digit is a numeral that is not zero. -/
theorem IsNumeral.init {c : Char} (hn : IsNumeral (cs ++ [c])) (hne : cs ≠ []) :
    IsNumeral cs ∧ cs ≠ ['0'] := by
  obtain ⟨-, hdigits, hzero⟩ := hn
  have hhead : cs.head? ≠ some '0' := by
    intro hhead
    have hsingle := hzero (by rw [List.head?_append_of_ne_nil cs hne, hhead])
    rcases List.append_eq_singleton_iff.1 hsingle with ⟨hnil, -⟩ | ⟨-, hnil⟩
    · exact hne hnil
    · cases hnil
  refine ⟨⟨hne, fun d hd => hdigits d (List.mem_append_left [c] hd), fun h => absurd h hhead⟩, ?_⟩
  rintro rfl
  exact hhead rfl

theorem toDigits_digit {c : Char} (hc : c.isDigit = true) :
    Nat.toDigits 10 (c.toNat - '0'.toNat) = [c] ∧ c.toNat - '0'.toNat < 10 := by
  simp only [Char.isDigit, Bool.and_eq_true, decide_eq_true_eq] at hc
  have hge : 48 ≤ c.toNat := UInt32.le_iff_toNat_le.1 hc.1
  have hle : c.toNat ≤ 57 := UInt32.le_iff_toNat_le.1 hc.2
  have hlt : c.toNat - '0'.toNat < 10 := by
    show c.toNat - 48 < 10
    omega
  refine ⟨?_, hlt⟩
  rw [Nat.toDigits_of_lt_base hlt]
  refine congrArg ([·]) (Char.toNat_inj.1 ?_)
  rw [Nat.toNat_digitChar_of_lt_ten hlt]
  exact Nat.add_sub_cancel' hge

/-- A numeral is the one of its number. -/
theorem IsNumeral.toDigits_eq (hn : IsNumeral cs) :
    Nat.toDigits 10 (Nat.ofDigitChars 10 cs 0) = cs := by
  induction cs using List.reverseRecOn with
  | nil => exact absurd rfl hn.1
  | append_singleton cs c ih =>
    obtain ⟨hdigit, hlt⟩ := toDigits_digit (hn.2.1 c (List.mem_append_right cs List.mem_cons_self))
    rw [Nat.ofDigitChars_append, Nat.ofDigitChars_cons, Nat.ofDigitChars_nil]
    by_cases hne : cs = []
    · subst hne
      rw [Nat.ofDigitChars_nil, Nat.mul_zero, Nat.zero_add, hdigit]
      rfl
    · obtain ⟨hinit, hzero⟩ := hn.init hne
      have hcs := ih hinit
      have hpos : 0 < Nat.ofDigitChars 10 cs 0 := by
        refine Nat.pos_of_ne_zero fun hvalue => hzero ?_
        rw [← hcs, hvalue]
        rfl
      rw [← Nat.toDigits_append_toDigits (by decide) hpos hlt, hcs, hdigit]

theorem number?_eq_some_iff : number? cs = some n ↔ cs = Nat.toDigits 10 n := by
  unfold number?
  constructor
  · intro hread
    split at hread
    · rename_i hn
      rw [← Option.some.inj hread, hn.toDigits_eq]
    · cases hread
  · rintro rfl
    rw [if_pos (isNumeral_toDigits n), Nat.ofDigitChars_ten_toDigits]

/-! ## Texts -/

/-- The two numbers that follow the kind of the sender. -/
def numbers? (cs : List Char) : Option (Nat × Nat) := do
  let i ← number? (cs.takeWhile (· ≠ ','))
  let rest ← ", broadcast ".toList.isPrefixOf? (cs.dropWhile (· ≠ ','))
  let k ← number? rest
  return (i, k)

/-- Reads the messages of the participants of one kind. -/
def Message.readAs? (kind : String) (party : Nat → Party) (text : String) : Option Message := do
  let rest ← kind.toList.isPrefixOf? text.toList
  let (i, k) ← numbers? rest
  return ⟨party i, k⟩

def Message.read? (text : String) : Option Message :=
  (readAs? "client #" .client text).or (readAs? "server #" .server text)

/-- The comma ends the first number, since no number has one. -/
theorem numbers?_eq_some_iff : numbers? cs = some (i, k) ↔
    cs = (toString i).toList ++ (", broadcast ".toList ++ (toString k).toList) := by
  have hcomma : ∀ c ∈ (toString i).toList, decide (c ≠ ',') = true := by
    intro c hc
    exact decide_eq_true fun heq => comma_notMem_toString i (heq ▸ hc)
  simp only [numbers?, Option.bind_eq_bind, Option.bind_eq_some_iff, Option.pure_def,
    Option.some.injEq, Prod.mk.injEq, List.isPrefixOf?_eq_some_iff_append_eq, number?_eq_some_iff]
  constructor
  · rintro ⟨i, hi, rest, hrest, k, rfl, rfl, rfl⟩
    rw [toList_toString, toList_toString, hrest, ← hi]
    exact (List.takeWhile_append_dropWhile).symm
  · rintro rfl
    refine ⟨i, ?_, (toString k).toList, ?_, k, toList_toString k, rfl, rfl⟩
    · rw [List.takeWhile_append_of_pos hcomma, ← toList_toString i]
      exact List.append_nil _
    · rw [List.dropWhile_append_of_pos hcomma]
      rfl

theorem Message.readAs?_eq_some_iff {kind : String} {party : Nat → Party} :
    readAs? kind party text = some m ↔
      ∃ i k, text = kind ++ toString i ++ ", broadcast " ++ toString k ∧ m = ⟨party i, k⟩ := by
  simp only [readAs?, Option.bind_eq_bind, Option.bind_eq_some_iff, Option.pure_def,
    Option.some.injEq, List.isPrefixOf?_eq_some_iff_append_eq]
  constructor
  · rintro ⟨rest, htext, ⟨i, k⟩, hnumbers, rfl⟩
    rw [numbers?_eq_some_iff.1 hnumbers] at htext
    refine ⟨i, k, String.toList_injective ?_, rfl⟩
    simpa using htext.symm
  · rintro ⟨i, k, rfl, rfl⟩
    refine ⟨_, ?_, (i, k), numbers?_eq_some_iff.2 rfl, rfl⟩
    simp

/-- **Exactly the texts of messages are read, each as its message.** -/
theorem Message.read?_eq_some_iff : read? text = some m ↔ text = m.text := by
  rw [read?, Option.or_eq_some_iff, readAs?_eq_some_iff, readAs?_eq_some_iff]
  constructor
  · rintro (⟨i, k, rfl, rfl⟩ | ⟨-, j, k, rfl, rfl⟩)
    · rfl
    · rfl
  · rintro rfl
    obtain ⟨sender, k⟩ := m
    cases sender with
    | client i => exact .inl ⟨i, k, rfl, rfl⟩
    | server j =>
      refine .inr ⟨?_, j, k, rfl, rfl⟩
      -- a text of both kinds would be that of two messages
      refine Option.eq_none_iff_forall_ne_some.2 fun m hread => ?_
      obtain ⟨i, l, htext, -⟩ := readAs?_eq_some_iff.1 hread
      have hsame : Message.text ⟨.server j, k⟩ = Message.text ⟨.client i, l⟩ := htext
      cases text_injective hsame

/-! ## The expected texts -/

/-- The participants of a scenario. -/
def Config.Has (c : Config) : Party → Prop
  | .client i => i < c.clients
  | .server j => j < c.servers

theorem mem_expected_iff {c : Config} :
    m ∈ c.expected ↔ c.Has m.sender ∧ m.index < c.messages := by
  simp only [Config.expected, List.mem_append, List.mem_flatMap, List.mem_range, mem_messagesOf]
  constructor
  · rintro (⟨i, hi, hsender, hk⟩ | ⟨j, hj, hsender, hk⟩)
    · exact ⟨hsender ▸ hi, hk⟩
    · exact ⟨hsender ▸ hj, hk⟩
  · rintro ⟨hsender, hk⟩
    cases hparty : m.sender with
    | client i =>
      rw [hparty] at hsender
      exact .inl ⟨i, hsender, rfl, hk⟩
    | server j =>
      rw [hparty] at hsender
      exact .inr ⟨j, hsender, rfl, hk⟩

theorem mem_texts_iff {c : Config} : text ∈ c.expected.map Message.text ↔
    ∃ m, Message.read? text = some m ∧ c.Has m.sender ∧ m.index < c.messages := by
  rw [List.mem_map]
  constructor
  · rintro ⟨m, hm, rfl⟩
    exact ⟨m, Message.read?_eq_some_iff.2 rfl, mem_expected_iff.1 hm⟩
  · rintro ⟨m, hread, hm⟩
    exact ⟨m, mem_expected_iff.2 hm, (Message.read?_eq_some_iff.1 hread).symm⟩

/-- **The messages of a scenario are unambiguous**: a text says of which kind its sender is, and gives
both numbers, and it can be read. So the texts that a server expects are as many as the participants
have messages, all of them different, and a server that is handed each of them once is satisfied,
whatever their order. -/
theorem messages_unambiguous :
    (∀ a b i j, Message.text ⟨.client a, i⟩ = Message.text ⟨.client b, j⟩ ↔ a = b ∧ i = j) ∧
    (∀ a b i j, Message.text ⟨.server a, i⟩ = Message.text ⟨.server b, j⟩ ↔ a = b ∧ i = j) ∧
    (∀ a b i j, Message.text ⟨.client a, i⟩ ≠ Message.text ⟨.server b, j⟩) ∧
    (∀ text m, Message.read? text = some m ↔ text = m.text) ∧
    ∀ c : Config,
      let texts := c.expected.map Message.text
      texts.length = (c.clients + c.servers) * c.messages ∧ texts.Nodup ∧
      (∀ text, text ∈ texts ↔
        ∃ m, Message.read? text = some m ∧ c.Has m.sender ∧ m.index < c.messages) ∧
      ∀ queue, Verifier.verify c { wanted := texts.length } queue = .ok () ↔
        (queue.take texts.length).Perm (c.expected.map Message.bytes) := by
  have hinj (m m' : Message) : m.text = m'.text ↔ m.sender = m'.sender ∧ m.index = m'.index := by
    rw [Message.text_injective.eq_iff, Message.mk.injEq]
  refine ⟨fun a b i j => ?_, fun a b i j => ?_, fun a b i j hsame => ?_,
    fun text m => Message.read?_eq_some_iff, fun c => ?_⟩
  · rw [hinj, Party.client.injEq]
  · rw [hinj, Party.server.injEq]
  · cases Message.text_injective hsame
  · intro texts
    have hlength : texts.length = c.expected.length := List.length_map Message.text
    refine ⟨hlength.trans (length_expected c), nodup_texts c, fun text => mem_texts_iff,
      fun queue => ?_⟩
    rw [verify_eq_verdict]
    exact verdict_eq_ok_iff hlength.symm

end Lockstep.Scenario
