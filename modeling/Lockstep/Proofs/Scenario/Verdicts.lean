import Mathlib.Data.List.Perm.Subperm
import Lockstep.Proofs.Runs
import Lockstep.Proofs.Scenario.ExactlyOnce
import Lockstep.Proofs.Scenario.Progress
import Lockstep.Proofs.Scenario.Verification

/-!
# The verdict of a server on its deliveries

`verdict c n texts` says in closed form what a server finds that wants `n` messages and is to receive
these texts: a text that comes again before the `n`-th is a duplicate, wherever it comes; then there
may be too few; then the first expected text may be missing. `verify_eq_verdict` says that verification
finds this, and `verdict_eq_ok_iff` that only the expected messages pass, byte for byte and in any
order. `Deciding` carries this over to the steps by which a server verifies.
-/

set_option autoImplicit false

namespace Lockstep.Scenario

open Medium Barrier

/-- The first text that came before. -/
def firstRepeat? (texts : List String) : Option String :=
  (texts.zipIdx.find? fun (text, k) => text ∈ texts.take k).map (·.1)

/-- What a server finds that wants `n` messages and is to receive these texts, and no more. -/
def verdict (c : Config) (n : Nat) (texts : List String) : Except ParticipantError Unit :=
  match firstRepeat? (texts.take n) with
  | some text => .error (.duplicate text)
  | none =>
    if texts.length < n then .error .receiveTimeout
    else
      match (c.expected.map Message.text).find? (· ∉ texts.take n) with
      | some text => .error (.notFound text)
      | none => .ok ()

variable {c : Config} {n : Nat} {seen texts : List String} {text : String} {queue : List Payload}

/-! ## Repetitions -/

theorem not_mem_take_of_nodup {k : Nat} (hnodup : texts.Nodup) (hget : texts[k]? = some text) :
    text ∉ texts.take k := by
  obtain ⟨hlt, rfl⟩ := List.getElem?_eq_some_iff.1 hget
  have hsplit := hnodup
  rw [← List.take_append_drop k texts, List.drop_eq_getElem_cons hlt] at hsplit
  intro hmem
  exact (List.nodup_append.1 hsplit).2.2 _ hmem _ List.mem_cons_self rfl

theorem find?_zipIdx_of_nodup (hnodup : seen.Nodup) (rest : List String) :
    seen.zipIdx.find? (fun (text, k) => text ∈ (seen ++ rest).take k) = none := by
  refine List.find?_eq_none.2 fun ⟨text, k⟩ hmem => ?_
  have hget := List.mem_zipIdx_iff_getElem?.1 hmem
  have hle : k ≤ seen.length := Nat.le_of_lt (List.getElem?_eq_some_iff.1 hget).1
  simpa [List.take_append_of_le_length hle] using not_mem_take_of_nodup hnodup hget

theorem firstRepeat?_of_nodup (hnodup : texts.Nodup) : firstRepeat? texts = none := by
  have hnone := find?_zipIdx_of_nodup hnodup []
  rw [List.append_nil] at hnone
  rw [firstRepeat?, hnone]
  rfl

theorem firstRepeat?_append (hnodup : seen.Nodup) (hmem : text ∈ seen) (rest : List String) :
    firstRepeat? (seen ++ text :: rest) = some text := by
  have hnone := find?_zipIdx_of_nodup hnodup (text :: rest)
  rw [firstRepeat?, List.zipIdx_append, List.find?_append, hnone, Option.none_or, List.zipIdx_cons,
    List.find?_cons_of_pos (by simpa using hmem)]
  rfl

theorem nodup_of_firstRepeat? (hnone : firstRepeat? texts = none) : texts.Nodup := by
  refine List.pairwise_iff_getElem.2 fun i j hi hj hlt heq => ?_
  have hentry : (texts[j], j) ∈ texts.zipIdx :=
    List.mem_zipIdx_iff_getElem?.2 (List.getElem?_eq_getElem hj)
  have hnot := List.find?_eq_none.1 (Option.map_eq_none_iff.1 hnone) _ hentry
  have hmem : texts[j] ∈ texts.take j :=
    List.mem_take_iff_getElem.2 ⟨i, Nat.lt_min.2 ⟨hlt, hi⟩, heq⟩
  exact hnot (decide_eq_true hmem)

/-! ## One message at a time -/

theorem verdict_of_full (hnodup : seen.Nodup) (hfull : seen.length = n) (rest : List String) :
    verdict c n (seen ++ rest) =
      match (c.expected.map Message.text).find? (· ∉ seen) with
      | some text => .error (.notFound text)
      | none => .ok () := by
  have htake : (seen ++ rest).take n = seen := List.take_left' hfull
  have hle : ¬ (seen ++ rest).length < n := by
    rw [List.length_append]
    omega
  rw [verdict, htake, firstRepeat?_of_nodup hnodup]
  simp only [if_neg hle]

theorem verdict_of_short (hnodup : seen.Nodup) (hshort : seen.length < n) :
    verdict c n seen = .error .receiveTimeout := by
  rw [verdict, List.take_of_length_le (Nat.le_of_lt hshort), firstRepeat?_of_nodup hnodup]
  exact if_pos hshort

theorem verdict_of_repeat (hnodup : seen.Nodup) (hmem : text ∈ seen) (hlt : seen.length < n)
    (rest : List String) :
    verdict c n (seen ++ text :: rest) = .error (.duplicate text) := by
  obtain ⟨d, rfl⟩ : ∃ d, n = seen.length + (d + 1) := ⟨n - seen.length - 1, by omega⟩
  have htake : (seen ++ text :: rest).take (seen.length + (d + 1)) = seen ++ text :: rest.take d := by
    rw [List.take_length_add_append, List.take_succ_cons]
  rw [verdict, htake, firstRepeat?_append hnodup hmem]

/-- What was checked off does not matter for the different texts that follow. -/
theorem checkOff_eq {expected all : List String} (hnodup : expected.Nodup)
    (hsame : ∀ text ∈ expected, text ∈ seen ↔ text ∈ all) :
    Verifier.checkOff expected seen =
      match expected.find? (· ∉ all) with
      | some text => .error (.notFound text)
      | none => .ok () := by
  induction expected generalizing seen with
  | nil => rfl
  | cons text expected ih =>
    obtain ⟨hnew, hnodup⟩ := List.nodup_cons.1 hnodup
    have hfirst := hsame text List.mem_cons_self
    rw [Verifier.checkOff]
    by_cases hmem : text ∈ seen
    · -- the texts that follow differ from the one that is checked off
      have hrest : ∀ other ∈ expected, other ∈ seen.erase text ↔ other ∈ all := fun other hother => by
        have hne : other ≠ text := fun heq => hnew (heq ▸ hother)
        rw [List.mem_erase_of_ne hne]
        exact hsame other (List.mem_cons_of_mem _ hother)
      rw [if_pos hmem, ih hnodup hrest, List.find?_cons_of_neg (by simpa using hfirst.1 hmem)]
    · rw [if_neg hmem, List.find?_cons_of_pos (by simpa using mt hfirst.2 hmem)]

theorem nodup_texts (c : Config) : (c.expected.map Message.text).Nodup :=
  (nodup_expected c).map Message.text_injective

theorem verify_eq_of_full (hnodup : seen.Nodup) (queue : List Payload) :
    Verifier.verify c { wanted := 0, seen := seen.reverse } queue =
      verdict c seen.length (seen ++ queue.map Utf8.decodeLossy) := by
  rw [verdict_of_full hnodup rfl, Verifier.verify_of_wanted rfl]
  exact checkOff_eq (nodup_texts c) fun _ _ => List.mem_reverse

/-- However far the server has come, it comes to the verdict on all texts. -/
theorem verify_eq_of_seen (hnodup : seen.Nodup) (queue : List Payload) :
    Verifier.verify c { wanted := n, seen := seen.reverse } queue =
      verdict c (seen.length + n) (seen ++ queue.map Utf8.decodeLossy) := by
  induction queue generalizing n seen with
  | nil =>
    cases n with
    | zero => exact verify_eq_of_full hnodup []
    | succ n =>
      rw [List.map_nil, List.append_nil, Verifier.verify_nil (Nat.succ_ne_zero n)]
      exact (verdict_of_short hnodup (by omega)).symm
  | cons m queue ih =>
    cases n with
    | zero => exact verify_eq_of_full hnodup (m :: queue)
    | succ n =>
      rw [List.map_cons]
      by_cases hmem : Utf8.decodeLossy m ∈ seen
      · rw [verdict_of_repeat hnodup hmem (by omega)]
        exact Verifier.verify_of_reject (Nat.succ_ne_zero n) (if_pos (List.mem_reverse.2 hmem))
      · have hnew : (seen ++ [Utf8.decodeLossy m]).Nodup := by
          rw [← List.concat_eq_append]
          exact List.Nodup.concat hmem hnodup
        have hrest := ih (n := n) hnew
        rw [List.reverse_append, List.length_append, List.length_singleton, List.append_assoc,
          Nat.add_assoc, Nat.add_comm 1 n] at hrest
        have haccept : Verifier.accept { wanted := n + 1, seen := seen.reverse } m =
            .ok { wanted := n, seen := Utf8.decodeLossy m :: seen.reverse } :=
          if_neg (mt List.mem_reverse.1 hmem)
        rw [Verifier.verify_of_accept (Nat.succ_ne_zero n) haccept]
        exact hrest

theorem verify_eq_verdict (c : Config) (n : Nat) (queue : List Payload) :
    Verifier.verify c { wanted := n } queue = verdict c n (queue.map Utf8.decodeLossy) := by
  have heq := verify_eq_of_seen (c := c) (n := n) List.nodup_nil queue
  rwa [List.length_nil, Nat.zero_add] at heq

/-! ## What passes -/

theorem verdict_eq_ok_iff_texts : verdict c n texts = .ok () ↔
    (texts.take n).Nodup ∧ n ≤ texts.length ∧
      c.expected.map Message.text ⊆ texts.take n := by
  unfold verdict
  constructor
  · intro hok
    split at hok
    · cases hok
    · rename_i hrepeat
      split at hok
      · cases hok
      · rename_i hlength
        split at hok
        · cases hok
        · rename_i hfind
          refine ⟨nodup_of_firstRepeat? hrepeat, Nat.le_of_not_lt hlength, fun text hmem => ?_⟩
          simpa using List.find?_eq_none.1 hfind text hmem
  · rintro ⟨hnodup, hlength, hall⟩
    have hfind : (c.expected.map Message.text).find? (· ∉ texts.take n) = none :=
      List.find?_eq_none.2 fun text hmem => by simpa using hall hmem
    simp only [firstRepeat?_of_nodup hnodup, if_neg (Nat.not_lt.2 hlength), hfind]

/-- Only the expected messages pass, in any order, and nothing that is merely read like them. -/
theorem verdict_eq_ok_iff (hlength : c.expected.length = n) :
    verdict c n (queue.map Utf8.decodeLossy) = .ok () ↔
      (queue.take n).Perm (c.expected.map Message.bytes) := by
  rw [verdict_eq_ok_iff_texts, ← List.map_take, List.length_map]
  constructor
  · rintro ⟨hnodup, hle, hall⟩
    have hsub := List.subperm_of_subset (nodup_texts c) hall
    have hperm := hsub.perm_of_length_le (by simp [hlength])
    exact Verifier.perm_of_texts hperm.symm
  · intro hperm
    have htexts := hperm.map Utf8.decodeLossy
    rw [Verifier.map_decodeLossy_expected] at htexts
    refine ⟨htexts.nodup_iff.2 (nodup_texts c), ?_, htexts.symm.subset⟩
    have hsame := hperm.length_eq
    rw [List.length_take, List.length_map, hlength] at hsame
    omega

/-! ## The steps of a server -/

namespace Run

variable {S I : Type} {M : Medium S I} {r t : Run S} {a : Label I} {p : Nat}
  {result : Except ParticipantError Unit}

/-- The server `p` goes on with its verification. -/
def Verifying (p : Nat) (r : Run S) (a : Label I) : Prop :=
  (a = .participant p ∨ a = .expireReceive p) ∧
    ∃ x v, r.participants[p]? = some x ∧ x.stage = .verify v

/-- The server `p` has come to this verdict. -/
def Decided (p : Nat) (result : Except ParticipantError Unit) (r : Run S) : Prop :=
  ∃ x, r.participants[p]? = some x ∧ x.stage = .ofVerdict result

/-- The server `p` will come to this verdict if it is handed nothing more. -/
inductive Deciding (p : Nat) (result : Except ParticipantError Unit) (r : Run S) : Prop
  | verify {x v} : r.participants[p]? = some x → x.stage = .verify v →
      Verifier.verify r.config v x.inbox.items.toList = result → Deciding p result r
  | decided : Decided p result r → Deciding p result r

/-- How many steps of its own a server needs at most. -/
def left (p : Nat) (r : Run S) : Nat :=
  match r.participants[p]?.map Participant.stage with
  | some (.verify v) => v.wanted + 1
  | _ => 0

theorem getElem?_setParticipant {x x' : Participant} (hx : r.participants[p]? = some x) :
    (r.setParticipant p x').participants[p]? = some x' :=
  List.getElem?_set_self (List.getElem?_eq_some_iff.1 hx).1

theorem left_of_verify {x : Participant} {v : Verifier} (hx : r.participants[p]? = some x)
    (hstage : x.stage = .verify v) : left p r = v.wanted + 1 := by
  simp [left, hx, hstage]

theorem left_of_decided (hd : Decided p result r) : left p r = 0 := by
  obtain ⟨x, hx, hstage⟩ := hd
  cases result <;> simp [left, hx, hstage, Stage.ofVerdict]

section
variable {x x' : Participant} {v : Verifier} (hx : r.participants[p]? = some x)
  (hstage : x.stage = .verify v)
include hx hstage

/-- What a server does that verifies: a step by itself, or its time is over. -/
theorem works_of_verify {es : History ParticipantError}
    (ha : a = .participant p ∨ a = .expireReceive p) (he : Effect M r a es t) :
    ∃ x', t = r.setParticipant p x' ∧ (Works r x x' ∨ v.wanted ≠ 0 ∧ x.inbox.items.toList = [] ∧
      x'.stage = .ofVerdict (.error .receiveTimeout)) := by
  rcases ha with rfl | rfl
  · cases he with
    | work hx' hw =>
      obtain rfl := Option.some.inj (hx.symm.trans hx')
      exact ⟨_, rfl, .inl hw⟩
    | ask hx' ha =>
      obtain rfl := Option.some.inj (hx.symm.trans hx')
      cases ha with
      | connect _ hother | register _ hother | broadcast hother | depart hother =>
        cases hstage.symm.trans hother
    | hear hx' _ hh =>
      obtain rfl := Option.some.inj (hx.symm.trans hx')
      cases hh with
      | entered hother | refused hother | sent hother | notSent hother | departed hother =>
        cases hstage.symm.trans hother
      | died hawaits =>
        rw [hstage] at hawaits
        cases hawaits
    | sync hx' hother | refused hx' hother | exit hx' hother =>
      obtain rfl := Option.some.inj (hx.symm.trans hx')
      cases hstage.symm.trans hother
  · cases he with
    | miss hx' hother hwanted hempty =>
      obtain rfl := Option.some.inj (hx.symm.trans hx')
      cases hstage.symm.trans hother
      exact ⟨_, rfl, .inr ⟨hwanted, hempty, rfl⟩⟩

theorem Deciding.verify_eq (hd : Deciding p result r) :
    Verifier.verify r.config v x.inbox.items.toList = result := by
  cases hd with
  | verify hx' hstage' hverify =>
    obtain rfl := Option.some.inj (hx.symm.trans hx')
    cases hstage.symm.trans hstage'
    exact hverify
  | decided hd =>
    obtain ⟨x', hx', hstage'⟩ := hd
    obtain rfl := Option.some.inj (hx.symm.trans hx')
    cases result <;> cases hstage.symm.trans hstage'

theorem deciding_of_stage (hstage' : x'.stage = .ofVerdict result) :
    Deciding p result (r.setParticipant p x') ∧ left p (r.setParticipant p x') < left p r := by
  have hd : Decided p result (r.setParticipant p x') := ⟨x', getElem?_setParticipant hx, hstage'⟩
  refine ⟨.decided hd, ?_⟩
  rw [left_of_decided hd, left_of_verify hx hstage]
  exact Nat.succ_pos _

theorem Deciding.work (hd : Deciding p result r) (hw : Works r x x') :
    Deciding p result (r.setParticipant p x') ∧ left p (r.setParticipant p x') < left p r := by
  have hverify := hd.verify_eq hx hstage
  cases hw with
  | noRoom _ hother | resume hother | sentAll hother => cases hstage.symm.trans hother
  | conclude hother hwanted =>
    cases hstage.symm.trans hother
    rw [Verifier.verify_of_wanted hwanted] at hverify
    exact deciding_of_stage hx hstage (congrArg Stage.ofVerdict hverify)
  | reject hother hwanted hm ha =>
    cases hstage.symm.trans hother
    rw [Inbox.toList_eq_of_receive? hm, Verifier.verify_of_reject hwanted ha] at hverify
    exact deciding_of_stage hx hstage (congrArg Stage.ofVerdict hverify)
  | @accept v v' m inbox hother hwanted hm ha =>
    cases hstage.symm.trans hother
    rw [Inbox.toList_eq_of_receive? hm, Verifier.verify_of_accept hwanted ha] at hverify
    have hx' : (r.setParticipant p { x with inbox, stage := .verify v' }).participants[p]? =
        some { x with inbox, stage := .verify v' } := getElem?_setParticipant hx
    refine ⟨.verify hx' rfl hverify, ?_⟩
    rw [left_of_verify hx' rfl, left_of_verify hx hstage, Verifier.eq_of_accept ha]
    simp only
    omega

end

/-- Each step of its own leaves the server with the same verdict to come to, and one step less. -/
theorem Deciding.step (hd : Deciding p result r) (hown : Verifying p r a)
    (hstep : Run.step M r a = some t) : Deciding p result t ∧ left p t < left p r := by
  obtain ⟨ha, x, v, hx, hstage⟩ := hown
  obtain ⟨es, he⟩ := effect_of_step hstep
  obtain ⟨x', rfl, hw | ⟨hwanted, hempty, hstage'⟩⟩ := works_of_verify hx hstage ha he
  · exact hd.work hx hstage hw
  · have hverify := hd.verify_eq hx hstage
    rw [hempty, Verifier.verify_nil hwanted] at hverify
    exact deciding_of_stage hx hstage (hstage'.trans (congrArg Stage.ofVerdict hverify))

theorem Deciding.decided_of_quiet (hd : Deciding p result r)
    (hquiet : (hastyMachine M).Quiet (Verifying p) r) : Decided p result r := by
  cases hd with
  | decided hd => exact hd
  | verify hx hstage hverify =>
    obtain ⟨a, es, t, ha, he⟩ := exists_effect_of_verify (M := M) hx hstage
    exact absurd (hquiet a ⟨ha, _, _, hx, hstage⟩) he.not_none

/-- Where a server begins to verify, its own steps come to this verdict, and cannot go on for ever. -/
theorem Deciding.settles (hd : Deciding p result r) :
    (hastyMachine M).Settles (Verifying p) (Decided p result) r :=
  Machine.settles_of_measure (left p) (fun _ _ _ hd hown hstep => hd.step hown hstep)
    (fun _ hd hquiet => hd.decided_of_quiet hquiet) hd

end Run

/-- **The verdict on the deliveries**: a server that wants all messages comes to `verdict` on those in
its queue, whatever bytes they are, if a receive fails exactly where the queue is used up. It is satisfied
only by the expected messages, in whatever order they were delivered. -/
theorem verdict_on_deliveries {S I : Type} (M : Medium S I) (hn : c.expectedDeliveries = .ok n)
    (queue : List Payload) :
    let result := verdict c n (queue.map Utf8.decodeLossy)
    Verifier.verify c { wanted := n } queue = result ∧
      (result = .ok () ↔ (queue.take n).Perm (c.expected.map Message.bytes)) ∧
      ∀ (r : Run S) p x, r.config = c → r.participants[p]? = some x →
        x.stage = .verify { wanted := n } → x.inbox.items.toList = queue →
        (Run.hastyMachine M).Settles (Run.Verifying p) (Run.Decided p result) r := by
  intro result
  have hverify := verify_eq_verdict c n queue
  refine ⟨hverify, verdict_eq_ok_iff (length_eq_of_expectedDeliveries hn), ?_⟩
  rintro r p x rfl hx hstage rfl
  exact (Run.Deciding.verify hx hstage hverify).settles

/-- Of four messages there are three, bytes that are no text among them, and the last is the first again:
that decides, not that one is missing. -/
theorem duplicate_of_three :
    let c : Config := { clients := 1, servers := 1, messages := 2 }
    let m := Message.bytes ⟨.client 0, 0⟩
    let queue : List Payload := [m, [0xFF], m]
    let x : Participant :=
      { party := .server 0, stage := .verify { wanted := 4 }, inbox := ⟨1, .ofList queue⟩ }
    let r := (Run.begin c (handing []) (.timed (.still .zero))).setParticipant 1 x
    c.expectedDeliveries = .ok 4 ∧ r.config = c ∧ r.participants[1]? = some x ∧
      x.stage = .verify { wanted := 4 } ∧ x.inbox.items.toList = queue ∧
      verdict c 4 (queue.map Utf8.decodeLossy) = .error (.duplicate "client #0, broadcast 0") ∧
      Verifier.verify c { wanted := 4 } queue = verdict c 4 (queue.map Utf8.decodeLossy) ∧
      (Run.hastyMachine scripted).Settles (Run.Verifying 1)
        (Run.Decided 1 (verdict c 4 (queue.map Utf8.decodeLossy))) r := by
  intro c m queue x r
  have hn : c.expectedDeliveries = .ok 4 := by decide
  have hx : r.participants[1]? = some x := rfl
  have hqueue : x.inbox.items.toList = queue := Queue.toList_ofList queue
  obtain ⟨hverify, -, hsettles⟩ := verdict_on_deliveries scripted hn queue
  exact ⟨hn, rfl, hx, rfl, hqueue, by decide +kernel, hverify, hsettles r 1 x rfl hx rfl hqueue⟩

end Lockstep.Scenario
