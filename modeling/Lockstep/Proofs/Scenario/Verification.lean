import Mathlib.Data.List.Perm.Subperm
import Lockstep.Proofs.Scenario.Messages
import Lockstep.Scenario.Verifier

/-!
# What a server finds in its deliveries

`Verifier.verify` reads its list as far as it wants messages (`verify_take`), one message at a time
(`verify_of_accept`, `verify_of_reject`). As many messages as are expected pass if and only if they
are the expected ones, in any order (`perm_of_conclude`).
-/

set_option autoImplicit false

namespace Lockstep.Scenario.Verifier

variable {c : Config} {v v' : Verifier} {m : Payload} {queue : List Payload} {e : ParticipantError}

/-! ## One message at a time -/

theorem verify_of_wanted (hwanted : v.wanted = 0) : verify c v queue = v.conclude c := by
  obtain ⟨wanted, seen⟩ := v
  subst hwanted
  rw [verify]

theorem verify_nil (hwanted : v.wanted ≠ 0) : verify c v [] = .error .receiveTimeout := by
  obtain ⟨wanted, seen⟩ := v
  obtain ⟨n, rfl⟩ := Nat.exists_eq_succ_of_ne_zero hwanted
  rfl

theorem verify_of_accept (hwanted : v.wanted ≠ 0) (ha : v.accept m = .ok v') :
    verify c v (m :: queue) = verify c v' queue := by
  obtain ⟨wanted, seen⟩ := v
  obtain ⟨n, rfl⟩ := Nat.exists_eq_succ_of_ne_zero hwanted
  rw [verify, ha]
  rfl

theorem verify_of_reject (hwanted : v.wanted ≠ 0) (ha : v.accept m = .error e) :
    verify c v (m :: queue) = .error e := by
  obtain ⟨wanted, seen⟩ := v
  obtain ⟨n, rfl⟩ := Nat.exists_eq_succ_of_ne_zero hwanted
  rw [verify, ha]
  rfl

theorem eq_of_accept (ha : v.accept m = .ok v') :
    v' = { wanted := v.wanted - 1, seen := Utf8.decodeLossy m :: v.seen } := by
  simp only [accept] at ha
  split at ha
  · cases ha
  · exact (Except.ok.inj ha).symm

/-- What comes after the messages it wants is not read. -/
theorem verify_take (v : Verifier) (queue : List Payload) :
    verify c v (queue.take v.wanted) = verify c v queue := by
  induction queue generalizing v with
  | nil => rw [List.take_nil]
  | cons m queue ih =>
    by_cases hwanted : v.wanted = 0
    · rw [verify_of_wanted hwanted, verify_of_wanted hwanted]
    · obtain ⟨n, hn⟩ := Nat.exists_eq_succ_of_ne_zero hwanted
      rw [hn, List.take_succ_cons]
      cases ha : v.accept m with
      | error e => rw [verify_of_reject hwanted ha, verify_of_reject hwanted ha]
      | ok v' =>
        have hn' : v'.wanted = n := by rw [eq_of_accept ha, hn, Nat.succ_sub_one]
        rw [verify_of_accept hwanted ha, verify_of_accept hwanted ha, ← hn', ih v']

/-! ## What passes -/

/-- What is checked off has to be among the texts received, as often as it is expected. -/
theorem checkOff_eq_ok_iff {expected seen : List String} :
    checkOff expected seen = .ok () ↔ expected.Subperm seen := by
  induction expected generalizing seen with
  | nil => exact iff_of_true rfl List.nil_subperm
  | cons text expected ih =>
    rw [checkOff]
    by_cases hmem : text ∈ seen
    · rw [if_pos hmem, ih, ← List.subperm_cons text]
      exact (List.perm_cons_erase hmem).symm.subperm_left
    · rw [if_neg hmem]
      exact iff_of_false nofun fun hsub => hmem (hsub.subset List.mem_cons_self)

/-- Bytes that are read as the expected texts are the expected messages. -/
theorem perm_of_texts {received : List Payload}
    (hperm : (received.map Utf8.decodeLossy).Perm (c.expected.map Message.text)) :
    received.Perm (c.expected.map Message.bytes) := by
  have hread (m : Payload) (hm : m ∈ received) : Utf8.encode (Utf8.decodeLossy m) = m := by
    obtain ⟨message, -, htext⟩ := List.mem_map.1 (hperm.subset (List.mem_map_of_mem hm))
    rw [← htext]
    exact (decodeLossy_eq_text_iff.1 htext.symm).symm
  have hbytes : (received.map Utf8.decodeLossy).map Utf8.encode = received := by
    rw [List.map_map]
    exact (List.map_congr_left hread).trans (List.map_id received)
  have hmap := hperm.map Utf8.encode
  rwa [hbytes, List.map_map] at hmap

/-- **As many messages as are expected pass only if they are the expected ones.** -/
theorem perm_of_conclude {received : List Payload} (hlength : received.length = c.expected.length)
    (hseen : v.seen = (received.map Utf8.decodeLossy).reverse) (hok : v.conclude c = .ok ()) :
    received.Perm (c.expected.map Message.bytes) := by
  have hsub : (c.expected.map Message.text).Subperm v.seen := checkOff_eq_ok_iff.1 hok
  have hperm : (c.expected.map Message.text).Perm v.seen := by
    refine hsub.perm_of_length_le (Nat.le_of_eq ?_)
    rw [hseen, List.length_reverse, List.length_map, List.length_map, hlength]
  rw [hseen] at hperm
  exact perm_of_texts (hperm.trans (List.reverse_perm _)).symm

theorem map_decodeLossy_expected (c : Config) :
    (c.expected.map Message.bytes).map Utf8.decodeLossy = c.expected.map Message.text := by
  rw [List.map_map]
  exact List.map_congr_left fun m _ => decodeLossy_eq_text_iff.2 rfl

/-- **The expected messages pass**, in whatever order they are received. -/
theorem conclude_of_perm {received : List Payload}
    (hperm : received.Perm (c.expected.map Message.bytes))
    (hseen : v.seen = (received.map Utf8.decodeLossy).reverse) : v.conclude c = .ok () := by
  have htexts := hperm.map Utf8.decodeLossy
  rw [map_decodeLossy_expected] at htexts
  refine checkOff_eq_ok_iff.2 ?_
  rw [hseen]
  exact (htexts.symm.trans (List.reverse_perm _).symm).subperm

/-- None of them is taken for one that came before. -/
theorem exists_accept {received rest : List Payload}
    (hperm : (received ++ m :: rest).Perm (c.expected.map Message.bytes))
    (hseen : v.seen = (received.map Utf8.decodeLossy).reverse) : ∃ v', v.accept m = .ok v' := by
  have htexts := hperm.map Utf8.decodeLossy
  rw [map_decodeLossy_expected, List.map_append, List.map_cons] at htexts
  have hnodup := htexts.nodup_iff.2 ((nodup_expected c).map Message.text_injective)
  have hnew : Utf8.decodeLossy m ∉ v.seen := by
    rw [hseen, List.mem_reverse]
    intro hm
    exact (List.nodup_append.1 hnodup).2.2 _ hm _ List.mem_cons_self rfl
  exact ⟨_, if_neg hnew⟩

end Lockstep.Scenario.Verifier
