import Mathlib.Algebra.BigOperators.Group.Finset.Basic
import Mathlib.Algebra.Order.BigOperators.Group.Finset
import Lockstep.Proofs.Lookup
import Lockstep.Proofs.Scenario.Steps
import Lockstep.Scenario.Behaviour

/-!
# A scripted medium as its callers see it

`Scripted.pending?` is what a caller waits for, `Scripted.rest?` what is still to be handed to its
handler. Both are the business of one caller: what others ask and what is handed to others leaves
them alone (`of_foreign`). `Scripted.size` counts what is still to be handed over.
-/

set_option autoImplicit false

namespace Lockstep.Scenario.Scripted

open Medium

/-- What the caller waits for. -/
def pending? (s : Scripted) (p : Nat) : Option Pending := s.pending.find? (·.caller == p)

/-- What is still to be handed to the handler of the caller, if there is one. -/
def rest? (s : Scripted) (p : Nat) : Option (List Payload) := s.left.lookup p

/-- The messages that are still to be handed to the first `n` callers. -/
def size (n : Nat) (s : Scripted) : Nat := ∑ p ∈ Finset.range n, ((s.rest? p).getD []).length

/-- The reply has to wait until everything is handed over. -/
def isBroadcast : Request → Bool
  | .broadcast _ _ => true
  | _ => false

variable {s s' : Scripted} {p q : Nat} {request : Request} {reply : Reply}
  {handover : Option Handover}

/-! ## Requests -/

theorem isBroadcast_departure (x : Participant) (verified : Bool) :
    isBroadcast (Run.departure x verified) = false := by
  cases hparty : x.party <;> cases verified <;> simp [Run.departure, hparty, isBroadcast]

@[simp] theorem behaviour_ask : (s.ask p request).behaviour = s.behaviour := by
  cases request <;> rfl

theorem pending_ask : (s.ask p request).pending =
    s.pending ++ [⟨p, outcome s.behaviour p request, isBroadcast request⟩] := by
  cases request <;> rfl

theorem left_ask : (s.ask p request).left = s.left ++
    if request = .register ∧ s.behaviour.register p = .succeeds then
      [(p, s.behaviour.handed p)] else [] := by
  cases request with
  | register => by_cases hok : s.behaviour.register p = .succeeds <;> simp [ask, outcome, hok]
  | _ => simp [ask]

theorem pending?_ask (hnone : s.pending? p = none) : (s.ask p request).pending? p =
    some ⟨p, outcome s.behaviour p request, isBroadcast request⟩ := by
  rw [pending?] at hnone
  simp [pending?, pending_ask, List.find?_append, hnone]

theorem pending?_ask_of_ne (hne : q ≠ p) : (s.ask q request).pending? p = s.pending? p := by
  simp [pending?, pending_ask, List.find?_append, hne]

theorem rest?_ask : (s.ask p request).rest? p = (s.rest? p).or
    (if request = .register ∧ s.behaviour.register p = .succeeds then
      some (s.behaviour.handed p) else none) := by
  rw [rest?, left_ask, List.lookup_append, rest?]
  split <;> simp

theorem rest?_ask_of_ne (hne : q ≠ p) : (s.ask q request).rest? p = s.rest? p := by
  have hfalse : (p == q) = false := beq_false_of_ne hne.symm
  rw [rest?, left_ask, List.lookup_append, rest?]
  split <;> simp [List.lookup_cons, hfalse]

/-! ## Replies -/

theorem reply?_eq_some_iff : s.reply? p = some (reply, s') ↔
    ∃ pending, s.pending? p = some pending ∧
      (pending.afterHanded = true → s.isHanded p = true) ∧
      reply = Scripted.reply p pending.outcome ∧
      s' = { s with pending := s.pending.filter (·.caller != p) } := by
  simp only [Scripted.reply?, pending?, Option.bind_eq_bind, Option.bind_eq_some_iff]
  refine exists_congr fun pending => and_congr_right fun _ => ?_
  cases pending.afterHanded <;> cases s.isHanded p <;> simp [guard, eq_comm]

theorem pending?_filter (l : List Pending) :
    (l.filter (·.caller != p)).find? (·.caller == p) = none := by
  simp

theorem pending?_filter_of_ne (hne : q ≠ p) (l : List Pending) :
    (l.filter (·.caller != q)).find? (·.caller == p) = l.find? (·.caller == p) := by
  rw [List.find?_filter]
  congr 1
  funext pending
  by_cases hp : pending.caller = p
  · simp [hp, hne.symm]
  · simp [hp]

/-! ## Hand-overs -/

theorem step_eq_some_iff : s.step q = some (s', handover) ↔
    ∃ m rest, s.rest? q = some (m :: rest) ∧ handover = some ⟨q, m⟩ ∧ s' = { s with
      left := s.left.map fun (k, ms) => if k == q then (k, rest) else (k, ms) } := by
  simp only [Scripted.step, rest?]
  split
  · rename_i m rest hrest
    simp only [hrest, Option.some.injEq, Prod.mk.injEq, List.cons.injEq]
    refine ⟨?_, ?_⟩
    · rintro ⟨rfl, rfl⟩
      exact ⟨m, rest, ⟨rfl, rfl⟩, rfl, rfl⟩
    · rintro ⟨m', rest', ⟨rfl, rfl⟩, rfl, rfl⟩
      exact ⟨rfl, rfl⟩
  · rename_i hrest
    refine iff_of_false nofun ?_
    rintro ⟨m, rest, hsome, -, -⟩
    exact hrest m rest hsome

/-- Where nothing can be handed over, everything is. -/
theorem isHanded_of_step (hnone : s.step p = none) : s.isHanded p = true := by
  rw [isHanded]
  cases hrest : s.left.lookup p with
  | none => rfl
  | some rest =>
    cases rest with
    | nil => rfl
    | cons m rest =>
      have hsome := step_eq_some_iff.2 ⟨m, rest, hrest, rfl, rfl⟩
      rw [hnone] at hsome
      cases hsome

theorem rest?_step {m : Payload} {rest : List Payload} (hrest : s.rest? q = some (m :: rest)) :
    Scripted.rest? { s with
      left := s.left.map fun (k, ms) => if k == q then (k, rest) else (k, ms) } p =
        if p = q then some rest else s.rest? p := by
  rw [rest?, lookup_map_update]
  split
  · rename_i heq
    subst heq
    rw [rest?] at hrest
    rw [hrest]
    rfl
  · rfl

/-- The medium names all hand-overs that are possible. -/
theorem step_eq_none_of_not_mem (hq : q ∉ scripted.moves s) : s.step q = none := by
  rw [Option.eq_none_iff_forall_ne_some]
  rintro ⟨s', handover⟩ hs
  obtain ⟨m, rest, hrest, -, -⟩ := step_eq_some_iff.1 hs
  obtain ⟨before, after, hleft, -⟩ := List.lookup_eq_some_iff.1 hrest
  refine hq (List.mem_filterMap.2 ⟨(q, m :: rest), ?_, rfl⟩)
  rw [hleft]
  exact List.mem_append_right before List.mem_cons_self

/-! ## What others do -/

/-- Others leave alone what a caller sees. -/
theorem of_foreign (hf : Run.Foreign scripted p s s') :
    s'.pending? p = s.pending? p ∧ s'.rest? p = s.rest? p := by
  cases hf with
  | same => exact ⟨rfl, rfl⟩
  | ask hne => exact ⟨pending?_ask_of_ne hne, rest?_ask_of_ne hne⟩
  | @reply q reply s' hne hr =>
    obtain ⟨pending, -, -, -, rfl⟩ := reply?_eq_some_iff.1 hr
    exact ⟨pending?_filter_of_ne hne _, rfl⟩
  | @step q s' handover hs hhandover =>
    obtain ⟨m, rest, hrest, rfl, rfl⟩ := step_eq_some_iff.1 hs
    have hne : p ≠ q := by
      rintro rfl
      exact hhandover m rfl
    exact ⟨rfl, (rest?_step hrest).trans (if_neg hne)⟩

theorem behaviour_of_changes {n : Nat} (hc : Run.Changes scripted n s s') :
    s'.behaviour = s.behaviour := by
  cases hc with
  | same => rfl
  | ask => exact behaviour_ask
  | reply hr =>
    obtain ⟨pending, -, -, -, rfl⟩ := reply?_eq_some_iff.1 hr
    rfl
  | step hs =>
    obtain ⟨m, rest, -, -, rfl⟩ := step_eq_some_iff.1 hs
    rfl

/-- Only participants have handlers. -/
theorem rest?_of_changes {n : Nat} (hnone : ∀ q, n ≤ q → s.rest? q = none)
    (hc : Run.Changes scripted n s s') (hp : n ≤ p) : s'.rest? p = none := by
  cases hc with
  | same => exact hnone p hp
  | @ask q request hlt =>
    exact (rest?_ask_of_ne (Nat.ne_of_lt (Nat.lt_of_lt_of_le hlt hp))).trans (hnone p hp)
  | reply hr =>
    obtain ⟨pending, -, -, -, rfl⟩ := reply?_eq_some_iff.1 hr
    exact hnone p hp
  | @step q s' handover hs =>
    obtain ⟨m, rest, hrest, -, rfl⟩ := step_eq_some_iff.1 hs
    have hne : p ≠ q := by
      rintro rfl
      rw [hnone p hp] at hrest
      cases hrest
    exact (rest?_step hrest).trans ((if_neg hne).trans (hnone p hp))

/-! ## What is still to be handed over -/

section
variable {n : Nat}

theorem size_ask_le : size n (s.ask p request) ≤
    size n s + ∑ q ∈ Finset.range n, (s.behaviour.handed q).length := by
  rw [size, size, ← Finset.sum_add_distrib]
  refine Finset.sum_le_sum fun q _ => ?_
  by_cases hq : p = q
  · subst hq
    rw [rest?_ask]
    cases s.rest? p <;> split <;> simp
  · rw [rest?_ask_of_ne hq]
    exact Nat.le_add_right _ _

theorem size_reply (hr : s.reply? p = some (reply, s')) : size n s' = size n s := by
  obtain ⟨pending, -, -, -, rfl⟩ := reply?_eq_some_iff.1 hr
  rfl

theorem size_step_lt (hs : s.step q = some (s', handover)) (hlt : q < n) :
    size n s' < size n s := by
  obtain ⟨m, rest, hrest, -, rfl⟩ := step_eq_some_iff.1 hs
  refine Finset.sum_lt_sum (fun p _ => ?_) ⟨q, Finset.mem_range.2 hlt, ?_⟩
  · rw [rest?_step hrest]
    split
    · rename_i heq
      rw [heq, hrest]
      exact Nat.le_succ _
    · exact Nat.le_refl _
  · rw [rest?_step hrest, if_pos rfl, hrest]
    exact Nat.lt_succ_self _

end

end Lockstep.Scenario.Scripted
