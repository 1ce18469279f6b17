import Lockstep.Proofs.Scenario.ExactlyOnce
import Lockstep.Proofs.Scenario.Progress

/-!
# What a scenario computes from its configuration

Before a run only four things are checked of a configuration, and none of them bounds its numbers.
`Config.Limits` says for which of the valid configurations the numbers that a run computes from them are
words, and what happens for the others: the run faults before it begins, or no server gets a queue for
its deliveries. `Barred` carries the second case: where no server has a queue, no phase is completed.
Both are said of every clock; that a wait has no end does not depend on the numbers.
-/

set_option autoImplicit false

namespace Lockstep.Scenario

open Medium Barrier

variable {S I : Type} {M : Medium S I} {c : Config} {waiting : Waiting} {n p j : Nat} {r t : Run S} {a : Run.Label I}
  {as : List (Run.Label I)} {h es : History ParticipantError} {x x' : Participant}

/-! ## The numbers -/

/-- Each participant has a message. -/
theorem sum_le_length (hmessages : c.messages ≠ 0) :
    c.clients + c.servers ≤ c.expected.length := by
  rw [length_expected]
  exact Nat.le_mul_of_pos_right _ (Nat.pos_of_ne_zero hmessages)

theorem expectedDeliveries_eq (hmessages : c.messages ≠ 0) :
    c.expectedDeliveries = if c.expected.length < Word.bound then .ok c.expected.length
      else .error (if c.clients + c.servers < Word.bound then .product else .sum) := by
  have hle := sum_le_length hmessages
  unfold Config.expectedDeliveries Config.participants
  rw [length_expected] at hle ⊢
  by_cases hsum : c.clients + c.servers < Word.bound
  · have hparticipants : Word.add c.clients c.servers = .ok (c.clients + c.servers) :=
      Word.add_eq_ok_iff.2 ⟨hsum, rfl⟩
    rw [hparticipants, if_pos hsum]
    rfl
  · have hproduct : ¬ (c.clients + c.servers) * c.messages < Word.bound := by omega
    have hparticipants : Word.add c.clients c.servers = .error .sum :=
      Word.check_eq_error_iff.2 ⟨Nat.le_of_not_lt hsum, rfl⟩
    rw [hparticipants, if_neg hproduct, if_neg hsum]
    rfl

/-- A server gets its queue if there is a block of memory for all the messages that it expects. -/
theorem serverInbox_eq_ok_iff (hmessages : c.messages ≠ 0) {inbox : Inbox Payload} :
    Run.serverInbox c = .ok inbox ↔
      c.expected.length * Inbox.placeSize ≤ Word.signedMax ∧
        inbox = { room := c.expected.length } := by
  unfold Run.serverInbox
  rw [expectedDeliveries_eq hmessages]
  by_cases hlt : c.expected.length < Word.bound
  · rw [if_pos hlt]
    exact Inbox.ofCapacity_eq_ok_iff.trans (and_congr_left' decide_eq_true_iff)
  · rw [if_neg hlt]
    constructor
    · intro hok
      cases hok
    · rintro ⟨hfits, -⟩
      have hbound : ¬ c.expected.length < 0x10000000000000000 := hlt
      have hblock : c.expected.length * 32 ≤ 0x7fffffffffffffff := hfits
      omega

/-- There is room for the barrier where there is room for the deliveries. -/
theorem fitsBlock_of_room (hvalid : c.validate = .ok ())
    (hroom : (Run.serverInbox c).isOk = true) :
    Word.fitsBlock (c.clients + c.servers) slotSize = true := by
  cases hinbox : Run.serverInbox c with
  | error fault =>
    rw [hinbox] at hroom
    cases hroom
  | ok inbox =>
    have hmessages := Run.messages_ne_zero hvalid
    have hfits := ((serverInbox_eq_ok_iff hmessages).1 hinbox).1
    have hle := sum_le_length hmessages
    refine decide_eq_true ?_
    simp only [slotSize, Inbox.placeSize] at hfits ⊢
    omega

/-- A run that can count its participants faults only for want of room or of an end. -/
theorem fault_of_start (hvalid : c.validate = .ok ())
    (hlt : c.clients + c.servers < Word.bound) {medium : S} {fault : Fault}
    (hstart : Run.start c medium waiting = .error fault) :
    fault = .capacity ∨ fault = .deadline := by
  rw [Run.start_eq hvalid, if_pos hlt] at hstart
  split at hstart
  · split at hstart
    · cases hstart
    · exact .inr (Except.error.inj hstart).symm
  · exact .inl (Except.error.inj hstart).symm

/-! ## Runs in which no server gets its queue -/

/-- The startup is not over, and if it was given up then all servers were missing. -/
inductive Held (c : Config) : Conductor → Prop
  | conduct : Held c (.conduct Phase.all none)
  | wait {limit} : Held c (.wait .startup limit [.broadcasting, .verification] none)
  | stuck {missing} : (∀ j < c.servers, c.clients + j ∈ missing) →
      Held c (.returned (.error (.stuck .startup ⟨0, missing⟩)))
  | panicked {fault} : Held c (.panicked fault)

/-- No server has got in, and the startup is not over. -/
structure Barred (c : Config) (r : Run S) : Prop where
  config : r.config = c
  servers : ∀ j < c.servers, ∃ x, r.participants[c.clients + j]? = some x ∧
    x.party = .server j ∧ (x.stage = .enter ∨ x.stage = .dead)
  held : Held c r.conductor

theorem barred_begin (c : Config) (medium : S) (waiting : Waiting) :
    Barred c (Run.begin c medium waiting) where
  config := rfl
  servers _ hj := ⟨_, party_eq_server hj, rfl, .inl rfl⟩
  held := .conduct

/-- A server without a queue cannot get in. -/
theorem enter_or_dead_of_turn {s : S} (hno : ∀ inbox, Run.serverInbox r.config ≠ .ok inbox)
    (hparty : x.party = .server j) (hstage : x.stage = .enter ∨ x.stage = .dead)
    (hturn : Run.Turn M r p x a es x' s) : x'.stage = .enter ∨ x'.stage = .dead := by
  rcases hstage with hstage | hstage
  · cases hturn with
    | ask ha =>
      cases ha with
      | connect hclient =>
        rw [hparty] at hclient
        cases hclient
      | register _ _ hinbox => exact absurd hinbox (hno _)
      | broadcast hother | depart hother => cases hstage.symm.trans hother
    | hear _ hh =>
      cases hh with
      | entered hother | refused hother | sent hother | notSent hother | departed hother =>
        cases hstage.symm.trans hother
      | died hawaits =>
        rw [hstage] at hawaits
        cases hawaits
    | work hw =>
      cases hw with
      | noRoom => exact .inr rfl
      | resume hother | sentAll hother | conclude hother | accept hother | reject hother =>
        cases hstage.symm.trans hother
    | sync hother | refused hother | exit hother | miss hother => cases hstage.symm.trans hother
    | handed | rest => exact .inl hstage
  · exact .inr (hturn.dead hstage)

theorem Barred.missing (hb : Barred c r) (ht : Run.Tracked n h r) (hj : j < c.servers) :
    c.clients + j ∈ r.barrier.missing := by
  obtain ⟨x, hx, -, hstage⟩ := hb.servers j hj
  refine ht.missing_of_going hx ?_
  rcases hstage with hstage | hstage <;> rw [hstage] <;> rfl

/-- The startup is never over, so the orchestrator can only give up. -/
theorem Barred.held_step (hb : Barred c r) (hservers : c.servers ≠ 0) (ht : Run.Tracked n h r)
    (he : Run.Effect M r a es t) : Held c t.conductor := by
  have hp := ht.recorded.pace
  have hheld := hb.held
  cases he with
  | ask | hear | work | sync | refused | exit | miss => exact hheld
  | pass =>
    rw [Run.handOver_conductor]
    exact hheld
  | call hconductor =>
    rw [hconductor] at hheld
    cases hheld with
    | conduct => exact .wait
  | overflow => exact .panicked
  | complete _ hc =>
    have hmissing := hb.missing ht (Nat.pos_of_ne_zero hservers)
    obtain ⟨hlt, hnot⟩ := hp.mem_missing_iff.1 hmissing
    exact absurd (hp.isComplete_iff.1 hc _ hlt) hnot
  | phasesOver hconductor | joined hconductor =>
    rw [hconductor] at hheld
    cases hheld
  | giveUp hconductor =>
    have hc := ht.conducts
    rw [hconductor] at hheld hc
    cases hheld with
    | wait =>
      cases hc with
      | wait hleft =>
        have hphase : r.barrier.phase = 0 := hp.phase.trans (index_of_drop hleft).1
        rw [Barrier.timeout, hphase]
        exact .stuck fun j hj => hb.missing ht hj

theorem Barred.step (hb : Barred c r) (hno : ∀ inbox, Run.serverInbox c ≠ .ok inbox)
    (hservers : c.servers ≠ 0) (ht : Run.Tracked n h r) (he : Run.Effect M r a es t) :
    Barred c t where
  config := he.config_eq.trans hb.config
  servers j hj := by
    obtain ⟨x, hx, hparty, hstage⟩ := hb.servers j hj
    obtain ⟨x', hx', hturn⟩ := he.turn hx
    have hconfig := hb.config
    exact ⟨x', hx', hturn.party_eq.trans hparty,
      enter_or_dead_of_turn (hconfig.symm ▸ hno) hparty hstage hturn⟩
  held := hb.held_step hservers ht he

theorem barred_of_run {medium : S} (hservers : c.servers ≠ 0)
    (hrun : (Run.hastyMachine M).Run (Run.begin c medium waiting) as t) :
    ∃ h, Run.Tracked (c.clients + c.servers) h t ∧
      ((∀ inbox, Run.serverInbox c ≠ .ok inbox) → Barred c t) := by
  let P (u : Run S) := ∃ h, Run.Tracked (c.clients + c.servers) h u ∧
    ((∀ inbox, Run.serverInbox c ≠ .ok inbox) → Barred c u)
  have hkept : P t := by
    refine Run.reaches_induction ⟨as, hrun⟩
      ⟨[], Run.tracked_begin c medium waiting, fun _ => barred_begin c medium waiting⟩ ?_
    rintro u a es v ⟨h, ht, hb⟩ he
    exact ⟨_, ht.step he, fun hno => (hb hno).step hno hservers ht he⟩
  exact hkept

/-! ## The limits -/

/-- A run that has begun ends well, with the errors of a phase, or without the end of one. -/
theorem result_of_tracked {result : Except ScenarioError Unit} (ht : Run.Tracked n h t)
    (hresult : t.result? = some result) :
    result = .ok () ∨ (∃ phase failed, result = .error (.phaseFailed phase failed)) ∨
      ∃ phase timeout, result = .error (.stuck phase timeout) := by
  have hc := ht.conducts
  cases hconductor : t.conductor with
  | conduct | wait | join | panicked =>
    rw [Run.result?, hconductor] at hresult
    cases hresult
  | returned =>
    rw [Run.result?, hconductor] at hresult
    obtain rfl := Option.some.inj hresult
    rw [hconductor] at hc
    cases hc with
    | @returned failure =>
      cases failure with
      | none => exact .inl rfl
      | some f => exact .inr (.inl ⟨f.phase, f.failed, rfl⟩)
    | stuck => exact .inr (.inr ⟨_, _, rfl⟩)

/-- A run that has begun panics only in a wait that has no end. -/
theorem fault_of_tracked {fault : Fault} (ht : Run.Tracked n h t)
    (hended : t.outcome? = some (.error fault)) : fault = .deadline := by
  have hc := ht.conducts
  cases hconductor : t.conductor with
  | conduct | wait | join | returned =>
    rw [Run.outcome?, hconductor] at hended
    cases hended
  | panicked =>
    rw [Run.outcome?, hconductor] at hended
    cases hended
    rw [hconductor] at hc
    cases hc with
    | panicked _ hfault => exact (Waiting.of_deadline_error hfault).1

/-- What can be computed from a configuration, and what becomes of a run where it cannot. -/
structure Config.Limits (c : Config) : Prop where
  one_le : 1 ≤ c.clients + c.servers
  participants : c.participants =
    if c.clients + c.servers < Word.bound then .ok (c.clients + c.servers) else .error .sum
  length : c.expected.length = (c.clients + c.servers) * c.messages
  /-- The deliveries are counted exactly or not at all. -/
  deliveries : c.expectedDeliveries =
    if c.expected.length < Word.bound then .ok c.expected.length
    else .error (if c.clients + c.servers < Word.bound then .product else .sum)
  /-- Where the deliveries can be counted, so can the participants, and a run does not fault in
  counting. -/
  countable : c.expected.length < Word.bound →
    c.participants = .ok (c.clients + c.servers) ∧ c.expectedDeliveries = .ok c.expected.length ∧
      ∀ (S : Type) (medium : S) waiting fault, Run.start c medium waiting = .error fault →
        fault = .capacity ∨ fault = .deadline
  /-- A server has a queue for exactly these if they have room in one block of memory. -/
  inbox : ∀ inbox, Run.serverInbox c = .ok inbox ↔
    c.expected.length * Inbox.placeSize ≤ Word.signedMax ∧ inbox = { room := c.expected.length }
  /-- A run is not refused; it faults or begins. -/
  start : ∀ (S : Type) (medium : S) (waiting : Waiting), Run.start c medium waiting =
    if c.clients + c.servers < Word.bound then
      if Word.fitsBlock (c.clients + c.servers) slotSize then
        if waiting.Ends c .startup then .ok (.running (Run.begin c medium waiting))
        else .error .deadline
      else .error .capacity
    else .error .sum
  result : ∀ (S I : Type) (M : Medium S I) (medium : S) waiting as t result,
    (Run.hastyMachine M).Run (Run.begin c medium waiting) as t → t.result? = some result →
    result = .ok () ∨ (∃ phase failed, result = .error (.phaseFailed phase failed)) ∨
      ∃ phase timeout, result = .error (.stuck phase timeout)
  fault : ∀ (S I : Type) (M : Medium S I) (medium : S) waiting as t fault,
    (Run.hastyMachine M).Run (Run.begin c medium waiting) as t →
      t.outcome? = some (.error fault) → fault = .deadline
  /-- Where the servers have no queue, the run is stuck before its first phase is over. -/
  stuck : Word.signedMax < c.expected.length * Inbox.placeSize →
    ∀ (S I : Type) (M : Medium S I) (medium : S) waiting as t result,
    (Run.hastyMachine M).Run (Run.begin c medium waiting) as t → t.result? = some result →
    ∃ missing, result = .error (.stuck .startup ⟨0, missing⟩) ∧
      ∀ j < c.servers, c.clients + j ∈ missing

/-- **The limits of a valid configuration.** Nothing that is checked bounds the numbers, so the sum and
the product are exact where they are words, and only there. -/
theorem limits_of_valid (hvalid : c.validate = .ok ()) : c.Limits := by
  have hservers := Run.servers_ne_zero hvalid
  have hmessages := Run.messages_ne_zero hvalid
  refine ⟨by omega, rfl, length_expected c, expectedDeliveries_eq hmessages, ?_,
    fun inbox => serverInbox_eq_ok_iff hmessages,
    fun S medium waiting => Run.start_eq hvalid medium waiting, ?_, ?_, ?_⟩
  · intro hlt
    have hsum := Nat.lt_of_le_of_lt (sum_le_length hmessages) hlt
    refine ⟨if_pos hsum, (expectedDeliveries_eq hmessages).trans (if_pos hlt), ?_⟩
    intro S medium waiting fault hstart
    exact fault_of_start hvalid hsum hstart
  · intro S I M medium waiting as t result hrun hresult
    obtain ⟨h, ht, -⟩ := barred_of_run hservers hrun
    exact result_of_tracked ht hresult
  · intro S I M medium waiting as t fault hrun hended
    obtain ⟨h, ht, -⟩ := barred_of_run hservers hrun
    exact fault_of_tracked ht hended
  · intro hlarge S I M medium waiting as t result hrun hresult
    have hno : ∀ inbox, Run.serverInbox c ≠ .ok inbox := fun inbox hinbox =>
      absurd ((serverInbox_eq_ok_iff hmessages).1 hinbox).1 (Nat.not_le.2 hlarge)
    obtain ⟨h, -, hb⟩ := barred_of_run hservers hrun
    have hheld := (hb hno).held
    rw [Run.result?] at hresult
    generalize t.conductor = conductor at hheld hresult
    cases hheld with
    | conduct | wait | panicked => cases hresult
    | @stuck missing hall => exact ⟨missing, (Option.some.inj hresult).symm, hall⟩

/-- Two servers cannot count their deliveries: they end at once, and are missing for ever. -/
theorem stuck_without_product :
    let c : Config := { clients := 0, servers := 2, messages := 2 ^ 63 }
    let waiting := Waiting.timed (.still .zero)
    let begin := Run.begin c (handing []) waiting
    c.validate = .ok () ∧ c.Limits ∧ c.participants = .ok 2 ∧
      c.expectedDeliveries = .error .product ∧
      Run.start c (handing []) waiting = .ok (.running begin) ∧
      ∃ t missing, (Run.hastyMachine scripted).Run begin
          [.conduct, .participant 0, .participant 1, .expirePhase] t ∧
        t.result? = some (.error (.stuck .startup ⟨0, missing⟩)) ∧ 0 ∈ missing ∧ 1 ∈ missing := by
  intro c waiting begin
  have hvalid : c.validate = .ok () := by decide
  have hlimits : c.Limits := limits_of_valid hvalid
  have hlength : c.expected.length = Word.bound := hlimits.length.trans (by decide)
  have hdeliveries : c.expectedDeliveries = .error .product := by
    rw [hlimits.deliveries, hlength]
    rfl
  have hlarge : Word.signedMax < c.expected.length * Inbox.placeSize := by
    rw [hlength]
    decide
  let steps : List (Run.Label Nat) := [.conduct, .participant 0, .participant 1, .expirePhase]
  have hreturned : (steps.foldlM (Run.step scripted) begin).any (fun t => t.result?.isSome) =
      true := by decide
  obtain ⟨t, ht, hsome⟩ := (Option.any_eq_true _ _).1 hreturned
  obtain ⟨result, hresult⟩ := Option.isSome_iff_exists.1 hsome
  have hrun := run_of_foldlM ht
  obtain ⟨missing, rfl, hall⟩ := hlimits.stuck hlarge _ _ scripted _ _ _ t result hrun hresult
  have hstart : Run.start c (handing []) waiting = .ok (.running begin) :=
    Run.start_eq_begin hvalid (by decide) (by decide) _
  exact ⟨hvalid, hlimits, hlimits.participants, hdeliveries, hstart, t, missing, hrun, hresult,
    hall 0 (by decide), hall 1 (by decide)⟩

/-- A configuration is accepted whose participants cannot be counted: the run ends in a fault, whatever
the clock shows, and so does the number of its deliveries. -/
theorem accepted_without_sum :
    let c : Config := { clients := Word.bound - 1, servers := 1, messages := 1 }
    c.validate = .ok () ∧ Word.bound ≤ c.clients + c.servers ∧
      c.expectedDeliveries = .error .sum ∧
      ∀ waiting, Run.start c (handing []) waiting = .error .sum := by
  intro c
  have hvalid : c.validate = .ok () := by decide
  have hlarge : ¬ c.clients + c.servers < Word.bound := by decide
  refine ⟨hvalid, Nat.le_of_not_lt hlarge, by decide, fun waiting => ?_⟩
  rw [Run.start_eq hvalid, if_neg hlarge]

end Lockstep.Scenario
