import Mathlib.Data.Option.Basic
import Lockstep.Proofs.Barrier.History
import Lockstep.Scenario.Run

/-!
# What a step of a scenario does

`Run.Effect M r a es t` lists everything a step of a scenario on the medium `M` can do: a participant
asks for something, hears the reply, arrives, leaves or goes on by itself; the medium takes a step;
the orchestrator goes on or gives up. `es` is what the step adds to the history of the barrier.
`step_eq_some_iff` says that these are the steps. `Effect.turn` looks at one participant: a `Turn` is
what it does itself, what is handed to it, or a step of others.
-/

set_option autoImplicit false

namespace Lockstep.Scenario

open Medium Barrier

variable {S I : Type}

/-- The participant has asked for something and waits for the reply. -/
def Stage.awaitsReply : Stage → Bool
  | .entering | .sending _ | .departing _ => true
  | _ => false

/-- Where a server stands that has verified its deliveries. -/
def Stage.ofVerdict : Except ParticipantError Unit → Stage
  | .ok () => .depart none true
  | .error e => .depart (some e) true

/-- What the participant asks for where it stands, and what becomes of it. -/
inductive Asks (c : Config) (x : Participant) : Request → Participant → Prop
  | connect {i} : x.party = .client i → x.stage = .enter →
      Asks c x .connect { x with stage := .entering }
  | register {j inbox} : x.party = .server j → x.stage = .enter → Run.serverInbox c = .ok inbox →
      Asks c x .register { x with inbox, stage := .entering }
  | broadcast {i} : x.stage = .send i → i < c.messages →
      Asks c x (.broadcast x.conn (Message.bytes ⟨x.party, i⟩)) { x with stage := .sending i }
  | depart {error verified} : x.stage = .depart error verified →
      Asks c x (Run.departure x verified) { x with stage := .departing error }

/-- What becomes of the participant when the reply is there. -/
inductive Hears (x : Participant) : Reply → Participant → Prop
  | entered {conn} : x.stage = .entering →
      Hears x (.ok conn) { x with conn, stage := .arrive true }
  | refused {e} : x.stage = .entering →
      Hears x (.failed e) { x with stage := .finish (some (Run.enterError x.party e)) }
  | sent {i conn} : x.stage = .sending i → Hears x (.ok conn) { x with stage := .send (i + 1) }
  | notSent {i e} : x.stage = .sending i →
      Hears x (.failed e)
        { x with stage := Run.afterFailure x.party (Run.broadcastError x.party e) }
  | departed {error reply} : x.stage = .departing error → reply ≠ .died →
      Hears x reply { x with stage := .finish error }
  | died : x.stage.awaitsReply = true → Hears x .died { x with stage := .dead }

/-- What the participant does by itself. -/
inductive Works (r : Run S) (x : Participant) : Participant → Prop
  /-- There is no room for what a server expects. -/
  | noRoom {j fault} : x.party = .server j → x.stage = .enter →
      Run.serverInbox r.config = .error fault → Works r x { x with stage := .dead }
  | resume {first reached} : x.stage = .blocked first reached → reached < r.barrier.phase →
      Works r x { x with stage := r.afterPhase x.party first }
  | sentAll {i} : x.stage = .send i → r.config.messages ≤ i →
      Works r x { x with stage := .arrive false }
  | conclude {v} : x.stage = .verify v → v.wanted = 0 →
      Works r x { x with stage := .ofVerdict (v.conclude r.config) }
  | accept {v v' m inbox} : x.stage = .verify v → v.wanted ≠ 0 →
      x.inbox.receive? = some (m, inbox) → v.accept m = .ok v' →
      Works r x { x with inbox, stage := .verify v' }
  | reject {v m inbox e} : x.stage = .verify v → v.wanted ≠ 0 →
      x.inbox.receive? = some (m, inbox) → v.accept m = .error e →
      Works r x { x with inbox, stage := .ofVerdict (.error e) }

namespace Run

/-- What is returned when everyone has ended. -/
def resultOf : Option Failure → Except ScenarioError Unit
  | none => .ok ()
  | some f => .error (.phaseFailed f.phase f.failed)

inductive Effect (M : Medium S I) (r : Run S) :
    Label I → History ParticipantError → Run S → Prop
  | ask {p x x' q} : r.participants[p]? = some x → Asks r.config x q x' →
      Effect M r (.participant p) [] ({ r with medium := M.ask r.medium p q }.setParticipant p x')
  | hear {p x x' reply medium} : r.participants[p]? = some x →
      M.reply? r.medium p = some (reply, medium) → Hears x reply x' →
      Effect M r (.participant p) [] ({ r with medium }.setParticipant p x')
  | work {p x x'} : r.participants[p]? = some x → Works r x x' →
      Effect M r (.participant p) [] (r.setParticipant p x')
  | sync {p x first b} : r.participants[p]? = some x → x.stage = .arrive first →
      r.barrier.sync p = some (.ok b) →
      Effect M r (.participant p) [.synced p]
        ({ r with barrier := b }.setParticipant p
          { x with stage := .blocked first r.barrier.phase })
  | refused {p x first e} : r.participants[p]? = some x → x.stage = .arrive first →
      r.barrier.sync p = some (.error e) →
      Effect M r (.participant p) []
        (r.setParticipant p { x with stage := afterFailure x.party (.sync e) })
  | exit {p x error b} : r.participants[p]? = some x → x.stage = .finish error →
      r.barrier.exit p error = some b →
      Effect M r (.participant p) [.exited p error]
        ({ r with barrier := b }.setParticipant p { x with stage := .ended })
  /-- A server has waited too long for a delivery. -/
  | miss {p x v} : r.participants[p]? = some x → x.stage = .verify v → v.wanted ≠ 0 →
      x.inbox.items.toList = [] →
      Effect M r (.expireReceive p) []
        (r.setParticipant p { x with stage := .ofVerdict (.error .receiveTimeout) })
  | pass {i medium handover} : M.step r.medium i = some (medium, handover) →
      Effect M r (.medium i) [] ({ r with medium }.handOver handover)
  /-- The orchestrator calls the wait for the next phase. -/
  | call {phase deadline left failure} : r.conductor = .conduct (phase :: left) failure →
      r.deadline phase = .ok deadline →
      Effect M r .conduct [] { r with conductor := .wait phase deadline left failure }
  | overflow {phase left failure fault} : r.conductor = .conduct (phase :: left) failure →
      r.deadline phase = .error fault →
      Effect M r .conduct [] { r with conductor := .panicked fault }
  | complete {phase deadline left failure} : r.conductor = .wait phase deadline left failure →
      r.barrier.isComplete = true →
      Effect M r .conduct [.completed r.barrier.advance.1] { r with
        barrier := r.barrier.advance.2
        conductor := .conduct left
          (recordFailure failure phase r.barrier.phase r.barrier.advance.1) }
  | phasesOver {failure} : r.conductor = .conduct [] failure →
      Effect M r .conduct [] { r with conductor := .join failure }
  | joined {failure} : r.conductor = .join failure →
      (∀ x ∈ r.participants, Stage.isOver x.stage = true) →
      Effect M r .conduct [] { r with conductor := .returned (resultOf failure) }
  /-- The orchestrator has waited too long for the phase. -/
  | giveUp {phase deadline left failure} :
      r.conductor = .wait phase (some deadline) left failure → r.barrier.isComplete = false →
      Effect M r .expirePhase [] { r with
        conductor := .returned (.error (.stuck phase r.barrier.timeout)) }

/-- What a step of a scenario with `n` participants does to the medium. -/
inductive Changes (M : Medium S I) (n : Nat) (s : S) : S → Prop
  | same : Changes M n s s
  | ask {p request} : p < n → Changes M n s (M.ask s p request)
  | reply {p reply s'} : M.reply? s p = some (reply, s') → Changes M n s s'
  | step {i s' handover} : M.step s i = some (s', handover) → Changes M n s s'

/-- What a step of others does to the medium. -/
inductive Foreign (M : Medium S I) (p : Nat) (s : S) : S → Prop
  | same : Foreign M p s s
  | ask {q request} : q ≠ p → Foreign M p s (M.ask s q request)
  | reply {q reply s'} : q ≠ p → M.reply? s q = some (reply, s') → Foreign M p s s'
  | step {i s' handover} : M.step s i = some (s', handover) → (∀ m, handover ≠ some ⟨p, m⟩) →
      Foreign M p s s'

/-- The message that a step by `a` hands to the handler of `p`. -/
def handed? (M : Medium S I) (r : Run S) (p : Nat) : Label I → Option Payload
  | .medium i =>
    match M.step r.medium i with
    | some (_, some ⟨q, m⟩) => if q = p then some m else none
    | _ => none
  | _ => none

/-- What a step by `a` means for the participant `p`, and the medium after it. -/
inductive Turn (M : Medium S I) (r : Run S) (p : Nat) (x : Participant) :
    Label I → History ParticipantError → Participant → S → Prop
  | ask {q x'} : Asks r.config x q x' →
      Turn M r p x (.participant p) [] x' (M.ask r.medium p q)
  | hear {reply medium x'} : M.reply? r.medium p = some (reply, medium) → Hears x reply x' →
      Turn M r p x (.participant p) [] x' medium
  | work {x'} : Works r x x' → Turn M r p x (.participant p) [] x' r.medium
  | sync {first b} : x.stage = .arrive first → r.barrier.sync p = some (.ok b) →
      Turn M r p x (.participant p) [.synced p] { x with stage := .blocked first r.barrier.phase }
        r.medium
  | refused {first e} : x.stage = .arrive first → r.barrier.sync p = some (.error e) →
      Turn M r p x (.participant p) [] { x with stage := afterFailure x.party (.sync e) } r.medium
  | exit {error b} : x.stage = .finish error → r.barrier.exit p error = some b →
      Turn M r p x (.participant p) [.exited p error] { x with stage := .ended } r.medium
  | miss {v} : x.stage = .verify v → v.wanted ≠ 0 → x.inbox.items.toList = [] →
      Turn M r p x (.expireReceive p) [] { x with stage := .ofVerdict (.error .receiveTimeout) }
        r.medium
  | handed {i medium m} : M.step r.medium i = some (medium, some ⟨p, m⟩) →
      Turn M r p x (.medium i) [] { x with inbox := x.inbox.offer m } medium
  /-- Others go on. -/
  | rest {a es medium} : (∀ e ∈ es, e.participant? ≠ some p) → Foreign M p r.medium medium →
      handed? M r p a = none → Turn M r p x a es x medium

variable {M : Medium S I} {r t : Run S} {a : Label I} {es : History ParticipantError} {p q : Nat}
  {x x' y : Participant}

/-! ## The steps are effects -/

theorem effect_of_enter (hx : r.participants[p]? = some x) (hstage : x.stage = .enter) :
    Effect M r (.participant p) [] (enter M r p x) := by
  unfold enter
  split
  · rename_i hparty
    exact .ask hx (.connect hparty hstage)
  · rename_i hparty
    split
    · rename_i hinbox
      exact .ask hx (.register hparty hstage hinbox)
    · rename_i hfault
      exact .work hx (.noRoom hparty hstage hfault)

theorem effect_of_arrive {first : Bool} (hx : r.participants[p]? = some x)
    (hstage : x.stage = .arrive first) (h : r.arrive p x first = some t) :
    ∃ es, Effect M r (.participant p) es t := by
  simp only [arrive, Option.bind_eq_bind, Option.bind_eq_some_iff] at h
  obtain ⟨result, hs, h⟩ := h
  cases result with
  | ok b =>
    obtain ⟨reached, -, -, rfl⟩ := sync_eq_ok_iff.1 hs
    cases h
    exact ⟨_, .sync hx hstage hs⟩
  | error e =>
    cases h
    exact ⟨_, .refused hx hstage hs⟩

theorem effect_of_verify {v : Verifier} (hx : r.participants[p]? = some x)
    (hstage : x.stage = .verify v) (h : r.verify p x v = some t) :
    Effect M r (.participant p) [] t := by
  simp only [verify, Option.bind_eq_bind] at h
  split at h
  · rename_i hwanted
    cases h
    have hw : Works r x { x with stage := .ofVerdict (v.conclude r.config) } :=
      .conclude hstage hwanted
    cases hc : v.conclude r.config <;> rw [hc] at hw <;> exact .work hx hw
  · rename_i hwanted
    obtain ⟨⟨m, inbox⟩, hm, h⟩ := Option.bind_eq_some_iff.1 h
    cases ha : v.accept m with
    | ok v' =>
      simp only [ha] at h
      cases h
      exact .work hx (.accept hstage hwanted hm ha)
    | error e =>
      simp only [ha] at h
      cases h
      exact .work hx (.reject hstage hwanted hm ha)

theorem effect_of_participant (h : participant M r p = some t) :
    ∃ es, Effect M r (.participant p) es t := by
  simp only [participant, Option.bind_eq_bind, Option.bind_eq_some_iff] at h
  obtain ⟨x, hx, h⟩ := h
  split at h
  · rename_i hstage
    cases h
    exact ⟨_, effect_of_enter hx hstage⟩
  · rename_i hstage
    obtain ⟨⟨reply, medium⟩, hr, h⟩ := Option.bind_eq_some_iff.1 h
    cases reply with
    | ok conn =>
      cases h
      exact ⟨_, .hear hx hr (.entered hstage)⟩
    | failed e =>
      cases h
      exact ⟨_, .hear hx hr (.refused hstage)⟩
    | died =>
      cases h
      exact ⟨_, .hear hx hr (.died (by rw [hstage]; rfl))⟩
  · rename_i hstage
    exact effect_of_arrive hx hstage h
  · rename_i hstage
    simp only [Option.bind_eq_some_iff, Option.guard_eq_some', exists_const] at h
    obtain ⟨hlt, h⟩ := h
    cases h
    exact ⟨_, .work hx (.resume hstage hlt)⟩
  · rename_i hstage
    split at h
    · rename_i hlt
      cases h
      exact ⟨_, .ask hx (.broadcast hstage hlt)⟩
    · rename_i hle
      cases h
      exact ⟨_, .work hx (.sentAll hstage (Nat.le_of_not_lt hle))⟩
  · rename_i hstage
    obtain ⟨⟨reply, medium⟩, hr, h⟩ := Option.bind_eq_some_iff.1 h
    cases reply with
    | ok conn =>
      cases h
      exact ⟨_, .hear hx hr (.sent hstage)⟩
    | failed e =>
      cases h
      exact ⟨_, .hear hx hr (.notSent hstage)⟩
    | died =>
      cases h
      exact ⟨_, .hear hx hr (.died (by rw [hstage]; rfl))⟩
  · rename_i hstage
    exact ⟨_, effect_of_verify hx hstage h⟩
  · rename_i hstage
    cases h
    exact ⟨_, .ask hx (.depart hstage)⟩
  · rename_i hstage
    obtain ⟨⟨reply, medium⟩, hr, h⟩ := Option.bind_eq_some_iff.1 h
    cases reply with
    | died =>
      cases h
      exact ⟨_, .hear hx hr (.died (by rw [hstage]; rfl))⟩
    | ok | failed =>
      cases h
      exact ⟨_, .hear hx hr (.departed hstage nofun)⟩
  · rename_i hstage
    obtain ⟨b, hs, h⟩ := Option.bind_eq_some_iff.1 h
    cases h
    exact ⟨_, .exit hx hstage hs⟩
  · cases h
  · cases h

theorem effect_of_expireReceive (h : r.expireReceive p = some t) :
    Effect M r (.expireReceive p) [] t := by
  simp only [expireReceive, Option.bind_eq_bind, Option.bind_eq_some_iff] at h
  obtain ⟨x, hx, h⟩ := h
  split at h
  · rename_i hstage
    simp only [Option.bind_eq_some_iff, Option.guard_eq_some', exists_const] at h
    obtain ⟨⟨hwanted, hempty⟩, h⟩ := h
    cases h
    exact .miss hx hstage hwanted (Queue.isEmpty_iff.1 hempty)
  · cases h

theorem effect_of_conduct (h : r.conduct = some t) : ∃ es, Effect M r .conduct es t := by
  simp only [conduct] at h
  split at h
  · rename_i hc
    cases h
    exact ⟨_, .phasesOver hc⟩
  · rename_i hc
    split at h
    · rename_i hdeadline
      cases h
      exact ⟨_, .call hc hdeadline⟩
    · rename_i hfault
      cases h
      exact ⟨_, .overflow hc hfault⟩
  · rename_i hc
    split at h
    · rename_i hcomplete
      cases h
      exact ⟨_, .complete hc hcomplete⟩
    · cases h
  · rename_i hc
    split at h
    · rename_i hall
      cases h
      exact ⟨_, .joined hc (List.all_eq_true.1 hall)⟩
    · cases h
  · cases h
  · cases h

theorem effect_of_step (h : step M r a = some t) : ∃ es, Effect M r a es t := by
  cases a with
  | participant p => exact effect_of_participant h
  | conduct => exact effect_of_conduct h
  | medium i =>
    simp only [step, mediumStep, Option.bind_eq_bind, Option.bind_eq_some_iff] at h
    obtain ⟨⟨medium, handover⟩, hs, h⟩ := h
    cases h
    exact ⟨_, .pass hs⟩
  | expireReceive p => exact ⟨_, effect_of_expireReceive h⟩
  | expirePhase =>
    simp only [step, expirePhase] at h
    split at h
    · rename_i hc
      split at h
      · cases h
      · rename_i hcomplete
        cases h
        exact ⟨_, .giveUp hc (Bool.eq_false_iff.2 hcomplete)⟩
    · cases h

theorem Effect.step_eq (he : Effect M r a es t) : step M r a = some t := by
  cases he with
  | ask hx ha =>
    cases ha with
    | connect hparty hstage => simp [step, participant, enter, askFor, goTo, hx, hparty, hstage]
    | register hparty hstage hinbox =>
      simp [step, participant, enter, askFor, goTo, hx, hparty, hstage, hinbox]
    | broadcast hstage hlt => simp [step, participant, askFor, goTo, hx, hstage, hlt]
    | depart hstage => simp [step, participant, askFor, goTo, hx, hstage]
  | @hear p x x' reply medium hx hr hh =>
    cases hh with
    | entered hstage | refused hstage | sent hstage | notSent hstage =>
      simp [step, participant, goTo, hx, hr, hstage]
    | departed hstage hne =>
      cases reply with
      | died => exact absurd rfl hne
      | ok | failed => simp [step, participant, goTo, hx, hr, hstage]
    | died hawaits =>
      cases hstage : x.stage with
      | entering | sending | departing => simp [step, participant, goTo, hx, hr, hstage]
      | _ =>
        rw [hstage] at hawaits
        cases hawaits
  | work hx hw =>
    cases hw with
    | noRoom hparty hstage hfault =>
      simp [step, participant, enter, goTo, hx, hparty, hstage, hfault]
    | resume hstage hlt => simp [step, participant, goTo, guard, hx, hstage, hlt]
    | sentAll hstage hle =>
      simp [step, participant, goTo, hx, hstage, Nat.not_lt_of_le hle]
    | @conclude v hstage hwanted =>
      cases hc : v.conclude r.config <;>
        simp [step, participant, verify, goTo, hx, hstage, hwanted, hc, Stage.ofVerdict]
    | accept hstage hwanted hm ha =>
      simp [step, participant, verify, goTo, hx, hstage, hwanted, hm, ha]
    | reject hstage hwanted hm ha =>
      simp [step, participant, verify, goTo, hx, hstage, hwanted, hm, ha, Stage.ofVerdict]
  | sync hx hstage hs =>
    obtain ⟨reached, -, -, rfl⟩ := sync_eq_ok_iff.1 hs
    simp [step, participant, arrive, goTo, hx, hstage, hs]
  | refused hx hstage hs => simp [step, participant, arrive, goTo, hx, hstage, hs]
  | exit hx hstage hs => simp [step, participant, goTo, hx, hstage, hs]
  | miss hx hstage hwanted hempty =>
    simp [step, expireReceive, goTo, guard, hx, hstage, hwanted, Queue.isEmpty_iff.2 hempty,
      Stage.ofVerdict]
  | pass hs => simp [step, mediumStep, hs]
  | call hc hdeadline => simp [step, conduct, hc, hdeadline]
  | overflow hc hfault => simp [step, conduct, hc, hfault]
  | complete hc hcomplete => simp [step, conduct, hc, hcomplete, Barrier.advance]
  | phasesOver hc => simp [step, conduct, hc]
  | @joined failure hc hall =>
    have hall : r.participants.all (Stage.isOver ·.stage) = true := List.all_eq_true.2 hall
    cases failure <;> simp [step, conduct, hc, hall, resultOf]
  | giveUp hc hcomplete => simp [step, expirePhase, hc, hcomplete]

/-- The effects are the steps. -/
theorem step_eq_some_iff : step M r a = some t ↔ ∃ es, Effect M r a es t :=
  ⟨effect_of_step, fun ⟨_, he⟩ => he.step_eq⟩

theorem Effect.not_none (he : Effect M r a es t) : step M r a ≠ none := by
  rw [he.step_eq]
  nofun

/-! ## The parts of a run -/

@[simp] theorem setParticipant_config : (r.setParticipant p x).config = r.config := rfl

@[simp] theorem setParticipant_waiting : (r.setParticipant p x).waiting = r.waiting := rfl

@[simp] theorem setParticipant_medium : (r.setParticipant p x).medium = r.medium := rfl

@[simp] theorem setParticipant_barrier : (r.setParticipant p x).barrier = r.barrier := rfl

@[simp] theorem setParticipant_conductor : (r.setParticipant p x).conductor = r.conductor := rfl

@[simp] theorem setParticipant_participants :
    (r.setParticipant p x).participants = r.participants.set p x := rfl

section
variable (handover : Option Handover)

@[simp] theorem handOver_config : (r.handOver handover).config = r.config := by
  cases handover <;> rfl

@[simp] theorem handOver_waiting : (r.handOver handover).waiting = r.waiting := by
  cases handover <;> rfl

@[simp] theorem handOver_medium : (r.handOver handover).medium = r.medium := by
  cases handover <;> rfl

@[simp] theorem handOver_barrier : (r.handOver handover).barrier = r.barrier := by
  cases handover <;> rfl

@[simp] theorem handOver_conductor : (r.handOver handover).conductor = r.conductor := by
  cases handover <;> rfl

end

theorem Effect.config_eq (he : Effect M r a es t) : t.config = r.config := by
  cases he <;> simp

theorem Effect.waiting_eq (he : Effect M r a es t) : t.waiting = r.waiting := by
  cases he <;> simp

theorem Effect.deadline_eq (he : Effect M r a es t) : t.deadline = r.deadline := by
  unfold deadline
  rw [he.config_eq, he.waiting_eq]

theorem Effect.length_participants (he : Effect M r a es t) :
    t.participants.length = r.participants.length := by
  cases he with
  | @pass i medium handover => cases handover <;> simp [handOver]
  | _ => simp

theorem Effect.changes (he : Effect M r a es t) :
    Changes M r.participants.length r.medium t.medium := by
  cases he with
  | ask hx => exact .ask (List.getElem?_eq_some_iff.1 hx).1
  | hear _ hr => exact .reply hr
  | pass hs =>
    rw [handOver_medium]
    exact .step hs
  | work | sync | refused | exit | miss => exact .same
  | call | overflow | complete | phasesOver | joined | giveUp => exact .same

theorem Effect.recorded {n : Nat} {h : History ParticipantError} (he : Effect M r a es t)
    (hr : Recorded n h r.barrier) : Recorded n (es ++ h) t.barrier := by
  cases he with
  | ask | hear | work | refused | miss => exact hr
  | call | overflow | phasesOver | joined | giveUp => exact hr
  | pass =>
    rw [handOver_barrier]
    exact hr
  | sync _ _ hs => exact hr.sync hs
  | exit _ _ hs => exact hr.exit hs
  | complete _ hc => exact hr.advance hc

/-- Only the orchestrator completes a phase, and only where nobody is missing. -/
theorem Effect.phase_eq_or (he : Effect M r a es t) :
    t.barrier.phase = r.barrier.phase ∨ a = .conduct ∧ r.barrier.isComplete = true := by
  cases he with
  | ask | hear | work | refused | miss => exact .inl rfl
  | call | overflow | phasesOver | joined | giveUp => exact .inl rfl
  | pass =>
    rw [handOver_barrier]
    exact .inl rfl
  | sync _ _ hs =>
    obtain ⟨reached, -, -, rfl⟩ := sync_eq_ok_iff.1 hs
    exact .inl rfl
  | exit _ _ hs =>
    obtain ⟨reached, -, ⟨-, rfl⟩ | ⟨-, rfl⟩⟩ := exit_eq_some_iff.1 hs <;> exact .inl rfl
  | complete _ hcomplete => exact .inr ⟨rfl, hcomplete⟩

theorem Effect.phase_eq (he : Effect M r a es t) (hc : r.barrier.isComplete = false) :
    t.barrier.phase = r.barrier.phase :=
  he.phase_eq_or.resolve_right fun h => Bool.eq_false_iff.1 hc h.2

/-! ## One participant -/

/-- A step of `q` is the turn of `q`, and the others rest. -/
theorem turn_of_set (hy : r.participants[q]? = some y)
    (hs : t.participants = r.participants.set q x')
    (hturn : Turn M r q y a es x' t.medium) (hes : ∀ e ∈ es, e.participant? = some q)
    (hmedium : q ≠ p → Foreign M p r.medium t.medium) (hnone : handed? M r p a = none)
    (hx : r.participants[p]? = some x) :
    ∃ x', t.participants[p]? = some x' ∧ Turn M r p x a es x' t.medium := by
  by_cases he : q = p
  · subst he
    rw [hx] at hy
    cases hy
    have hlt : q < r.participants.length := (List.getElem?_eq_some_iff.1 hx).1
    exact ⟨x', by rw [hs, List.getElem?_set_self hlt], hturn⟩
  · refine ⟨x, by rw [hs, List.getElem?_set_ne he, hx], .rest ?_ (hmedium he) hnone⟩
    intro e hm
    rw [hes e hm]
    simpa using he

theorem turn_of_handOver {i : I} {medium : S} {handover : Option Handover}
    (hs : M.step r.medium i = some (medium, handover)) (hx : r.participants[p]? = some x) :
    ∃ x', (({ r with medium }).handOver handover).participants[p]? = some x' ∧
      Turn M r p x (.medium i) [] x' medium := by
  have hrest (hne : ∀ m, handover ≠ some ⟨p, m⟩) : Turn M r p x (.medium i) [] x medium := by
    refine .rest (List.forall_mem_nil _) (.step hs hne) ?_
    cases handover with
    | none => simp [handed?, hs]
    | some handover =>
      have hcaller : handover.caller ≠ p := fun heq => hne handover.m (by rw [← heq])
      simp [handed?, hs, hcaller]
  cases handover with
  | none => exact ⟨x, hx, hrest nofun⟩
  | some handover =>
    obtain ⟨q, m⟩ := handover
    by_cases he : q = p
    · subst he
      exact ⟨_, by simp [handOver, hx], .handed hs⟩
    · refine ⟨x, by simp [handOver, hx, he], hrest ?_⟩
      intro m' heq
      cases heq
      exact he rfl

theorem Effect.turn (he : Effect M r a es t) (hx : r.participants[p]? = some x) :
    ∃ x', t.participants[p]? = some x' ∧ Turn M r p x a es x' t.medium := by
  cases he with
  | ask hy ha =>
    exact turn_of_set hy rfl (.ask ha) (List.forall_mem_nil _) .ask rfl hx
  | hear hy hr hh =>
    exact turn_of_set hy rfl (.hear hr hh) (List.forall_mem_nil _) (fun hne => .reply hne hr) rfl
      hx
  | work hy hw =>
    exact turn_of_set hy rfl (.work hw) (List.forall_mem_nil _) (fun _ => .same) rfl hx
  | sync hy hstage hs =>
    exact turn_of_set hy rfl (.sync hstage hs) (by simp [Event.participant?]) (fun _ => .same) rfl
      hx
  | refused hy hstage hs =>
    exact turn_of_set hy rfl (.refused hstage hs) (List.forall_mem_nil _) (fun _ => .same) rfl hx
  | exit hy hstage hs =>
    exact turn_of_set hy rfl (.exit hstage hs) (by simp [Event.participant?]) (fun _ => .same) rfl
      hx
  | miss hy hstage hwanted hempty =>
    exact turn_of_set hy rfl (.miss hstage hwanted hempty) (List.forall_mem_nil _)
      (fun _ => .same) rfl hx
  | pass hs =>
    rw [handOver_medium]
    exact turn_of_handOver hs hx
  | complete => exact ⟨x, hx, .rest (by simp [Event.participant?]) .same rfl⟩
  | call | overflow | phasesOver | joined | giveUp =>
    exact ⟨x, hx, .rest (List.forall_mem_nil _) .same rfl⟩

/-- Every participant after a step was there before, and has had its turn. -/
theorem Effect.exists_turn (he : Effect M r a es t) (hx' : t.participants[p]? = some x') :
    ∃ x, r.participants[p]? = some x ∧ Turn M r p x a es x' t.medium := by
  have hlt : p < r.participants.length := by
    rw [← he.length_participants]
    exact (List.getElem?_eq_some_iff.1 hx').1
  have hx : r.participants[p]? = some r.participants[p] := List.getElem?_eq_getElem hlt
  obtain ⟨x'', h1, h2⟩ := he.turn hx
  rw [hx', Option.some.injEq] at h1
  exact ⟨_, hx, h1 ▸ h2⟩

theorem Turn.party_eq {s : S} (hturn : Turn M r p x a es x' s) : x'.party = x.party := by
  cases hturn with
  | ask ha => cases ha <;> rfl
  | hear _ hh => cases hh <;> rfl
  | work hw => cases hw <;> rfl
  | sync | refused | exit | miss | handed | rest => rfl

end Run

end Lockstep.Scenario
