import Lockstep.Proofs.Scenario.Rounds
import Lockstep.Proofs.Scenario.Verification
import Lockstep.Proofs.Sums

/-!
# Scenarios end

A time-out of a scenario is `Timely` if it expires only when what its wait waits for can no longer
come, whatever happens. A `TimelyRun` has no others; the runs of `Run.machine`, where time-outs wait
for everything else, are of this kind (`Steady.timelyRun_of_run`).

`Run.work` bounds the steps that are left, given a measure of the medium. So on a `Steady` medium,
which answers and does not go on for ever by itself, every timely run whose waits have a time-out is
finite, can be continued until the scenario returns or panics, and stops nowhere else
(`Steady.length_le`, `Steady.exists_end`, `Steady.ended_of_quiet`).
-/

set_option autoImplicit false

namespace Lockstep.Scenario

open Medium Barrier History

variable {S I : Type}

/-- The steps of a participant that are left, with `wanted` deliveries to receive. -/
def Stage.work (c : Config) : Stage → Nat
  | .enter => c.expectedDeliveries.toOption.getD 0 + 2 * c.messages + 11
  | .entering => c.expectedDeliveries.toOption.getD 0 + 2 * c.messages + 10
  | .arrive true => c.expectedDeliveries.toOption.getD 0 + 2 * c.messages + 9
  | .blocked true _ => c.expectedDeliveries.toOption.getD 0 + 2 * c.messages + 8
  | .send i => c.expectedDeliveries.toOption.getD 0 + 2 * (c.messages - i) + 7
  | .sending i => c.expectedDeliveries.toOption.getD 0 + 2 * (c.messages - (i + 1)) + 8
  | .arrive false => c.expectedDeliveries.toOption.getD 0 + 6
  | .blocked false _ => c.expectedDeliveries.toOption.getD 0 + 5
  | .verify v => v.wanted + 4
  | .depart _ _ => 3
  | .departing _ => 2
  | .finish _ => 1
  | .ended | .dead => 0

def Conductor.work : Conductor → Nat
  | .conduct left _ => 2 * left.length + 2
  | .wait _ _ left _ => 2 * left.length + 3
  | .join _ => 1
  | .returned _ | .panicked _ => 0

/-! ## The work of one participant -/

section
variable {c : Config} {x x' : Participant}

theorem Asks.work_lt {q : Request} (ha : Asks c x q x') :
    x'.stage.work c < x.stage.work c := by
  cases ha with
  | connect _ hstage | register _ hstage | depart hstage =>
    rw [hstage]
    exact Nat.lt_succ_self _
  | broadcast hstage hlt =>
    rw [hstage]
    simp only [Stage.work]
    omega

theorem Hears.work_lt {reply : Reply} (hh : Hears x reply x') :
    x'.stage.work c < x.stage.work c := by
  cases hh with
  | entered hstage | sent hstage | departed hstage =>
    rw [hstage]
    exact Nat.lt_succ_self _
  | refused hstage =>
    rw [hstage]
    simp only [Stage.work]
    omega
  | notSent hstage =>
    rw [hstage]
    cases x.party <;> simp only [Run.afterFailure, Stage.work] <;> omega
  | died hawaits =>
    cases hstage : x.stage with
    | entering | sending | departing =>
      simp only [Stage.work]
      omega
    | _ =>
      rw [hstage] at hawaits
      cases hawaits

theorem Stage.work_ofVerdict (c : Config) (verdict : Except ParticipantError Unit) :
    (Stage.ofVerdict verdict).work c = 3 := by
  cases verdict <;> rfl

theorem Works.work_lt {r : Run S} (hw : Works r x x') :
    x'.stage.work r.config < x.stage.work r.config := by
  cases hw with
  | noRoom _ hstage =>
    rw [hstage]
    exact Nat.succ_pos _
  | @resume first reached hstage =>
    rw [hstage]
    cases first with
    | true => exact Nat.lt_succ_self _
    | false =>
      cases x.party <;> simp only [Run.afterPhase, Stage.work] <;> omega
  | sentAll hstage =>
    rw [hstage]
    simp only [Stage.work]
    omega
  | @conclude v hstage =>
    rw [hstage, Stage.work_ofVerdict]
    show 3 < v.wanted + 4
    omega
  | accept hstage hwanted _ ha =>
    rw [hstage, Verifier.eq_of_accept ha]
    simp only [Stage.work]
    omega
  | @reject v m inbox e hstage =>
    rw [hstage]
    show 3 < v.wanted + 4
    omega

end

namespace Run

/-- The steps that are left, where `μ` bounds those of the medium, and a request adds `k` to it at
most. -/
def work (μ : S → Nat) (k : Nat) (r : Run S) : Nat :=
  (r.participants.map fun x => x.stage.work r.config * (k + 1)).sum + μ r.medium + r.conductor.work

/-- The machine whose time-outs expire at any time. -/
def hastyMachine (M : Medium S I) : Machine (Run S) (Label I) := ⟨step M, fun _ _ => false⟩

/-- What the wait that runs out of time waits for can no longer come: a delivery, or the arrival of
anyone who is missing. -/
def Timely (M : Medium S I) (r : Run S) : Label I → Prop
  | .expireReceive p => ∀ t, (hastyMachine M).Reaches r t →
      ∀ x, t.participants[p]? = some x → x.inbox.items.toList = []
  | .expirePhase => ∀ t, (hastyMachine M).Reaches r t →
      ∀ p ∈ r.barrier.missing, p ∈ t.barrier.missing
  | _ => True

/-- The labels lead from the first state to the second, and no time-out expires too early. -/
inductive TimelyRun (M : Medium S I) : Run S → List (Label I) → Run S → Prop
  | nil (r : Run S) : TimelyRun M r [] r
  | cons {r s t : Run S} {a : Label I} {as : List (Label I)} : Timely M r a →
      step M r a = some s → TimelyRun M s as t → TimelyRun M r (a :: as) t

/-- Nothing can follow. -/
def Quiet (M : Medium S I) (r : Run S) : Prop := ∀ a, Timely M r a → step M r a = none

/-- `μ` measures the steps that the medium can take. -/
structure Measured (M : Medium S I) (μ : S → Nat) (k : Nat) (r : Run S) : Prop where
  ask : ∀ p x q x', r.participants[p]? = some x → Asks r.config x q x' →
    μ (M.ask r.medium p q) ≤ μ r.medium + k
  reply : ∀ p reply s, M.reply? r.medium p = some (reply, s) → μ s ≤ μ r.medium
  step : ∀ i s handover, M.step r.medium i = some (s, handover) → μ s < μ r.medium

/-- In the states `Inv`, which timely steps keep, the medium answers in the end, and does not go on
for ever by itself. -/
structure Steady (M : Medium S I) (μ : S → Nat) (k n : Nat) (Inv : Run S → Prop) : Prop where
  tracked : ∀ r, Inv r → ∃ h, Tracked n h r
  limited : ∀ r, Inv r → r.waiting ≠ .plain
  step : ∀ r a t, Inv r → Timely M r a → Run.step M r a = some t → Inv t
  measured : ∀ r, Inv r → Measured M μ k r
  /-- A medium that takes no step has answered. -/
  answers : ∀ r, Inv r → (∀ i, M.step r.medium i = none) → ∀ p x, r.participants[p]? = some x →
    x.stage.awaitsReply = true → ∃ reply s, M.reply? r.medium p = some (reply, s)
  /-- Where all else has to wait for a delivery, there will be none. -/
  patient : ∀ r p, Inv r → (machine M).Ready r (.expireReceive p) →
    Run.step M r (.expireReceive p) ≠ none → Timely M r (.expireReceive p)

variable {M : Medium S I} {μ : S → Nat} {k n p : Nat} {r s t : Run S} {a : Label I}
  {as : List (Label I)} {h es : History ParticipantError} {x x' : Participant}

/-! ## What can follow -/

theorem reaches_of_step (hs : step M r a = some t) : (hastyMachine M).Reaches r t :=
  ⟨[a], .cons ⟨nofun, hs⟩ (.nil t)⟩

/-- What every step keeps holds in all that can follow. -/
theorem reaches_induction {P : Run S → Prop} (hr : (hastyMachine M).Reaches r t) (hs : P r)
    (hstep : ∀ r a es t, P r → Effect M r a es t → P t) : P t := by
  obtain ⟨as, hrun⟩ := hr
  refine hrun.invariant hs ?_
  intro r a t hs hnext
  obtain ⟨es, he⟩ := effect_of_step hnext.2
  exact hstep r a es t hs he

/-! ## Every run is finite -/

/-- A step of one participant pays for what it asks of the medium. -/
theorem work_lt_of_set (hx : r.participants[p]? = some x)
    (hs : t.participants = r.participants.set p x') (hconfig : t.config = r.config)
    (hconductor : t.conductor = r.conductor) (hμ : μ t.medium ≤ μ r.medium + k)
    (hlt : x'.stage.work r.config < x.stage.work r.config) : work μ k t < work μ k r := by
  have hsum := sum_map_set (y := x') (fun x => x.stage.work r.config * (k + 1)) hx
  have hle := Nat.mul_le_mul_right (k + 1) hlt
  rw [Nat.succ_mul] at hle
  rw [work, work, hs, hconfig, hconductor]
  omega

/-- A message that is handed over only changes an inbox. -/
theorem map_handOver {β : Type} (f : Participant → β)
    (hf : ∀ (x : Participant) (inbox : Inbox Payload), f { x with inbox } = f x)
    (handover : Option Handover) :
    (r.handOver handover).participants.map f = r.participants.map f := by
  cases handover with
  | none => rfl
  | some handover =>
    refine List.ext_getElem? fun q => ?_
    simp only [handOver, List.getElem?_map, List.getElem?_modify]
    cases r.participants[q]? with
    | none => rfl
    | some x =>
      simp only [Option.map_eq_map, Option.map_some]
      split
      · rw [hf]
      · rfl

theorem Effect.work_lt (hm : Measured M μ k r) (he : Effect M r a es t) :
    Run.work μ k t < Run.work μ k r := by
  cases he with
  | ask hx ha => exact work_lt_of_set hx rfl rfl rfl (hm.ask _ _ _ _ hx ha) ha.work_lt
  | hear hx hr hh =>
    exact work_lt_of_set hx rfl rfl rfl (Nat.le_add_right_of_le (hm.reply _ _ _ hr)) hh.work_lt
  | work hx hw => exact work_lt_of_set hx rfl rfl rfl (Nat.le_add_right _ _) hw.work_lt
  | @sync p x first b hx hstage =>
    refine work_lt_of_set hx rfl rfl rfl (Nat.le_add_right _ _) ?_
    rw [hstage]
    cases first <;> exact Nat.lt_succ_self _
  | @refused p x first e hx hstage =>
    refine work_lt_of_set hx rfl rfl rfl (Nat.le_add_right _ _) ?_
    rw [hstage]
    cases first <;> cases x.party <;> simp only [afterFailure, Stage.work] <;> omega
  | exit hx hstage =>
    refine work_lt_of_set hx rfl rfl rfl (Nat.le_add_right _ _) ?_
    rw [hstage]
    exact Nat.one_pos
  | miss hx hstage =>
    refine work_lt_of_set hx rfl rfl rfl (Nat.le_add_right _ _) ?_
    rw [hstage, Stage.work_ofVerdict]
    simp only [Stage.work]
    omega
  | @pass i medium handover hs =>
    have hlt := hm.step _ _ _ hs
    have hsame := map_handOver (r := { r with medium })
      (fun x => x.stage.work r.config * (k + 1)) (fun _ _ => rfl) handover
    simp only [Run.work, handOver_config, handOver_medium, handOver_conductor, hsame]
    omega
  | call hc | overflow hc | complete hc | phasesOver hc | joined hc | giveUp hc =>
    simp only [Run.work, hc, Conductor.work, List.length_cons, List.length_nil]
    omega

/-! ## Who can go on -/

/-- Who awaits a reply can hear any. -/
theorem exists_hears (hawaits : x.stage.awaitsReply = true) (reply : Reply) :
    ∃ x', Hears x reply x' := by
  by_cases hdied : reply = .died
  · subst hdied
    exact ⟨_, .died hawaits⟩
  cases hstage : x.stage with
  | entering =>
    cases reply with
    | ok => exact ⟨_, .entered hstage⟩
    | failed => exact ⟨_, .refused hstage⟩
    | died => exact absurd rfl hdied
  | sending =>
    cases reply with
    | ok => exact ⟨_, .sent hstage⟩
    | failed => exact ⟨_, .notSent hstage⟩
    | died => exact absurd rfl hdied
  | departing => exact ⟨_, .departed hstage hdied⟩
  | _ =>
    rw [hstage] at hawaits
    cases hawaits

/-- Who verifies goes on, or its receive times out. -/
theorem exists_effect_of_verify {v : Verifier} (hx : r.participants[p]? = some x)
    (hstage : x.stage = .verify v) :
    ∃ a es t, (a = .participant p ∨ a = .expireReceive p) ∧ Effect M r a es t := by
  by_cases hwanted : v.wanted = 0
  · exact ⟨_, _, _, .inl rfl, .work hx (.conclude hstage hwanted)⟩
  cases hm : x.inbox.receive? with
  | none =>
    have hempty := Inbox.receive?_eq_none_iff.1 hm
    exact ⟨_, _, _, .inr rfl, .miss hx hstage hwanted hempty⟩
  | some received =>
    obtain ⟨m, inbox⟩ := received
    cases ha : v.accept m with
    | ok v' => exact ⟨_, _, _, .inl rfl, .work hx (.accept hstage hwanted hm ha)⟩
    | error e => exact ⟨_, _, _, .inl rfl, .work hx (.reject hstage hwanted hm ha)⟩

section
variable (ht : Tracked n h r)
include ht

/-- A participant that is not blocked and has not ended can go on, once it has its reply. -/
theorem Tracked.exists_effect (hx : r.participants[p]? = some x) (hgo : x.stage.isGoing = true)
    (halive : x.stage ≠ .dead) (hanswer : x.stage.awaitsReply = true →
      ∃ reply s, M.reply? r.medium p = some (reply, s)) :
    ∃ a es t, (a = .participant p ∨ a = .expireReceive p) ∧ Effect M r a es t := by
  by_cases hawaits : x.stage.awaitsReply = true
  · obtain ⟨reply, s, hreply⟩ := hanswer hawaits
    obtain ⟨x', hh⟩ := exists_hears hawaits reply
    exact ⟨_, _, _, .inl rfl, .hear hx hreply hh⟩
  have hp := ht.recorded.pace
  have hf := ht.fits p x hx
  have hlt := ht.lt hx
  cases hstage : x.stage with
  | enter =>
    cases hparty : x.party with
    | client i => exact ⟨_, _, _, .inl rfl, .ask hx (.connect hparty hstage)⟩
    | server j =>
      cases hinbox : serverInbox r.config with
      | ok inbox => exact ⟨_, _, _, .inl rfl, .ask hx (.register hparty hstage hinbox)⟩
      | error fault => exact ⟨_, _, _, .inl rfl, .work hx (.noRoom hparty hstage hinbox)⟩
  | arrive first =>
    rw [hstage] at hf
    obtain ⟨result, hs⟩ := hp.exists_sync hlt (hf.of_going rfl).1
    cases result with
    | ok b => exact ⟨_, _, _, .inl rfl, .sync hx hstage hs⟩
    | error e => exact (hf.not_refused hp hs).elim
  | send i =>
    by_cases hi : i < r.config.messages
    · exact ⟨_, _, _, .inl rfl, .ask hx (.broadcast hstage hi)⟩
    · exact ⟨_, _, _, .inl rfl, .work hx (.sentAll hstage (Nat.le_of_not_lt hi))⟩
  | verify v => exact exists_effect_of_verify hx hstage
  | depart error verified => exact ⟨_, _, _, .inl rfl, .ask hx (.depart hstage)⟩
  | finish error =>
    rw [hstage] at hf
    obtain ⟨b, hs⟩ := hp.exists_exit error hlt (hf.of_going rfl).1
    exact ⟨_, _, _, .inl rfl, .exit hx hstage hs⟩
  | blocked | ended =>
    rw [hstage] at hgo
    cases hgo
  | entering | sending | departing =>
    rw [hstage] at hawaits
    exact absurd rfl hawaits
  | dead => exact absurd hstage halive

/-- A participant that is blocked in a phase that is over can go on. -/
theorem Tracked.phase_of_blocked {first : Bool} {reached : Nat} (hx : r.participants[p]? = some x)
    (hstage : x.stage = .blocked first reached) :
    reached = h.phase ∨ ∃ t, Effect M r (.participant p) [] t := by
  have hp := ht.recorded.pace
  have hf := ht.fits p x hx
  rw [hstage] at hf
  obtain ⟨hnx, hsyncs, -⟩ := hf.of_blocked
  have hle := hp.phase_le p (ht.lt hx) hnx
  have hle' := hp.syncs_le p
  by_cases hdue : reached < r.barrier.phase
  · exact .inr ⟨_, .work hx (.resume hstage hdue)⟩
  · rw [hp.phase] at hdue
    exact .inl (by omega)

/-! ## Who has died -/

omit ht in
theorem Turn.dead {medium : S} (hturn : Turn M r p x a es x' medium) (hstage : x.stage = .dead) :
    x'.stage = .dead := by
  cases hturn with
  | ask ha => cases ha <;> simp_all
  | hear _ hh => cases hh <;> simp_all [Stage.awaitsReply]
  | work hw => cases hw <;> simp_all
  | sync hstage' | refused hstage' | exit hstage' | miss hstage' =>
    rw [hstage] at hstage'
    cases hstage'
  | handed | rest => exact hstage

/-- Who is not blocked and has not ended is missing. -/
theorem Tracked.missing_of_going (hx : r.participants[p]? = some x)
    (hgo : x.stage.isGoing = true) : p ∈ r.barrier.missing := by
  have hp := ht.recorded.pace
  obtain ⟨hnx, hsyncs, -⟩ := (ht.fits p x hx).of_going hgo
  rw [hp.mem_missing_iff, hp.arrived_iff, not_or]
  exact ⟨ht.lt hx, hnx, by omega⟩

/-- Who has died is missing for ever. -/
theorem Tracked.missing_of_reaches (hx : r.participants[p]? = some x) (hstage : x.stage = .dead)
    (hr : (hastyMachine M).Reaches r t) : p ∈ t.barrier.missing := by
  let P (u : Run S) := (∃ h, Tracked n h u) ∧ ∃ x, u.participants[p]? = some x ∧ x.stage = .dead
  have hkept : P t := by
    refine reaches_induction hr ⟨⟨h, ht⟩, x, hx, hstage⟩ ?_
    rintro u a es v ⟨⟨h, hu⟩, x, hx, hstage⟩ he
    obtain ⟨x', hx', hturn⟩ := he.turn hx
    exact ⟨⟨_, hu.step he⟩, x', hx', hturn.dead hstage⟩
  obtain ⟨⟨h', ht'⟩, x', hx', hstage'⟩ := hkept
  exact ht'.missing_of_going hx' (by rw [hstage']; rfl)

end

/-! ## Where nothing but the time-out of a phase is possible -/

theorem conduct_ne_expirePhase : (Label.conduct : Label I) ≠ .expirePhase := nofun

section
variable (hr : (machine M).Ready r .expirePhase)
include hr

theorem not_effect_of_ready (he : Effect M r a es t) (hne : a ≠ .expirePhase) : False := by
  refine he.not_none (hr a ?_)
  cases a <;> first | rfl | exact absurd rfl hne

variable (ht : Tracked n h r) (hanswer : ∀ p x, r.participants[p]? = some x →
  x.stage.awaitsReply = true → ∃ reply s, M.reply? r.medium p = some (reply, s))
include ht hanswer

/-- Whoever has not ended is blocked in the current phase or has died. -/
theorem stage_of_ready (hx : r.participants[p]? = some x) :
    x.stage = .ended ∨ x.stage = .dead ∨ ∃ first, x.stage = .blocked first h.phase := by
  by_cases hgo : x.stage.isGoing = true
  · by_cases hdead : x.stage = .dead
    · exact .inr (.inl hdead)
    · obtain ⟨a, es, t, ha, he⟩ := ht.exists_effect hx hgo hdead (hanswer p x hx)
      refine (not_effect_of_ready hr he ?_).elim
      rcases ha with rfl | rfl <;> nofun
  · cases hstage : x.stage with
    | blocked first reached =>
      rcases ht.phase_of_blocked (M := M) hx hstage with rfl | ⟨t, he⟩
      · exact .inr (.inr ⟨first, rfl⟩)
      · exact (not_effect_of_ready hr he nofun).elim
    | ended => exact .inl rfl
    | _ =>
      rw [hstage] at hgo
      exact absurd rfl hgo

/-- Only who has died is missing. -/
theorem dead_of_ready (hm : p ∈ r.barrier.missing) :
    ∃ x, r.participants[p]? = some x ∧ x.stage = .dead := by
  have hp := ht.recorded.pace
  obtain ⟨hlt, hna⟩ := hp.mem_missing_iff.1 hm
  rw [hp.arrived_iff, not_or] at hna
  obtain ⟨x, hx⟩ := ht.exists_participant hlt
  have hf := ht.fits p x hx
  refine ⟨x, hx, ?_⟩
  rcases stage_of_ready hr ht hanswer hx with hstage | hstage | ⟨first, hstage⟩
  · exact absurd (hf.exited_iff.2 hstage) hna.1
  · exact hstage
  · rw [hstage] at hf
    exact absurd hf.of_blocked.2.1 hna.2

/-- The missing cannot arrive any more. -/
theorem timely_of_ready : Timely M r .expirePhase := by
  intro t hreach p hm
  obtain ⟨x, hx, hstage⟩ := dead_of_ready hr ht hanswer hm
  exact ht.missing_of_reaches hx hstage hreach

/-- Either the run has ended, or the orchestrator waits for a phase that is not complete. -/
theorem ended_or_waiting_of_ready :
    (∃ outcome, r.outcome? = some outcome) ∨ ∃ phase limit left failure,
      r.conductor = .wait phase limit left failure ∧ r.barrier.isComplete = false := by
  have hc := ht.conducts
  cases hconductor : r.conductor with
  | returned result => exact .inl ⟨.ok result, by rw [outcome?, hconductor]⟩
  | panicked fault => exact .inl ⟨.error fault, by rw [outcome?, hconductor]⟩
  | conduct left failure =>
    cases left with
    | nil => exact (not_effect_of_ready hr (.phasesOver hconductor) conduct_ne_expirePhase).elim
    | cons phase left =>
      cases hlimit : r.deadline phase with
      | ok limit =>
        exact (not_effect_of_ready hr (.call hconductor hlimit) conduct_ne_expirePhase).elim
      | error fault =>
        exact (not_effect_of_ready hr (.overflow hconductor hlimit) conduct_ne_expirePhase).elim
  | wait phase limit left failure =>
    cases hcomplete : r.barrier.isComplete with
    | true =>
      exact (not_effect_of_ready hr (.complete hconductor hcomplete) conduct_ne_expirePhase).elim
    | false => exact .inr ⟨phase, limit, left, failure, rfl, rfl⟩
  | join failure =>
    rw [hconductor] at hc
    refine (not_effect_of_ready hr (.joined hconductor ?_) conduct_ne_expirePhase).elim
    intro x hm
    obtain ⟨p, hx⟩ := List.mem_iff_getElem?.1 hm
    have hf := ht.fits p x hx
    rcases stage_of_ready hr ht hanswer hx with hstage | hstage | ⟨first, hstage⟩
    · rw [hstage]
      rfl
    · rw [hstage]
      rfl
    · -- nobody is blocked in a phase after the last
      rw [hstage] at hf
      have hk := hf.of_blocked.2.2
      cases hc with
      | join hphase => cases first <;> simp_all

end

/-! ## The run that is performed -/

theorem participant_eq_none (hle : r.participants.length ≤ p) :
    step M r (.participant p) = none := by
  simp [step, participant, List.getElem?_eq_none hle]

theorem expireReceive_eq_none (hle : r.participants.length ≤ p) :
    step M r (.expireReceive p) = none := by
  simp [step, expireReceive, List.getElem?_eq_none hle]

/-- Where none of the labels that wait for nothing is enabled, a receive may time out. -/
theorem ready_expireReceive (hmoves : ∀ s i, i ∉ M.moves s → M.step s i = none)
    (hnone : ∀ a ∈ moves M r, step M r a = none) (p : Nat) :
    (machine M).Ready r (.expireReceive p) := by
  intro a ha
  cases a with
  | participant q =>
    by_cases hlt : q < r.participants.length
    · exact hnone (.participant q) (List.mem_append_left _ (List.mem_append_right _
        (List.mem_map_of_mem (List.mem_range.2 hlt))))
    · exact participant_eq_none (Nat.le_of_not_lt hlt)
  | conduct => exact hnone _ (List.mem_append_right _ List.mem_cons_self)
  | medium i =>
    by_cases hi : i ∈ M.moves r.medium
    · exact hnone _ (List.mem_append_left _ (List.mem_append_left _ (List.mem_map_of_mem hi)))
    · show mediumStep M r i = none
      rw [mediumStep, hmoves _ _ hi]
      rfl
  | expireReceive | expirePhase => cases ha

/-- The time-out of the phase comes after those of all receives. -/
theorem mem_of_expiries_eq {before after : List (Label I)}
    (hlist : expiries r = before ++ .expirePhase :: after) (hlt : p < r.participants.length) :
    .expireReceive p ∈ before := by
  have hm : Label.expireReceive (I := I) p ∈
      (List.range r.participants.length).map Label.expireReceive :=
    List.mem_map_of_mem (List.mem_range.2 hlt)
  rcases List.append_eq_append_iff.1 hlist with ⟨more, hbefore, -⟩ | ⟨more, hreceives, hlast⟩
  · rw [hbefore]
    exact List.mem_append_left more hm
  · cases more with
    | nil => rwa [hreceives, List.append_nil] at hm
    | cons a more =>
      obtain ⟨rfl, -⟩ := List.cons.inj hlast
      have hphase : Label.expirePhase (I := I) ∈ before ++ .expirePhase :: more :=
        List.mem_append_right before List.mem_cons_self
      rw [← hreceives] at hphase
      simp at hphase

/-- The run that `settle` performs is one in which time-outs wait for all else, if the medium names
all steps it can take. -/
theorem reaches_settle (hmoves : ∀ s i, i ∉ M.moves s → M.step s i = none) (fuel : Nat)
    (r : Run S) : (machine M).Reaches r (r.settle M fuel) := by
  apply Machine.reaches_drive
  · intro r a ha b
    simp only [moves, List.mem_append, List.mem_map, List.mem_singleton] at ha
    rcases ha with (⟨i, -, rfl⟩ | ⟨p, -, rfl⟩) | rfl <;> cases b <;> rfl
  · intro r hnone before a after hlist hbefore
    have hready := ready_expireReceive hmoves hnone
    cases a with
    | expireReceive p => exact hready p
    | expirePhase =>
      have hexpired (p : Nat) : step M r (.expireReceive p) = none := by
        by_cases hlt : p < r.participants.length
        · exact hbefore _ (mem_of_expiries_eq hlist hlt)
        · exact expireReceive_eq_none (Nat.le_of_not_lt hlt)
      intro b hb
      cases b with
      | participant | conduct | medium => exact hready 0 _ rfl
      | expireReceive p => exact hexpired p
      | expirePhase => cases hb
    | participant p | conduct | medium i =>
      have hm : _ ∈ expiries r := hlist ▸ List.mem_append_right before List.mem_cons_self
      simp [expiries] at hm

/-! ## Runs on a steady medium -/

namespace Steady

variable {Inv : Run S → Prop} (hs : Steady M μ k n Inv)
include hs

theorem inv_of_run (hr : TimelyRun M r as t) (hinv : Inv r) : Inv t := by
  induction hr with
  | nil r => exact hinv
  | cons htimely hstep _ ih => exact ih (hs.step _ _ _ hinv htimely hstep)

/-- **Every timely run is finite.** -/
theorem length_le (hr : TimelyRun M r as t) (hinv : Inv r) :
    as.length + Run.work μ k t ≤ Run.work μ k r := by
  induction hr with
  | nil r => simp
  | cons htimely hstep _ ih =>
    obtain ⟨es, he⟩ := effect_of_step hstep
    have hlt := he.work_lt (hs.measured _ hinv)
    have hle := ih (hs.step _ _ _ hinv htimely hstep)
    rw [List.length_cons]
    omega

theorem answers_of_ready (hinv : Inv r) (hr : (machine M).Ready r .expirePhase) (p : Nat)
    (x : Participant) (hx : r.participants[p]? = some x) (hawaits : x.stage.awaitsReply = true) :
    ∃ reply s, M.reply? r.medium p = some (reply, s) := by
  refine hs.answers r hinv ?_ p x hx hawaits
  intro i
  rw [Option.eq_none_iff_forall_ne_some]
  rintro ⟨medium, handover⟩ hi
  exact not_effect_of_ready hr (.pass hi) nofun

/-- Time-outs that wait for all else are timely. -/
theorem timely_of_next (hinv : Inv r) (hn : (machine M).Next r a t) : Timely M r a := by
  obtain ⟨h, ht⟩ := hs.tracked r hinv
  cases a with
  | participant | conduct | medium => trivial
  | expireReceive p =>
    refine hs.patient r p hinv hn.1 ?_
    rw [show Run.step M r (.expireReceive p) = some t from hn.2]
    nofun
  | expirePhase => exact timely_of_ready hn.1 ht (hs.answers_of_ready hinv hn.1)

/-- A run in which time-outs wait for all else. -/
theorem timelyRun_of_run (hr : (machine M).Run r as t) (hinv : Inv r) : TimelyRun M r as t := by
  induction hr with
  | nil r => exact .nil r
  | cons hn _ ih =>
    have htimely := hs.timely_of_next hinv hn
    exact .cons htimely hn.2 (ih (hs.step _ _ _ hinv htimely hn.2))

/-- Where nothing but the time-out of the phase can follow, nothing else is possible. -/
theorem ready_of_quiet (hinv : Inv r)
    (hq : ∀ a, a ≠ .expirePhase → Timely M r a → Run.step M r a = none) :
    (machine M).Ready r .expirePhase := by
  have hready (p : Nat) : (machine M).Ready r (.expireReceive p) := by
    intro a ha
    cases a with
    | participant q => exact hq (.participant q) nofun trivial
    | conduct => exact hq .conduct nofun trivial
    | medium i => exact hq (.medium i) nofun trivial
    | expireReceive | expirePhase => cases ha
  intro a ha
  cases a with
  | participant | conduct | medium => exact hready 0 _ rfl
  | expireReceive p =>
    by_contra hne
    exact hne (hq (.expireReceive p) nofun (hs.patient r p hinv (hready p) hne))
  | expirePhase => cases ha

/-- The run that is performed is timely. -/
theorem timelyRun_settle (hmoves : ∀ s i, i ∉ M.moves s → M.step s i = none) (hinv : Inv r)
    (fuel : Nat) : ∃ as, TimelyRun M r as (r.settle M fuel) := by
  obtain ⟨as, hr⟩ := reaches_settle hmoves fuel r
  exact ⟨as, hs.timelyRun_of_run hr hinv⟩

/-- **A timely run stops only where the scenario has ended.** -/
theorem ended_of_quiet (hinv : Inv r) (hq : Quiet M r) : ∃ outcome, r.outcome? = some outcome := by
  obtain ⟨h, ht⟩ := hs.tracked r hinv
  have hphase := hs.ready_of_quiet hinv fun a _ => hq a
  have hanswer := hs.answers_of_ready hinv hphase
  rcases ended_or_waiting_of_ready hphase ht hanswer with
    hended | ⟨phase, limit, left, failure, hconductor, hincomplete⟩
  · exact hended
  · have hlimit := ht.deadline_of_wait hconductor
    obtain ⟨deadline, rfl⟩ := Waiting.exists_limit (hs.limited r hinv) hlimit
    have he : Effect M r .expirePhase [] _ := .giveUp hconductor hincomplete
    exact absurd (hq _ (timely_of_ready hphase ht hanswer)) he.not_none

/-- Who is missing for ever dies in this phase. -/
theorem exists_dead (hinv : Inv r)
    (hmissing : ∀ t, (hastyMachine M).Reaches r t → p ∈ t.barrier.missing) :
    ∃ t x, Inv t ∧ t.barrier.phase = r.barrier.phase ∧ t.participants[p]? = some x ∧
      x.stage = .dead := by
  induction hk : Run.work μ k r using Nat.strongRecOn generalizing r with
  | ind m ih =>
    obtain ⟨h, ht⟩ := hs.tracked r hinv
    have hm := hmissing r (.refl r)
    by_cases hq : ∀ a, a ≠ .expirePhase → Timely M r a → Run.step M r a = none
    · have hphase := hs.ready_of_quiet hinv hq
      obtain ⟨x, hx, hstage⟩ := dead_of_ready hphase ht (hs.answers_of_ready hinv hphase) hm
      exact ⟨r, x, hinv, rfl, hx, hstage⟩
    · obtain ⟨a, hne, hearly, hstep⟩ :
          ∃ a, a ≠ .expirePhase ∧ Timely M r a ∧ Run.step M r a ≠ none := by
        simpa using hq
      obtain ⟨u, hstep⟩ := Option.ne_none_iff_exists'.1 hstep
      obtain ⟨es, he⟩ := effect_of_step hstep
      have hincomplete : r.barrier.isComplete = false := by
        rw [Bool.eq_false_iff, ne_eq, ← ht.recorded.pace.missing_eq_nil_iff]
        exact List.ne_nil_of_mem hm
      have hlt := he.work_lt (hs.measured r hinv)
      obtain ⟨t, x, htinv, hphase, hx, hstage⟩ :=
        ih _ (hk ▸ hlt) (hs.step _ _ _ hinv hearly hstep)
          (fun t ht => hmissing t ((reaches_of_step hstep).trans ht)) rfl
      exact ⟨t, x, htinv, hphase.trans (he.phase_eq hincomplete), hx, hstage⟩

/-- **Every timely run can be continued until the scenario ends.** -/
theorem exists_end (hinv : Inv r) :
    ∃ as t outcome, TimelyRun M r as t ∧ t.outcome? = some outcome := by
  induction hk : Run.work μ k r using Nat.strongRecOn generalizing r with
  | ind m ih =>
    by_cases hq : Quiet M r
    · obtain ⟨outcome, hended⟩ := hs.ended_of_quiet hinv hq
      exact ⟨[], r, outcome, .nil r, hended⟩
    · obtain ⟨a, htimely, hne⟩ : ∃ a, Timely M r a ∧ Run.step M r a ≠ none := by
        simpa [Quiet] using hq
      obtain ⟨t, hstep⟩ := Option.ne_none_iff_exists'.1 hne
      obtain ⟨es, he⟩ := effect_of_step hstep
      have hlt := he.work_lt (hs.measured r hinv)
      obtain ⟨as, u, outcome, hr, hended⟩ :=
        ih _ (hk ▸ hlt) (hs.step _ _ _ hinv htimely hstep) rfl
      exact ⟨a :: as, u, outcome, .cons htimely hstep hr, hended⟩

/-- Timely runs end: they are finite, stop only there and can always be continued until then. -/
theorem ends (hinv : Inv r) : ∃ bound, ∀ as t, TimelyRun M r as t →
    as.length ≤ bound ∧ (Quiet M t → ∃ outcome, t.outcome? = some outcome) ∧
      ∃ bs u outcome, TimelyRun M t bs u ∧ u.outcome? = some outcome := by
  refine ⟨Run.work μ k r, fun as t hr => ?_⟩
  have ht := hs.inv_of_run hr hinv
  have hle := hs.length_le hr hinv
  exact ⟨Nat.le_of_add_right_le hle, hs.ended_of_quiet ht, hs.exists_end ht⟩

end Steady

end Run

end Lockstep.Scenario
