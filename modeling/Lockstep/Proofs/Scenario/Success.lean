import Mathlib.Data.List.Perm.Subperm
import Lockstep.Proofs.Scenario.Deliveries

/-!
# A scenario on a relay

A scenario begins on a line that is `Idle`: nobody has a call under way, and the handlers of earlier
scenarios have nothing left. It takes as many steps as it needs and ends (`Begun.steady`), is never
stuck (`Begun.not_giveUp`), panics only if its last wait has no end (`Underway.of_fault`), and else returns
what `Returns` says (`Underway.returns`). Then the line is idle again (`Underway.idle`), the members are those that there were (`Underway.roster_perm`), one
number is taken for each participant (`Underway.nextId_eq`), and the members have been sent each
expected message once (`Underway.recorded_eq`).
-/

set_option autoImplicit false

namespace Lockstep.Scenario

open Medium Barrier History
open Relay (Line Call Traffic)

/-- Nobody uses the relay, and what the handlers of participants were sent is handled. -/
structure Idle (H : Relay.History) (l : Line) : Prop where
  recorded : Relay.Recorded H l.traffic
  owned : H.Owned
  calls : l.traffic.calls = []
  owners : ∀ id p, l.owners.lookup id = some p → Relay.Settled H l.traffic id

/-- A state of a scenario that began on the line `l₀`. -/
def Begun (c : Config) (cluster : String) (clock : Clock) (l₀ : Line) (H₀ : Relay.History)
    (r : Run Line) : Prop :=
  r.waiting = .timed clock ∧
    ∃ h H spots, Underway l₀.traffic.relay.closed c cluster l₀ H₀ h H spots r

/-- What a scenario returns on a relay that is closed or not. -/
inductive Returns (c : Config) : Bool → Except ScenarioError Unit → Prop
  | ok : Returns c false (.ok ())
  | refused {errors} : errors.Perm (List.replicate c.clients (.connect .relayClosed) ++
      List.replicate c.servers (.register .relayClosed)) →
      Returns c true (.error (.phaseFailed .startup ⟨0, errors⟩))

variable {closed : Bool} {c : Config} {cluster : String} {h es : History ParticipantError}
  {H₀ H : Relay.History} {spots : Nat → Spot} {r t : Run Line} {a : Run.Label Traffic.Label}
  {as : List (Run.Label Traffic.Label)} {l₀ : Line} {p id conn : Nat} {x : Participant}
  {party : Party} {spot : Spot} {result : Except ScenarioError Unit} {e : Endpoint} {clock : Clock}

theorem underway_begin (hi : Idle H₀ l₀) (waiting : Waiting) :
    Underway l₀.traffic.relay.closed c cluster l₀ H₀ [] H₀ (fun _ => ⟨.outside, 0⟩)
      (Run.begin c l₀ waiting) where
  relayed := {
    config := rfl
    tracked := Run.tracked_begin c l₀ waiting
    party := fun _ => rfl
    recorded := hi.recorded
    owned := hi.owned
    closed_eq := rfl
    callers := fun p _ => by
      show l₀.traffic.call? p = none
      rw [Traffic.call?, hi.calls]
      rfl
    outside := fun _ _ => rfl
    onLine := fun p x hx => by
      have hnone : l₀.traffic.call? p = none := by
        rw [Traffic.call?, hi.calls]
        rfl
      rw [Run.stage_of_parties hx]
      exact hnone ▸ .enter }
  placed := {
    range := fun hid => by cases hid
    injective := fun hid => by cases hid
    surjective := fun hle hlt => absurd hlt (Nat.not_lt.2 hle)
    opened := fun hid => by cases hid
    unborn := fun hplace => by rcases hplace with hplace | hplace <;> cases hplace
    inside := fun hplace => by cases hplace
    others := fun hm hle => absurd
      (hi.recorded.ledger.inserted (Relay.History.inserted_of_mem_roster hm)).1 (Nat.not_lt.2 hle)
    observers := fun _ => Iff.rfl
    owners := fun howner => .inl (hi.owners _ _ howner)
    owner := fun hid => by cases hid
    left := fun hplace => by cases hplace }
  sent := ⟨⟨[], rfl, fun _ _ => List.not_mem_nil⟩, fun _ _ _ => (List.append_nil _).symm⟩
  heard p x j hx hparty := by
    rw [Run.stage_of_parties hx]
    exact ⟨[], .enter rfl, fun hopen => by cases hopen⟩
  first := Nat.le_refl _

/-! ## How many steps it takes -/

section
variable (hu : Underway closed c cluster l₀ H₀ h H spots r)
include hu

/-- The numbers of the participants are those that were given out since the scenario began. -/
theorem Underway.numbers_perm :
    ((List.range (c.clients + c.servers)).filterMap fun p => (spots p).place.number?).Perm
      (List.range' l₀.traffic.relay.nextId
        (r.medium.traffic.relay.nextId - l₀.traffic.relay.nextId)) := by
  refine (List.perm_ext_iff_of_nodup ?_ List.nodup_range').2 fun id => ?_
  · exact List.nodup_range.filterMap fun p q id hp hq => hu.placed.injective hp hq
  · have hfirst := hu.first
    rw [List.mem_filterMap, List.mem_range'_1]
    refine ⟨?_, fun hid => ?_⟩
    · rintro ⟨p, -, hid⟩
      have := hu.placed.range hid
      omega
    · obtain ⟨p, hp⟩ := hu.placed.surjective hid.1 (by omega)
      refine ⟨p, List.mem_range.2 (Nat.lt_of_not_le fun hle => ?_), hp⟩
      rw [hu.relayed.outside p hle] at hp
      cases hp

theorem Underway.nextId_le :
    r.medium.traffic.relay.nextId ≤ l₀.traffic.relay.nextId + (c.clients + c.servers) := by
  have hlength := hu.numbers_perm.length_eq
  have hle := List.length_filterMap_le (fun p => (spots p).place.number?)
    (List.range (c.clients + c.servers))
  rw [List.length_range'] at hlength
  rw [List.length_range] at hle
  omega

theorem Underway.length_members_le (other : String) :
    (r.medium.traffic.relay.members other).length ≤
      l₀.traffic.relay.nextId + (c.clients + c.servers) :=
  Nat.le_trans (hu.relayed.recorded.length_members_le other) hu.nextId_le

theorem Underway.measured : Run.Measured (Relay.line cluster)
    (Line.work (l₀.traffic.relay.nextId + (c.clients + c.servers)))
    (3 * (l₀.traffic.relay.nextId + (c.clients + c.servers)) + 4) r where
  ask _ _ _ _ _ _ := Line.work_ask_le _ _ _ _ _
  reply _ _ _ hreply := Line.work_reply_le hreply
  step _ _ _ hs :=
    (Line.steps_of_step hs).work_lt hu.relayed.recorded hu.length_members_le

/-- Where the relay takes no step by itself, it has answered. -/
theorem Underway.answers (hnone : ∀ b, (Relay.line cluster).step r.medium b = none)
    (hx : r.participants[p]? = some x) (hawaits : x.stage.awaitsReply = true) :
    ∃ reply l, (Relay.line cluster).reply? r.medium p = some (reply, l) := by
  obtain ⟨c₀, hc⟩ := (hu.relayed.onLine p x hx).exists_call hawaits
  obtain ⟨result, rfl⟩ := Line.over_of_halted hnone hu.relayed.recorded hc
  exact ⟨_, _, Line.reply?_eq_some_iff.2 ⟨result, hc, rfl, rfl⟩⟩

/-- A receive does not time out where all else has to wait. -/
theorem Underway.not_expireReceive (hrec : Relay.Recorded H₀ l₀.traffic)
    (hready : (Run.machine (Relay.line cluster)).Ready r (.expireReceive p)) :
    Run.step (Relay.line cluster) r (.expireReceive p) = none := by
  rw [Option.eq_none_iff_forall_ne_some]
  intro t hs
  obtain ⟨es, he⟩ := Run.effect_of_step hs
  cases he with
  | miss hx hstage hwanted hempty =>
    obtain ⟨id, k, e, hv⟩ := hu.verifies hrec hx hstage
    have hhalted (b : Traffic.Label) : r.medium.step b = none := by
      rw [Option.eq_none_iff_forall_ne_some]
      rintro ⟨l, handover⟩ hstep
      have hnone : Run.mediumStep (Relay.line cluster) r b = none := hready (.medium b) rfl
      simp [Run.mediumStep, Relay.line, hstep] at hnone
    have htake : r.medium.traffic.step (.take id) = none := by
      have hnone := hhalted (.take id)
      simpa [Line.step, Traffic.step] using hnone
    have hfinish : r.medium.traffic.step (.finish id false) = none := by
      have hnone := hhalted (.finish id false)
      simpa [Line.step, Line.silent] using hnone
    exact hv.queue_ne_nil hwanted hempty
      (Relay.queue_eq_nil_of_idle hv.endpoint hv.alive htake hfinish)

end

/-- A relay answers, and hands over what it has and no more. -/
theorem Begun.steady (hrec : Relay.Recorded H₀ l₀.traffic)
    (hroom : (Run.serverInbox c).isOk = true) : Run.Steady (Relay.line cluster)
      (Line.work (l₀.traffic.relay.nextId + (c.clients + c.servers)))
      (3 * (l₀.traffic.relay.nextId + (c.clients + c.servers)) + 4) (c.clients + c.servers)
      (Begun c cluster clock l₀ H₀) where
  tracked := fun r ⟨_, h, _, _, hu⟩ => ⟨h, hu.relayed.tracked⟩
  limited := fun r ⟨hwaiting, _⟩ => hwaiting ▸ nofun
  step := fun r a t ⟨hwaiting, h, H, spots, hu⟩ htimely hs => by
    obtain ⟨es, he⟩ := Run.effect_of_step hs
    exact ⟨he.waiting_eq.trans hwaiting, _, hu.step hrec hroom htimely he⟩
  measured := fun r ⟨_, h, H, spots, hu⟩ => hu.measured
  answers := fun r ⟨_, h, H, spots, hu⟩ hnone p x hx hawaits => hu.answers hnone hx hawaits
  patient := fun r p ⟨_, h, H, spots, hu⟩ hready hne =>
    absurd (hu.not_expireReceive hrec hready) hne

/-! ## What it returns -/

theorem OnLine.not_dead {call : Option Call} :
    ¬ OnLine closed c cluster h p party conn .dead call spot := nofun

/-- The orchestrator has not given up. -/
def Conductor.IsPatient (conductor : Conductor) : Prop :=
  ∀ phase timeout, conductor ≠ .returned (.error (.stuck phase timeout))

/-- **A scenario is never stuck**: nobody is missing for ever. -/
theorem Begun.not_giveUp (hb : Begun c cluster clock l₀ H₀ r) (hrec : Relay.Recorded H₀ l₀.traffic)
    (hroom : (Run.serverInbox c).isOk = true)
    (htimely : Run.Timely (Relay.line cluster) r .expirePhase) :
    r.barrier.isComplete = true := by
  obtain ⟨-, h, H, spots, hu⟩ := id hb
  rw [← hu.relayed.tracked.recorded.pace.missing_eq_nil_iff, List.eq_nil_iff_forall_not_mem]
  intro p hm
  obtain ⟨t, x, ⟨-, h', H', spots', hu'⟩, -, hx, hstage⟩ :=
    (Begun.steady hrec hroom).exists_dead hb fun t hr => htimely t hr p hm
  have hon := hu'.relayed.onLine p x hx
  rw [hstage] at hon
  exact hon.not_dead

theorem Begun.isPatient_step (hb : Begun c cluster clock l₀ H₀ r) (hrec : Relay.Recorded H₀ l₀.traffic)
    (hroom : (Run.serverInbox c).isOk = true) (hpatient : r.conductor.IsPatient)
    (htimely : Run.Timely (Relay.line cluster) r a)
    (he : Run.Effect (Relay.line cluster) r a es t) : t.conductor.IsPatient := by
  cases he with
  | ask | hear | work | sync | refused | exit | miss => exact hpatient
  | pass =>
    rw [Run.handOver_conductor]
    exact hpatient
  | call | overflow | complete | phasesOver => exact nofun
  | @joined failure => cases failure <;> exact nofun
  | giveUp _ hincomplete =>
    rw [hb.not_giveUp hrec hroom htimely] at hincomplete
    cases hincomplete

theorem begun_of_timelyRun (hr : Run.TimelyRun (Relay.line cluster) r as t)
    (hb : Begun c cluster clock l₀ H₀ r) (hrec : Relay.Recorded H₀ l₀.traffic)
    (hroom : (Run.serverInbox c).isOk = true) (hpatient : r.conductor.IsPatient) :
    Begun c cluster clock l₀ H₀ t ∧ t.conductor.IsPatient := by
  induction hr with
  | nil r => exact ⟨hb, hpatient⟩
  | cons htimely hstep _ ih =>
    obtain ⟨es, he⟩ := Run.effect_of_step hstep
    exact ih ((Begun.steady hrec hroom).step _ _ _ hb htimely hstep)
      (hb.isPatient_step hrec hroom hpatient htimely he)

/-- How everybody has left, with nothing under way. -/
theorem Underway.leaves (hu : Underway closed c cluster l₀ H₀ h H spots r) (hphase : h.phase = 3)
    (hlt : p < c.clients + c.servers) : ∃ x error, r.participants[p]? = some x ∧
      Leaves closed c h p x.party x.conn error (spots p) ∧ r.medium.traffic.call? p = none ∧
      .exited p error ∈ h ∧ ∀ e, .exited p e ∈ h → e = error := by
  obtain ⟨x, hx⟩ := hu.relayed.tracked.exists_participant hlt
  have hstage := hu.relayed.tracked.ended_of_over hphase hx
  have hf := hu.relayed.tracked.fits p x hx
  have hon := hu.relayed.onLine p x hx
  rw [hstage] at hon hf
  generalize r.medium.traffic.call? p = call at hon ⊢
  obtain ⟨error, hexited⟩ := hf.exited_iff.2 rfl
  cases hon with
  | ended hl hone =>
    obtain rfl := hone error hexited
    exact ⟨x, _, hx, hl, rfl, hexited, hone⟩

section
variable (hu : Underway false c cluster l₀ H₀ h H spots r) (hphase : h.phase = 3)
include hu hphase

theorem Underway.place_eq (hlt : p < c.clients + c.servers) :
    ∃ party id, (spots p).place = Party.down id party := by
  obtain ⟨x, error, -, hl, -⟩ := hu.leaves hphase hlt
  generalize spots p = spot at hl
  cases hl with
  | well => exact ⟨_, _, rfl⟩
  | refused hclosed => cases hclosed

theorem Underway.errors_eq_nil (k : Nat) : h.errors k = [] := by
  rw [History.errors, List.map_eq_nil_iff, List.eq_nil_iff_forall_not_mem]
  rintro ⟨p, e⟩ hm
  have hexited := ((hu.relayed.tracked.recorded.account.mem_reports k p e).1 hm).1
  have hlt := hu.relayed.tracked.recorded.pace.lt_of_exited ⟨_, hexited⟩
  obtain ⟨x, error, -, hl, -, -, hone⟩ := hu.leaves hphase hlt
  obtain rfl := hone _ hexited
  generalize spots p = spot at hl
  cases hl with
  | refused hclosed => cases hclosed

/-- On an open relay no phase has failed. -/
theorem Underway.resultOf_open {failure : Option Failure}
    (hfailure : FirstFailure h.returns failure) : Returns c false (Run.resultOf failure) := by
  cases hfailure with
  | none => exact .ok
  | @some phase errors hget hne =>
    have hlt : phase.index < h.phase := by
      rw [hphase]
      cases phase <;> decide
    rw [hu.relayed.tracked.getElem?_returns hlt, hu.errors_eq_nil hphase] at hget
    exact absurd (Option.some.inj hget).symm hne

end

section
variable (hu : Underway true c cluster l₀ H₀ h H spots r) (hphase : h.phase = 3)
include hu hphase

theorem Underway.refused (hlt : p < c.clients + c.servers) : ∃ x, r.participants[p]? = some x ∧
    (spots p).place = .outside ∧ h.syncs p = 0 ∧
      ∀ e, .exited p e ∈ h ↔ e = some (Run.enterError x.party .relayClosed) := by
  obtain ⟨x, error, hx, hl, -, hexited, hone⟩ := hu.leaves hphase hlt
  generalize spots p = spot at hl
  cases hl with
  | well hopen => cases hopen
  | refused _ hsyncs => exact ⟨x, hx, rfl, hsyncs, fun e => ⟨hone e, fun heq => heq ▸ hexited⟩⟩

/-- On a closed relay everybody fails to connect or to register. -/
theorem Underway.errors_perm : (h.errors 0).Perm
    (List.replicate c.clients (.connect .relayClosed) ++
      List.replicate c.servers (.register .relayClosed)) := by
  let script (x : Participant) : Script ParticipantError :=
    ⟨0, .exit (some (Run.enterError x.party .relayClosed))⟩
  have hexpected : Threads.expectedErrors ((Run.parties c).map script) 0 =
      List.replicate c.clients (.connect .relayClosed) ++
        List.replicate c.servers (.register .relayClosed) := by
    simp [Threads.expectedErrors, Run.parties, script, Script.report?, Run.enterError,
      Function.comp_def, List.map_const']
  have hrec := hu.relayed.tracked.recorded
  have hlength : ((Run.parties c).map script).length = c.clients + c.servers := by
    rw [List.length_map, Run.length_parties]
  rw [← hlength] at hrec
  rw [← hexpected]
  refine Threads.errors_perm_of_reports hrec fun p s hs e => ?_
  rw [List.getElem?_map] at hs
  obtain ⟨y, hy, rfl⟩ := Option.map_eq_some_iff.1 hs
  have hlt : p < c.clients + c.servers :=
    Run.length_parties c ▸ (List.getElem?_eq_some_iff.1 hy).1
  obtain ⟨x, hx, -, hsyncs, hexited⟩ := hu.refused hphase hlt
  have hparty := hu.relayed.party p
  rw [hx, hy, Option.map_some, Option.map_some, Option.some.injEq] at hparty
  rw [hexited, hparty, hsyncs, Option.some.injEq]
  simp [script, Script.report?, eq_comm]

/-- On a closed relay the first phase has failed. -/
theorem Underway.resultOf_closed {failure : Option Failure} (hservers : c.servers ≠ 0)
    (hfailure : FirstFailure h.returns failure) : Returns c true (Run.resultOf failure) := by
  have hperm := hu.errors_perm hphase
  have hreturns : h.returns[0]? = some (h.errors 0) :=
    hu.relayed.tracked.getElem?_returns (by omega)
  have hne : h.errors 0 ≠ [] := by
    intro hnil
    have hlength := hperm.length_eq
    simp only [hnil, List.length_nil, List.length_append, List.length_replicate] at hlength
    omega
  cases hfailure with
  | none hall => exact absurd (hall _ (List.mem_of_getElem? hreturns)) hne
  | @some phase errors hget _ hbefore =>
    cases phase with
    | startup =>
      obtain rfl := Option.some.inj (hreturns.symm.trans hget)
      exact .refused hperm
    | broadcasting | verification =>
      have hnil := hreturns.symm.trans (hbefore 0 (by decide))
      exact absurd (Option.some.inj hnil) hne

end

/-- **The result of a scenario on a relay.** -/
theorem Underway.returns (hu : Underway closed c cluster l₀ H₀ h H spots r)
    (hvalid : c.validate = .ok ()) (hpatient : r.conductor.IsPatient)
    (hresult : r.result? = some result) : h.phase = 3 ∧ Returns c closed result := by
  have hc := hu.relayed.tracked.conducts
  cases hconductor : r.conductor with
  | conduct | wait | join | panicked =>
    rw [Run.result?, hconductor] at hresult
    cases hresult
  | returned result' =>
    rw [Run.result?, hconductor, Option.some.injEq] at hresult
    subst hresult
    rw [hconductor] at hc
    cases hc with
    | @stuck phase _ timeout => exact absurd hconductor (hpatient phase timeout)
    | returned hphase hfailure =>
      refine ⟨hphase, ?_⟩
      cases closed with
      | false => exact hu.resultOf_open hphase hfailure
      | true => exact hu.resultOf_closed hphase (Run.servers_ne_zero hvalid) hfailure

/-- Where all phases are over, the last wait had an end. -/
theorem Underway.ends (hu : Underway closed c cluster l₀ H₀ h H spots r) (hphase : h.phase = 3) :
    r.waiting.Ends c .verification :=
  hu.relayed.config ▸ hu.relayed.tracked.waited .verification (hphase ▸ Phase.index_lt _)

/-- A scenario panics only if its last wait has no end. -/
theorem Underway.of_fault (hu : Underway closed c cluster l₀ H₀ h H spots r) {fault : Fault}
    (hended : r.outcome? = some (.error fault)) :
    fault = .deadline ∧ ¬ r.waiting.Ends c .verification := by
  have hc := hu.relayed.tracked.conducts
  cases hconductor : r.conductor with
  | conduct | wait | join | returned =>
    rw [Run.outcome?, hconductor] at hended
    cases hended
  | panicked =>
    rw [Run.outcome?, hconductor] at hended
    cases hended
    rw [hconductor] at hc
    cases hc with
    | @panicked phase _ _ hfault =>
      rw [Run.deadline, hu.relayed.config] at hfault
      obtain ⟨rfl, hnot⟩ := Waiting.of_deadline_error hfault
      exact ⟨rfl, fun hends => hnot (hends.of_le (Nat.le_of_lt_succ phase.index_lt))⟩

/-! ## What it leaves behind -/

section
variable (hu : Underway closed c cluster l₀ H₀ h H spots r) (hphase : h.phase = 3)
include hu hphase

theorem Underway.place_of_number (hid : (spots p).place.number? = some id) :
    ∃ party, (spots p).place = Party.down id party := by
  have hlt : p < c.clients + c.servers := by
    refine Nat.lt_of_not_le fun hle => ?_
    rw [hu.relayed.outside p hle] at hid
    cases hid
  cases closed with
  | false =>
    obtain ⟨party, id', heq⟩ := hu.place_eq hphase hlt
    rw [heq] at hid
    obtain rfl : id' = id := by cases party <;> exact Option.some.inj hid
    exact ⟨party, heq⟩
  | true =>
    obtain ⟨x, -, heq, -⟩ := hu.refused hphase hlt
    rw [heq] at hid
    cases hid

/-- The members are again those that there were when the scenario began. -/
theorem Underway.roster_perm (hrec : Relay.Recorded H₀ l₀.traffic) :
    (H.roster cluster).Perm (H₀.roster cluster) := by
  refine (List.perm_ext_iff_of_nodup (Relay.History.nodup_roster _ _)
    (Relay.History.nodup_roster _ _)).2 fun id => ?_
  by_cases hlt : id < l₀.traffic.relay.nextId
  · exact hu.placed.observers hlt
  · have hle := Nat.le_of_not_lt hlt
    refine iff_of_false (fun hm => ?_) fun hm => ?_
    · obtain ⟨p, hplace⟩ := hu.placed.others hm hle
      obtain ⟨party, hdown⟩ := hu.place_of_number hphase (by rw [hplace]; rfl)
      rw [hplace] at hdown
      cases party <;> cases hdown
    · exact hlt (hrec.ledger.inserted (Relay.History.inserted_of_mem_roster hm)).1

/-- A scenario takes one number for each participant, unless the relay is closed. -/
theorem Underway.nextId_eq : r.medium.traffic.relay.nextId =
    l₀.traffic.relay.nextId + if closed then 0 else c.clients + c.servers := by
  have hfirst := hu.first
  have hlength := hu.numbers_perm.length_eq
  rw [List.length_range'] at hlength
  cases closed with
  | false =>
    have hall : ∀ p ∈ List.range (c.clients + c.servers), (spots p).place.number? =
        some (((spots p).place.number?).getD 0) := by
      intro p hp
      obtain ⟨party, id, hplace⟩ := hu.place_eq hphase (List.mem_range.1 hp)
      rw [hplace]
      cases party <;> rfl
    rw [List.filterMap_congr hall, List.filterMap_eq_map', List.length_map,
      List.length_range] at hlength
    simp only [Bool.false_eq_true, if_false]
    omega
  | true =>
    have hall : ∀ p ∈ List.range (c.clients + c.servers), (spots p).place.number? = none := by
      intro p hp
      obtain ⟨x, -, hplace, -⟩ := hu.refused hphase (List.mem_range.1 hp)
      rw [hplace]
      rfl
    rw [List.filterMap_eq_nil_iff.2 hall, List.length_nil] at hlength
    simp only [if_true]
    omega

/-- Nobody has a call under way, and the handlers of the servers have nothing left. -/
theorem Underway.idle : Idle H r.medium where
  recorded := hu.relayed.recorded
  owned := hu.relayed.owned
  calls := by
    rw [List.eq_nil_iff_forall_not_mem]
    rintro ⟨p, call⟩ hm
    have hc := lookup_eq_some_of_mem hu.relayed.recorded.nodup_callers hm
    have hlt := hu.relayed.lt_of_call hc
    obtain ⟨x, error, -, -, hnone, -⟩ := hu.leaves hphase hlt
    rw [Traffic.call?, hc] at hnone
    cases hnone
  owners id p howner := by
    rcases hu.placed.owners howner with hsettled | hservice
    · exact hsettled
    · obtain ⟨party, hplace⟩ := hu.place_of_number hphase (Place.number?_of_service? hservice)
      cases party with
      | client => simp [hplace, Party.down, Place.service?] at hservice
      | server => exact hu.relayed.recorded.settled hu.relayed.owned (hu.placed.left hplace)

end

/-- What a service was sent whose handler has not panicked. -/
theorem recorded_eq_arrived {u : Traffic} (hrec : Relay.Recorded H u)
    (he : u.relay.endpoints[id]? = some e) (halive : e.dead = false) :
    u.relay.recorded id = (H.arrived id).map (·.2) := by
  rw [Relay.recorded, he]
  exact ((hrec.record he).alive halive).1

/-- **A member is handed each expected message once.** -/
theorem Underway.recorded_eq (hu : Underway false c cluster l₀ H₀ h H spots r)
    (hphase : h.phase = 3) (hi : Idle H₀ l₀) (hm : id ∈ H₀.roster cluster)
    (he : l₀.traffic.relay.endpoints[id]? = some e) (halive : e.dead = false) :
    (∃ e', r.medium.traffic.relay.endpoints[id]? = some e' ∧ e'.dead = false) ∧
      ∃ round : List Payload, round.Perm (c.expected.map Message.bytes) ∧
        r.medium.traffic.relay.recorded id = l₀.traffic.relay.recorded id ++ round := by
  have hrec := hu.relayed.recorded
  have hm' := (hu.roster_perm hphase hi.recorded).mem_iff.2 hm
  have hin := Relay.History.inserted_of_mem_roster hm'
  obtain ⟨e', he'⟩ := hrec.exists_endpoint hin
  obtain ⟨E, rfl, hno⟩ := hu.sent.added
  have halive' : e'.dead = false := by
    refine hrec.alive he' fun m hp => ?_
    exact (List.mem_append.1 hp).elim (hno id m) (((hi.recorded.record he).alive halive).2 m)
  refine ⟨⟨e', he', halive'⟩, (Relay.History.arrived id E).map (·.2), ?_, ?_⟩
  · -- all that had been sent before had arrived
    have hbefore : (H₀.arrived id).Perm (H₀.sent cluster id) := by
      refine hi.recorded.perm_of_awaited (Relay.History.inserted_of_mem_roster hm) fun k => ?_
      rw [Traffic.awaited, Traffic.call?, hi.calls]
      rfl
    have hafter := hu.relayed.arrived_perm rfl (by omega) hu.sent hm'
    rw [Relay.History.arrived_append] at hafter
    have hnew := (List.perm_append_left_iff _).1 (hafter.trans (hbefore.symm.append_right _))
    rw [← map_allSpoken]
    exact hnew.map _
  · rw [recorded_eq_arrived hrec he' halive', recorded_eq_arrived hi.recorded he halive,
      Relay.History.arrived_append, List.map_append]

end Lockstep.Scenario
