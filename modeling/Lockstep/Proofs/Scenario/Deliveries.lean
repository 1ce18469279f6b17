import Lockstep.Proofs.Scenario.Broadcasts
import Lockstep.Proofs.Scenario.ExactlyOnce

/-!
# What the servers of a scenario receive

The handler of a service belongs to the participant that registered it, so what a server is handed is
what the handler of its service was given (`Heard`). In the last phase that is part of what has
arrived, and the rest is on its way. So the verification of a server cannot fail
(`Underway.passes`): it finds the expected messages, each once, and where one is still to come, it
comes.

`Underway` is all that is kept by the steps of a scenario on a relay (`Underway.step`).
-/

set_option autoImplicit false

namespace Lockstep.Scenario

open Medium Barrier History
open Relay (Line Call Traffic)

/-- What the handler of a participant in this place was given. -/
def Place.given (relay : Relay) (place : Place) : List Payload :=
  (place.number?.map relay.given).getD []

/-- What servers are handed is what their handlers were given. -/
def Heard (c : Config) (h : History ParticipantError) (spots : Nat → Spot) (r : Run Line) : Prop :=
  ∀ p x j, r.participants[p]? = some x → x.party = .server j →
    ∃ handed, Received c h p handed x x.stage ∧
      (x.stage.isOpen = true → handed = (spots p).place.given r.medium.traffic.relay)

/-- A state of a scenario that began on the line `l₀`, the history of its relay being `H₀` then. -/
structure Underway (closed : Bool) (c : Config) (cluster : String) (l₀ : Line)
    (H₀ : Relay.History) (h : History ParticipantError) (H : Relay.History) (spots : Nat → Spot)
    (r : Run Line) : Prop where
  relayed : Relayed closed c cluster h H spots r
  placed : Placed cluster l₀.traffic.relay.nextId H₀ H spots r.medium
  sent : Sent c cluster H₀ H spots
  heard : Heard c h spots r
  first : l₀.traffic.relay.nextId ≤ r.medium.traffic.relay.nextId

/-- Where the server `p` verifies, which has the service `id`: it has received the first `k` of the
messages that its handler was given, and what is missing of the expected ones is on its way. -/
structure Verifies (c : Config) (l : Line) (p : Nat) (x : Participant) (v : Verifier) (id k : Nat)
    (e : Endpoint) : Prop where
  owner : l.owners.lookup id = some p
  endpoint : l.traffic.relay.endpoints[id]? = some e
  alive : e.dead = false
  expected : (e.handled.toList ++ e.queue.toList).Perm (c.expected.map Message.bytes)
  wanted : v.wanted + k = c.expected.length
  holds : Inbox.Holds c.expected.length e.handled.toList k x.inbox
  seen : v.seen = ((e.handled.toList.take k).map Utf8.decodeLossy).reverse

variable {closed : Bool} {c : Config} {cluster : String} {h es : History ParticipantError}
  {H₀ H rs : Relay.History} {spots : Nat → Spot} {r t : Run Line} {a : Run.Label Traffic.Label}
  {l₀ : Line} {p k id i j conn : Nat} {x x' : Participant} {spot : Spot} {m : Payload}
  {relay : Relay} {stage : Stage} {call call' : Option Call} {v : Verifier} {e : Endpoint}
  {party : Party}

/-! ## What is handed over -/

/-- The message that the handler of the service `id` is given in the step. -/
def Run.taken? (r : Run Line) (id : Nat) : Run.Label Traffic.Label → Option Payload
  | .medium b => r.medium.traffic.relay.taken? id b
  | _ => none

theorem taken?_eq_some_iff : r.taken? id a = some m ↔
    a = .medium (.take id) ∧ ∃ relay, r.medium.traffic.relay.take id = some (m, relay) := by
  cases a with
  | medium b =>
    rw [Run.taken?, Relay.taken?_eq_some_iff]
    simp
  | _ => simp [Run.taken?]

theorem handed?_eq_some_iff : Run.handed? (Relay.line cluster) r p a = some m ↔
    ∃ i relay, a = .medium (.take i) ∧ r.medium.traffic.relay.take i = some (m, relay) ∧
      r.medium.owners.lookup i = some p := by
  refine ⟨fun hm => ?_, ?_⟩
  · cases a with
    | medium b =>
      simp only [Run.handed?] at hm
      split at hm
      · rename_i medium q m' hs
        split at hm
        · rename_i hq
          subst hq
          cases hm
          have hsteps := Line.steps_of_step hs
          generalize hhandover : some (Handover.mk q m) = handover at hsteps
          cases hsteps with
          | @take i _ relay ht =>
            obtain ⟨q', hq', heq⟩ := Option.map_eq_some_iff.1 hhandover.symm
            cases heq
            exact ⟨i, relay, rfl, ht, hq'⟩
          | move | finish => cases hhandover
        · cases hm
      · cases hm
    | _ => cases hm
  · rintro ⟨i, relay, rfl, ht, howner⟩
    simp [Run.handed?, Relay.line, Line.step, Line.handover, ht, howner]

theorem Run.Effect.given_eq (he : Run.Effect (Relay.line cluster) r a es t) (id : Nat) :
    t.medium.traffic.relay.given id =
      r.medium.traffic.relay.given id ++ (r.taken? id a).toList := by
  have hsame : r.medium.traffic.relay.given id =
      r.medium.traffic.relay.given id ++ (none : Option Payload).toList := (List.append_nil _).symm
  cases he with
  | pass hs =>
    rw [Run.handOver_medium]
    exact (Line.steps_of_step hs).given_eq id
  | hear _ hreply =>
    obtain ⟨result, -, -, rfl⟩ := Line.reply?_eq_some_iff.1 hreply
    exact hsame
  | _ => exact hsame

theorem given_of_le (hle : relay.nextId ≤ id) : relay.given id = [] := by
  rw [Relay.given, List.getElem?_eq_none hle]

theorem take_eq_none_of_le (hle : relay.nextId ≤ id) : relay.take id = none := by
  rw [Relay.take, List.getElem?_eq_none hle]
  rfl

/-- The handler of a service that is new has been given nothing. -/
theorem given_new (he : Run.Effect (Relay.line cluster) r a es t) :
    t.medium.traffic.relay.given r.medium.traffic.relay.nextId = [] := by
  have hnone : r.taken? r.medium.traffic.relay.nextId a = none := by
    rw [Option.eq_none_iff_forall_ne_some]
    intro m hm
    obtain ⟨-, relay, ht⟩ := taken?_eq_some_iff.1 hm
    rw [take_eq_none_of_le (Nat.le_refl _)] at ht
    cases ht
  rw [he.given_eq, hnone, given_of_le (Nat.le_refl _)]
  rfl

section
variable (howner : ∀ i m relay, r.medium.traffic.relay.take i = some (m, relay) →
  (r.medium.owners.lookup i = some p ↔ (spots p).place.number? = some i))
include howner

theorem handed?_eq_taken? (hid : (spots p).place.number? = some id) :
    Run.handed? (Relay.line cluster) r p a = r.taken? id a := by
  refine Option.ext fun m => ?_
  rw [handed?_eq_some_iff, taken?_eq_some_iff]
  refine ⟨?_, ?_⟩
  · rintro ⟨i, relay, rfl, ht, hi⟩
    obtain rfl := Option.some.inj (hid.symm.trans ((howner i m relay ht).1 hi))
    exact ⟨rfl, relay, ht⟩
  · rintro ⟨rfl, relay, ht⟩
    exact ⟨id, relay, rfl, ht, (howner id m relay ht).2 hid⟩

theorem handed?_eq_none (hnone : (spots p).place.number? = none) :
    Run.handed? (Relay.line cluster) r p a = none := by
  rw [Option.eq_none_iff_forall_ne_some]
  intro m hm
  obtain ⟨i, relay, -, ht, hi⟩ := handed?_eq_some_iff.1 hm
  rw [(howner i m relay ht).1 hi] at hnone
  cases hnone

/-- A participant is handed what the handler of its service is given. -/
theorem given_update (he : Run.Effect (Relay.line cluster) r a es t)
    (hs : Shift c cluster r.medium k rs t.medium.traffic.relay t.medium.owners (spots k) spot) :
    (Function.update spots k spot p).place.given t.medium.traffic.relay =
      (spots p).place.given r.medium.traffic.relay ++
        (Run.handed? (Relay.line cluster) r p a).toList := by
  cases hold : (spots p).place.number? with
  | some id =>
    rw [Place.given, Place.given, hold, hs.update_number? hold, handed?_eq_taken? howner hold]
    exact he.given_eq id
  | none =>
    rw [Place.given, Place.given, hold, handed?_eq_none howner hold]
    cases hnew : (Function.update spots k spot p).place.number? with
    | none => rfl
    | some id =>
      rcases hs.number?_update hnew with hid | ⟨-, rfl, -⟩
      · rw [hold] at hid
        cases hid
      · exact given_new he

end

/-! ## Whose handlers the services have -/

theorem OnLine.service_of_server
    (hon : OnLine closed c cluster h p (.server j) conn stage call spot)
    (hid : spot.place.number? = some id) :
    spot.place = .joining id ∨ spot.place.service? = some id := by
  have hleaves {error spot} (hl : Leaves closed c h p (.server j) conn error spot)
      (hid : spot.place.number? = some id) : spot.place.service? = some id := by
    cases hl with
    | well => exact hid
    | refused => cases hid
  cases hon with
  | enter => cases hid
  | entering he =>
    cases he with
    | initialise =>
      cases hid
      exact .inl rfl
    | insert | entered => exact .inr hid
    | ask | takeId | refused => cases hid
  | departing _ hd => cases hd <;> exact .inr hid
  | finish hl | ended hl => exact .inr (hleaves hl hid)
  | _ => exact .inr hid

/-- A message that is taken is handed to the server whose service has the number. -/
theorem Placed.owner_iff {first : Nat} {l : Line} (hp : Placed cluster first H₀ H spots l)
    (hrec : Relay.Recorded H l.traffic)
    (hserver : ∀ id, (spots p).place.number? = some id →
      (spots p).place = .joining id ∨ (spots p).place.service? = some id)
    (ht : l.traffic.relay.take i = some (m, relay)) :
    l.owners.lookup i = some p ↔ (spots p).place.number? = some i := by
  obtain ⟨e, queue, he, -, halive, hpop, -⟩ := Relay.take_eq_some_iff.1 ht
  have hqueue := Queue.toList_eq_of_pop? hpop
  refine ⟨fun howner => ?_, fun hid => ?_⟩
  · rcases hp.owners howner with ⟨other, -, hidle⟩ | hservice
    · rcases hidle e he with hd | ⟨hnil, -⟩
      · rw [halive] at hd
        cases hd
      · rw [hqueue] at hnil
        cases hnil
    · exact Place.number?_of_service? hservice
  · rcases hserver i hid with hjoining | hservice
    · have hall := ((hrec.record he).alive halive).1
      rw [hrec.arrived_eq_nil (hp.unborn (.inl hjoining)), hqueue] at hall
      simp at hall
    · exact hp.owner hservice

/-! ## What is received -/

/-- Who begins to listen has just asked for its registration. -/
theorem Stride.opens (hs : Stride cluster r p x call a es x' call')
    (hparty : x.party = .server j) (hnot : x.stage.isOpen = false)
    (hopen : x'.stage.isOpen = true) :
    x.stage = .enter ∧ x'.stage = .entering ∧ call' = some (.ask (some cluster)) := by
  cases hs with
  | ask ha =>
    cases ha with
    | connect hclient =>
      rw [hparty] at hclient
      cases hclient
    | register _ hstage => exact ⟨hstage, rfl, rfl⟩
    | broadcast hstage =>
      rw [hstage] at hnot
      cases hnot
    | depart => cases hopen
  | @hear result _ hh =>
    generalize Line.replyOf result = reply at hh
    cases hh with
    | entered hstage | sent hstage =>
      rw [hstage] at hnot
      cases hnot
    | notSent =>
      rw [hparty] at hopen
      cases hopen
    | refused | departed | died => cases hopen
  | work hw =>
    cases hw with
    | resume hstage | sentAll hstage | accept hstage =>
      rw [hstage] at hnot
      cases hnot
    | @conclude v =>
      generalize v.conclude r.config = verdict at hopen
      cases verdict <;> cases hopen
    | noRoom | reject => cases hopen
  | sync hstage | refused hstage =>
    rw [hstage] at hnot
    cases hnot
  | exit | miss => cases hopen
  | handed | move | rest =>
    have heq : x.stage.isOpen = true := hopen
    rw [heq] at hnot
    cases hnot

theorem OnLine.outside_of_ask
    (hon : OnLine closed c cluster h p party conn .entering (some (.ask (some cluster))) spot) :
    spot.place = .outside := by
  generalize hcall : Call.ask (some cluster) = c₀ at hon
  cases hon with
  | entering he =>
    cases he with
    | ask => rfl
    | _ => cases hcall

/-! ## The verification -/

theorem step_take (howner : r.medium.owners.lookup id = some p)
    (ht : r.medium.traffic.relay.take id = some (m, relay)) :
    Run.step (Relay.line cluster) r (.medium (.take id)) =
      some ({ r with medium := { r.medium with traffic := { r.medium.traffic with relay } }
        }.handOver (some ⟨p, m⟩)) := by
  simp [Run.step, Run.mediumStep, Relay.line, Line.step, ht, Line.handover, howner]

theorem step_finish (hf : r.medium.traffic.relay.finish id false = some relay) :
    Run.step (Relay.line cluster) r (.medium (.finish id false)) =
      some { r with medium := { r.medium with traffic := { r.medium.traffic with relay } } } := by
  simp [Run.step, Run.mediumStep, Relay.line, Line.step, Line.silent, Traffic.step, hf,
    Run.handOver]

section
variable (hx : r.participants[p]? = some x) (howner : r.medium.owners.lookup id = some p)
  (he : r.medium.traffic.relay.endpoints[id]? = some e) (hqueue : e.queue.toList ≠ [])
include hx howner he hqueue

theorem reaches_handed_of_idle (halive : e.dead = false) (hbusy : e.busy = false) :
    ∃ t m, (Run.hastyMachine (Relay.line cluster)).Reaches r t ∧
      t.participants[p]? = some { x with inbox := x.inbox.offer m } := by
  obtain ⟨m, ms, hms⟩ := List.exists_cons_of_ne_nil hqueue
  obtain ⟨queue, hpop, -⟩ := Queue.exists_pop? hms
  have ht := Relay.take_eq_some_iff.2 ⟨e, queue, he, hbusy, halive, hpop, rfl⟩
  refine ⟨_, m, Run.reaches_of_step (step_take howner ht), ?_⟩
  simp [Run.handOver, hx]

/-- Who has a message in the queue of its service can get it. -/
theorem reaches_handed (halive : e.dead = false) :
    ∃ t m, (Run.hastyMachine (Relay.line cluster)).Reaches r t ∧
      t.participants[p]? = some { x with inbox := x.inbox.offer m } := by
  cases hbusy : e.busy with
  | false => exact reaches_handed_of_idle hx howner he hqueue halive hbusy
  | true =>
    -- first the handler has to be done with its message
    obtain ⟨relay, hf⟩ : ∃ relay, r.medium.traffic.relay.finish id false = some relay :=
      ⟨_, Relay.finish_eq_some_iff.2 ⟨e, he, hbusy, rfl⟩⟩
    have hendpoint : relay.endpoints[id]? = some { e with busy := false, dead := false } := by
      obtain ⟨e', he', -, rfl⟩ := Relay.finish_eq_some_iff.1 hf
      rw [he, Option.some.injEq] at he'
      subst he'
      exact List.getElem?_set_self (List.getElem?_eq_some_iff.1 he).1
    obtain ⟨t, m, hreach, hx'⟩ := reaches_handed_of_idle
      (r := { r with medium := { r.medium with traffic := { r.medium.traffic with relay } } })
      hx howner hendpoint hqueue rfl rfl
    exact ⟨t, m, (Run.reaches_of_step (step_finish hf)).trans hreach, hx'⟩

end

section
variable (hv : Verifies c r.medium p x v id k e)
include hv

theorem Verifies.length_eq :
    e.handled.toList.length + e.queue.toList.length = c.expected.length := by
  have hlength := hv.expected.length_eq
  rwa [List.length_append, List.length_map] at hlength

theorem Verifies.conclude (hwanted : v.wanted = 0) : v.conclude c = .ok () := by
  have hk := hv.wanted
  have hlength := hv.length_eq
  have hle := hv.holds.received
  have hempty : e.queue.toList = [] := List.eq_nil_of_length_eq_zero (by omega)
  have hperm := hv.expected
  have hseen := hv.seen
  rw [hempty, List.append_nil] at hperm
  rw [List.take_of_length_le (by omega)] at hseen
  exact Verifier.conclude_of_perm hperm hseen

theorem Verifies.accept {inbox : Inbox Payload} (hwanted : v.wanted ≠ 0)
    (hm : x.inbox.receive? = some (m, inbox)) : ∃ v', v.accept m = .ok v' := by
  have hk := hv.wanted
  have hget := hv.holds.getElem?_of_receive (by omega) hm
  have hsplit : e.handled.toList =
      e.handled.toList.take k ++ m :: e.handled.toList.drop (k + 1) := by
    obtain ⟨hlt, rfl⟩ := List.getElem?_eq_some_iff.1 hget
    simp
  have hperm := hv.expected
  rw [hsplit, List.append_assoc, List.cons_append] at hperm
  exact Verifier.exists_accept hperm hv.seen

theorem Verifies.queue_ne_nil (hwanted : v.wanted ≠ 0) (hempty : x.inbox.items.toList = []) :
    e.queue.toList ≠ [] := by
  have hk := hv.wanted
  have hlength := hv.length_eq
  have hall := hv.holds.length_eq_of_empty (by omega) hempty
  exact List.ne_nil_of_length_pos (by omega)

theorem Verifies.not_timely (hx : r.participants[p]? = some x) (hwanted : v.wanted ≠ 0)
    (hempty : x.inbox.items.toList = []) :
    ¬ Run.Timely (Relay.line cluster) r (.expireReceive p) := by
  intro htimely
  obtain ⟨t, m, hreach, hx'⟩ :=
    reaches_handed hx hv.owner hv.endpoint (hv.queue_ne_nil hwanted hempty) hv.alive
  have hk := hv.wanted
  have hall := hv.holds.length_eq_of_empty (by omega) hempty
  have hnil := htimely t hreach _ hx'
  rw [Inbox.toList_offer, if_neg (hv.holds.room_ne_zero (by omega))] at hnil
  simp at hnil

end

section
variable (hu : Underway closed c cluster l₀ H₀ h H spots r)
include hu

section
variable (hrec : Relay.Recorded H₀ l₀.traffic) (hx : r.participants[p]? = some x)
  (hstage : x.stage = .verify v)
include hrec hx hstage

theorem Underway.verifies : ∃ id k e, Verifies c r.medium p x v id k e := by
  have hon := hu.relayed.onLine p x hx
  have hf := hu.relayed.tracked.fits p x hx
  rw [hstage] at hon hf
  have hphase : 2 ≤ h.phase := Nat.le_of_eq (hf.of_going rfl).2.2.symm
  generalize r.medium.traffic.call? p = call, hspot : spots p = spot at hon
  cases hon with
  | @verify _ j hopen hparty =>
    have hplace : (spots p).place = .inside x.conn := by rw [hspot, hparty]; rfl
    have hnumber : (spots p).place.number? = some x.conn := by rw [hplace]; rfl
    have hmember := hu.placed.inside hplace
    have hle := (hu.placed.range hnumber).1
    obtain ⟨e, he⟩ := hu.relayed.recorded.exists_endpoint
      (Relay.History.inserted_of_mem_roster hmember)
    obtain ⟨E, hE, hno⟩ := hu.sent.added
    have halive : e.dead = false := by
      refine hu.relayed.recorded.alive he fun m hm => ?_
      rw [hE] at hm
      exact (List.mem_append.1 hm).elim (hno _ m) ((hrec.unborn _ hle).2 m)
    have hnone : H₀.sent cluster x.conn = [] := Relay.History.sent_eq_nil fun hin =>
      absurd (hrec.ledger.inserted hin).1 (Nat.not_lt.2 hle)
    have hperm := (hu.relayed.arrived_perm hopen hphase hu.sent hmember).map Prod.snd
    rw [hnone, List.nil_append, map_allSpoken] at hperm
    obtain ⟨handed, hreceived, hgiven⟩ := hu.heard p x j hx hparty
    obtain rfl : handed = e.handled.toList := by
      rw [hgiven (by rw [hstage]; rfl), Place.given, hnumber]
      exact Relay.given_of_endpoint he
    rw [hstage] at hreceived
    cases hreceived with
    | @verify _ k hsum hwanted hholds hseen =>
      rw [hwanted] at hsum hholds
      exact ⟨x.conn, k, e, hu.placed.owner (by rw [hplace]; rfl), he, halive,
        ((hu.relayed.recorded.record he).alive halive).1 ▸ hperm, hsum, hholds, hseen⟩
    | waits _ hverify => exact absurd rfl (hverify v)

/-- **The verification of a server cannot fail.** -/
theorem Underway.passes : Passes r cluster p x v := by
  obtain ⟨id, k, e, hv⟩ := hu.verifies hrec hx hstage
  exact ⟨fun hwanted => hu.relayed.config ▸ hv.conclude hwanted, hv.accept, hv.not_timely hx⟩

end

/-! ## Steps -/

theorem Underway.heard_step (he : Run.Effect (Relay.line cluster) r a es t)
    (hs : Shift c cluster r.medium k rs t.medium.traffic.relay t.medium.owners (spots k) spot)
    (hr : Relayed closed c cluster (es ++ h) (rs ++ H) (Function.update spots k spot) t) :
    Heard c (es ++ h) (Function.update spots k spot) t := by
  intro p x' j hx' hparty'
  obtain ⟨x, hx, hturn⟩ := he.exists_turn hx'
  have hparty : x.party = .server j := hturn.party_eq.symm.trans hparty'
  obtain ⟨handed, hrec, hgiven⟩ := hu.heard p x j hx hparty
  refine ⟨_, hrec.turn hparty hu.relayed.config (hu.relayed.tracked.fits p x hx) hx hturn,
    fun hopen' => ?_⟩
  by_cases hopen : x.stage.isOpen = true
  · have hon := hu.relayed.onLine p x hx
    rw [hparty] at hon
    rw [handedBy_eq hx, if_pos hopen, hgiven hopen]
    refine (given_update (fun i m relay ht => ?_) he hs).symm
    exact hu.placed.owner_iff hu.relayed.recorded (fun id hid => hon.service_of_server hid) ht
  · -- it begins to listen in this step, and has no number yet
    rw [handedBy_eq hx, if_neg hopen, List.append_nil]
    obtain ⟨y, hy, hstride⟩ := hu.relayed.exists_stride he hx'
    rw [hx, Option.some.injEq] at hy
    subst hy
    obtain ⟨henter, hentering, hcall⟩ :=
      hstride.opens hparty (Bool.eq_false_iff.2 hopen) hopen'
    have hon := hr.onLine p x' hx'
    rw [hentering, hcall] at hon
    rw [Place.given, hon.outside_of_ask]
    rw [henter] at hrec
    cases hrec with
    | enter hnil => exact hnil
    | waits hwaits => cases hwaits

theorem Underway.step (hrec : Relay.Recorded H₀ l₀.traffic)
    (hroom : (Run.serverInbox c).isOk = true) (htimely : Run.Timely (Relay.line cluster) r a)
    (he : Run.Effect (Relay.line cluster) r a es t) :
    ∃ H' spots', Underway closed c cluster l₀ H₀ (es ++ h) H' spots' t := by
  obtain ⟨rs, k, spot, hm, hr⟩ := hu.relayed.step he hroom
    (fun p x v hx hstage => hu.passes hrec hx hstage) htimely
    (fun p id hplace => Relay.History.inserted_of_mem_roster (hu.placed.inside hplace))
    (fun p id => hu.placed.opened)
  refine ⟨_, _, hr, hu.placed.step hm.shift hm.flow hu.relayed.recorded hu.first,
    hu.sent.step hm.shift hm.flow fun id hready => ⟨?_, ?_⟩, hu.heard_step he hm.shift hr,
    Nat.le_trans hu.first hm.shift.nextId_le⟩
  · exact hu.placed.unborn (.inr hready) cluster
  · exact hu.relayed.begun_eq_zero (hu.relayed.phase_of_ready hready)

end

end Lockstep.Scenario
