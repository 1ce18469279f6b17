import Mathlib.Logic.Function.Basic
import Lockstep.Proofs.Scenario.Whereabouts

/-!
# The steps of a scenario on a relay

`Relayed` says that a state of a scenario is one on a relay in use: the history of the relay leads to
it, only participants have calls under way, and everyone is in line with its call (`OnLine`). A step of
the scenario is a step of the relay or none (`Flow`) and shifts the spot of one participant at most;
`Moved` says how. `Relayed.step` keeps everyone in line, as long as servers pass their verification.
-/

set_option autoImplicit false

namespace Lockstep.Scenario

open Medium Barrier History
open Relay (Line Call Traffic)

/-- A step of the relay in use, or none. Handlers do not panic. -/
inductive Flow (t : Traffic) : Relay.History → Traffic → Prop
  | same : Flow t [] t
  | step {b u} : t.step b = some u → (∀ id, b ≠ .finish id true) → Flow t (t.events b) u

/-- A state of a scenario on a relay that is closed or not, with the histories of its barrier and of
the relay, and the spots of the participants. -/
structure Relayed (closed : Bool) (c : Config) (cluster : String)
    (h : History ParticipantError) (H : Relay.History) (spots : Nat → Spot) (r : Run Line) :
    Prop where
  config : r.config = c
  tracked : Run.Tracked (c.clients + c.servers) h r
  party : ∀ p : Nat, r.participants[p]?.map (·.party) = (Run.parties c)[p]?.map (·.party)
  recorded : Relay.Recorded H r.medium.traffic
  owned : H.Owned
  closed_eq : r.medium.traffic.relay.closed = closed
  /-- Only participants have calls under way. -/
  callers : ∀ p, c.clients + c.servers ≤ p → r.medium.traffic.call? p = none
  outside : ∀ p, c.clients + c.servers ≤ p → spots p = ⟨.outside, 0⟩
  onLine : ∀ p x, r.participants[p]? = some x → OnLine closed c cluster h p x.party x.conn x.stage
    (r.medium.traffic.call? p) (spots p)

variable {closed : Bool} {c : Config} {cluster : String} {h es : History ParticipantError}
  {H rs : Relay.History} {spots : Nat → Spot} {r t : Run Line} {a : Run.Label Traffic.Label}
  {b : Traffic.Label} {p q k id : Nat} {x x' : Participant} {l l' : Line} {u v : Traffic}
  {spot : Spot}

theorem Flow.recorded (hf : Flow u rs v) (hr : Relay.Recorded H u) : Relay.Recorded (rs ++ H) v := by
  cases hf with
  | same => exact hr
  | step hs => exact hr.step hs

theorem OnLine.not_shutdown {party : Party} {conn : Nat} {stage : Stage} {c₀ : Call}
    (hon : OnLine closed c cluster h p party conn stage (some c₀) spot) : c₀ ≠ .shutdown := by
  rintro rfl
  cases hon with
  | entering he => cases he
  | sending _ _ hs => cases hs
  | departing _ hd => cases hd

/-- What the relay does by itself with the messages of its services does not show. -/
theorem calm_of_set {place : Place} {e e' : Endpoint}
    (he : l.traffic.relay.endpoints[id]? = some e) (hclosed : e'.closed = e.closed) :
    Calm l [] { l.traffic.relay with endpoints := l.traffic.relay.endpoints.set id e' } place where
  quiet := List.forall_mem_nil _
  nextId := List.length_set
  closed _ hother := .inl ((Relay.isClosed_set he hclosed).trans hother)

/-! ## Steps -/

section
variable (hr : Relayed closed c cluster h H spots r)
include hr

theorem Relayed.call_eq_none (hx : r.participants[p]? = some x)
    (hawaits : x.stage.awaitsReply = false) : r.medium.traffic.call? p = none :=
  (hr.onLine p x hx).call_eq_none hawaits

theorem Relayed.lt_of_call {c₀ : Call} (hc : r.medium.traffic.call? p = some c₀) :
    p < c.clients + c.servers := by
  refine Nat.lt_of_not_le fun hle => ?_
  rw [hr.callers p hle] at hc
  cases hc

theorem Relayed.said_eq (hx : r.participants[p]? = some x) (i : Nat) :
    c.said p i = Message.bytes ⟨x.party, i⟩ := by
  have hparty := hr.party p
  rw [hx] at hparty
  obtain ⟨y, hy, heq⟩ := Option.map_eq_some_iff.1 hparty.symm
  rw [Config.said, hy]
  exact congrArg (fun party => Message.bytes ⟨party, i⟩) heq

variable (he : Run.Effect (Relay.line cluster) r a es t)
include he

theorem Relayed.exists_stride (hx' : t.participants[p]? = some x') :
    ∃ x, r.participants[p]? = some x ∧
      Stride cluster r p x (r.medium.traffic.call? p) a es x' (t.medium.traffic.call? p) := by
  have hlt : p < r.participants.length := by
    rw [← he.length_participants]
    exact (List.getElem?_eq_some_iff.1 hx').1
  have hx : r.participants[p]? = some r.participants[p] := List.getElem?_eq_getElem hlt
  obtain ⟨x'', h1, h2⟩ := he.stride (fun q y => hr.call_eq_none) hx
  rw [hx', Option.some.injEq] at h1
  exact ⟨_, hx, h1 ▸ h2⟩

variable (hroom : (Run.serverInbox c).isOk = true)
  (hpasses : ∀ p x v, r.participants[p]? = some x → x.stage = .verify v →
    Passes r cluster p x v)
  (htimely : Run.Timely (Relay.line cluster) r a)
include hroom hpasses htimely

/-- Whose call the step is none of keeps its spot. -/
theorem Relayed.stay (hstill : ∀ b, a = .medium b → b.caller? ≠ some p)
    (hx' : t.participants[p]? = some x') : OnLine closed c cluster (es ++ h) p x'.party x'.conn
      x'.stage (t.medium.traffic.call? p) (spots p) := by
  obtain ⟨x, hx, hs⟩ := hr.exists_stride he hx'
  exact (hr.onLine p x hx).stay hs hstill (hr.tracked.fits p x hx) hr.tracked.recorded.pace hr.config
    hroom (hpasses p x · hx) htimely

omit hroom hpasses htimely in
theorem Relayed.party_step (p : Nat) :
    t.participants[p]?.map (·.party) = (Run.parties c)[p]?.map (·.party) := by
  rw [← hr.party p]
  cases hx' : t.participants[p]? with
  | none =>
    rw [List.getElem?_eq_none_iff, he.length_participants, ← List.getElem?_eq_none_iff] at hx'
    rw [hx']
  | some x' =>
    obtain ⟨x, hx, hturn⟩ := he.exists_turn hx'
    rw [hx]
    exact congrArg some hturn.party_eq

end

/-- What a step does to the relay, with the participant `k` whose spot it shifts. -/
structure Moved (c : Config) (cluster : String) (H : Relay.History) (spots : Nat → Spot)
    (l l' : Line) (rs : Relay.History) (k : Nat) (spot : Spot) : Prop where
  flow : Flow l.traffic rs l'.traffic
  shift : Shift c cluster l k rs l'.traffic.relay l'.owners (spots k) spot
  owned : (rs ++ H).Owned
  closed_eq : l'.traffic.relay.closed = l.traffic.relay.closed
  callers : ∀ p, c.clients + c.servers ≤ p → l'.traffic.call? p = l.traffic.call? p
  lt : spot = spots k ∨ k < c.clients + c.servers

/-- The spot of nobody is shifted. -/
theorem Moved.still (flow : Flow l.traffic rs l'.traffic)
    (calm : Calm l rs l'.traffic.relay (spots 0).place) (howners : l'.owners = l.owners)
    (owned : (rs ++ H).Owned) (hclosed : l'.traffic.relay.closed = l.traffic.relay.closed)
    (hcallers : ∀ p, c.clients + c.servers ≤ p → l'.traffic.call? p = l.traffic.call? p) :
    Moved c cluster H spots l l' rs 0 (spots 0) where
  flow
  shift := howners ▸ .calm calm
  owned
  closed_eq := hclosed
  callers := hcallers
  lt := .inl rfl

section
variable (hr : Relayed closed c cluster h H spots r)
include hr

theorem Relayed.moved_ask {request : Request}
    (hinserted : ∀ p id, (spots p).place = .inside id → .inserted cluster id ∈ H)
    (hx : r.participants[p]? = some x) (ha : Asks r.config x request x') :
    ∃ rs, Moved c cluster H spots r.medium (Line.ask cluster r.medium p request) rs 0 (spots 0) := by
  have hnone : r.medium.traffic.call? p = none := by
    refine hr.call_eq_none hx ?_
    cases ha with
    | connect _ hstage | register _ hstage | broadcast hstage | depart hstage =>
      rw [hstage]
      rfl
  have hlt := hr.tracked.lt hx
  have hstep : r.medium.traffic.step (.start p (Line.request cluster request)) =
      some (Line.ask cluster r.medium p request).traffic := Line.step_of_ask hnone
  have hcallers (q : Nat) (hq : c.clients + c.servers ≤ q) :
      (Line.ask cluster r.medium p request).traffic.call? q = r.medium.traffic.call? q :=
    Traffic.call?_start_of_ne (by omega)
  refine ⟨_, .still (.step hstep nofun) ⟨?_, rfl, fun id hid => .inl hid⟩ rfl ?_ rfl hcallers⟩
  · cases request <;> simp [Line.request, Traffic.events, Relay.Event.isQuiet]
  · have hon := hr.onLine p x hx
    cases ha with
    | connect | register | broadcast => exact hr.owned
    | @depart error verified hstage =>
      rw [hstage, hnone] at hon
      generalize hspot : spots p = spot at hon
      cases hparty : x.party with
      | client =>
        simpa [Run.departure, hparty, Line.request, Traffic.events] using hr.owned
      | server =>
        cases hon with
        | depart =>
          have hin := hinserted p x.conn (by rw [hspot, hparty]; rfl)
          simpa [Run.departure, hparty, Line.request, Traffic.events] using ⟨hin, hr.owned⟩

theorem Relayed.moved_hear {reply : Reply} (hx : r.participants[p]? = some x)
    (hreply : r.medium.reply? p = some (reply, l)) :
    Moved c cluster H spots r.medium l [] 0 (spots 0) := by
  obtain ⟨result, hc, -, rfl⟩ := Line.reply?_eq_some_iff.1 hreply
  have hlt := hr.tracked.lt hx
  have hstep : r.medium.traffic.step (.collect p) = some (r.medium.traffic.dropCall p) := by
    simp [Traffic.step, Traffic.collect, hc]
  refine .still (.step hstep fun _ => by simp) ⟨List.forall_mem_nil _, rfl, fun id hid => .inl hid⟩
    rfl hr.owned rfl fun q hq => ?_
  exact Traffic.call?_dropCall.trans (if_neg (by omega))

/-- A step of the relay is a step of the call of a participant, or shifts no spot. -/
theorem Relayed.moved_steps {handover : Option Handover}
    (hopened : ∀ p id, (spots p).place.open? = some id →
      r.medium.traffic.relay.isClosed id = false)
    (hs : r.medium.Steps b l handover) :
    ∃ rs k spot, Moved c cluster H spots r.medium l rs k spot ∧
      ∀ p x, r.participants[p]? = some x → OnLine closed c cluster h p x.party x.conn x.stage
        (l.traffic.call? p) (Function.update spots k spot p) := by
  have hstep := hs.step
  cases hs with
  | @take id m relay ht =>
    obtain ⟨e, queue, he, -, -, -, rfl⟩ := Relay.take_eq_some_iff.1 ht
    refine ⟨_, 0, spots 0, .still (.step hstep nofun) (calm_of_set he rfl) rfl hr.owned rfl
      fun _ _ => rfl, ?_⟩
    rw [Function.update_eq_self]
    exact hr.onLine
  | @finish id relay hf =>
    obtain ⟨e, he, -, rfl⟩ := Relay.finish_eq_some_iff.1 hf
    refine ⟨_, 0, spots 0, .still (.step hstep nofun) (calm_of_set he rfl) rfl hr.owned rfl
      fun _ _ => rfl, ?_⟩
    rw [Function.update_eq_self]
    exact hr.onLine
  | @move k c₀ _ rs relay c' hc hm hinit =>
    have hlt : k < c.clients + c.servers := by
      refine Nat.lt_of_not_le fun hle => ?_
      rw [hr.callers k hle] at hc
      cases hc
    obtain ⟨x, hx⟩ := hr.tracked.exists_participant hlt
    have hon := hr.onLine k x hx
    rw [hc] at hon
    obtain ⟨spot, hon', hshift⟩ := hon.move hm (hr.said_eq hx) hinit hr.closed_eq (hopened k)
    have hevents := hm.events_eq hc
    refine ⟨rs, k, spot, ⟨?_, hshift, ?_, hm.closed_eq hon.not_shutdown, ?_, .inr hlt⟩, ?_⟩
    · rw [hevents]
      refine .step hstep fun id heq => ?_
      subst heq
      cases hm
    · cases hm <;> exact hr.owned
    · intro p hp
      exact (Traffic.call?_setCall (by exact hc)).trans (if_neg (by omega))
    · intro p y hy
      rw [Traffic.call?_setCall (by exact hc)]
      by_cases hp : p = k
      · subst hp
        rw [hx] at hy
        cases hy
        rw [if_pos rfl, Function.update_self]
        exact hon'
      · rw [if_neg hp, Function.update_of_ne hp]
        exact hr.onLine p y hy

theorem Relayed.of_moved (he : Run.Effect (Relay.line cluster) r a es t)
    (hm : Moved c cluster H spots r.medium t.medium rs k spot)
    (hon : ∀ p x', t.participants[p]? = some x' → OnLine closed c cluster (es ++ h) p x'.party
      x'.conn x'.stage (t.medium.traffic.call? p) (Function.update spots k spot p)) :
    Relayed closed c cluster (es ++ h) (rs ++ H) (Function.update spots k spot) t where
  config := he.config_eq.trans hr.config
  tracked := hr.tracked.step he
  party := hr.party_step he
  recorded := hm.flow.recorded hr.recorded
  owned := hm.owned
  closed_eq := hm.closed_eq.trans hr.closed_eq
  callers p hp := (hm.callers p hp).trans (hr.callers p hp)
  outside p hp := by
    rcases hm.lt with rfl | hlt
    · rw [Function.update_eq_self]
      exact hr.outside p hp
    · rw [Function.update_of_ne (by omega)]
      exact hr.outside p hp
  onLine := hon

/-- **A step keeps everyone in line**, if servers pass their verification, and shifts one spot at
most. -/
theorem Relayed.step (he : Run.Effect (Relay.line cluster) r a es t)
    (hroom : (Run.serverInbox c).isOk = true)
    (hpasses : ∀ p x v, r.participants[p]? = some x → x.stage = .verify v →
      Passes r cluster p x v)
    (htimely : Run.Timely (Relay.line cluster) r a)
    (hinserted : ∀ p id, (spots p).place = .inside id → .inserted cluster id ∈ H)
    (hopened : ∀ p id, (spots p).place.open? = some id →
      r.medium.traffic.relay.isClosed id = false) :
    ∃ rs k spot, Moved c cluster H spots r.medium t.medium rs k spot ∧
      Relayed closed c cluster (es ++ h) (rs ++ H) (Function.update spots k spot) t := by
  have hstill (hlabel : ∀ b, a ≠ .medium b) {rs}
      (hm : Moved c cluster H spots r.medium t.medium rs 0 (spots 0)) :
      ∃ rs k spot, Moved c cluster H spots r.medium t.medium rs k spot ∧
        Relayed closed c cluster (es ++ h) (rs ++ H) (Function.update spots k spot) t := by
    refine ⟨rs, 0, spots 0, hm, hr.of_moved he hm fun p x' hx' => ?_⟩
    rw [Function.update_eq_self]
    exact hr.stay he hroom hpasses htimely (fun b heq => absurd heq (hlabel b)) hx'
  have hsame (hmedium : t.medium = r.medium) :
      Moved c cluster H spots r.medium t.medium [] 0 (spots 0) := by
    rw [hmedium]
    exact .still .same ⟨List.forall_mem_nil _, rfl, fun id hid => .inl hid⟩ rfl hr.owned rfl
      fun _ _ => rfl
  cases id he with
  | ask hx ha =>
    obtain ⟨rs, hm⟩ := hr.moved_ask hinserted hx ha
    exact hstill nofun hm
  | hear hx hreply => exact hstill nofun (hr.moved_hear hx hreply)
  | work | sync | refused | exit | miss | call | overflow | complete | phasesOver | joined | giveUp =>
    exact hstill nofun (hsame rfl)
  | @pass b medium handover hs =>
    obtain ⟨rs, k, spot, hm, hon⟩ := hr.moved_steps hopened (Line.steps_of_step hs)
    refine ⟨rs, k, spot, ?_, hr.of_moved he ?_ fun p x' hx' => ?_⟩
    · rw [Run.handOver_medium]
      exact hm
    · rw [Run.handOver_medium]
      exact hm
    · -- a message that is handed over only changes an inbox
      have hsame := congrArg (·[p]?) (Run.map_handOver (r := { r with medium })
        (fun x : Participant => (x.party, x.conn, x.stage)) (fun _ _ => rfl) handover)
      simp only [List.getElem?_map, hx', Option.map_some] at hsame
      obtain ⟨y, hy, heq⟩ := Option.map_eq_some_iff.1 hsame.symm
      simp only [Prod.mk.injEq] at heq
      obtain ⟨hparty, hconn, hstage⟩ := heq
      rw [← hparty, ← hconn, ← hstage, Run.handOver_medium]
      exact hon p y hy

end

end Lockstep.Scenario
