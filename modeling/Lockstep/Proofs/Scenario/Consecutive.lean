import Lockstep.Proofs.Scenario.Limits
import Lockstep.Proofs.Scenario.Success

/-!
# One scenario after the other

`Consecutive` scenarios on a relay that nobody else uses find it as the first did. `Remains` is what
they leave: the same members, and for each scenario one number a participant and one round of the
expected messages, which every member is handed. `result_on_every_relay` says so, and that the next
scenario starts, returns and succeeds, or fails in the first phase where the relay is closed, unless
the clock comes to its end.
-/

set_option autoImplicit false

namespace Lockstep.Scenario

open Relay (Line Call Traffic)

/-- How a scenario waits before which there have been `k`, each of which has read the clock for its three
waits. -/
def waitingAfter (clock : Clock) (k : Nat) : Waiting := .timed (clock.drop (3 * k))

/-- `k` scenarios, one after the other, lead from the first line to the second. -/
inductive Consecutive (c : Config) (cluster : String) (clock : Clock) : Nat → Line → Line → Prop
  | none (l : Line) : Consecutive c cluster clock 0 l l
  | next {k l l' r as t result} : Consecutive c cluster clock k l l' →
      Run.start c l' (waitingAfter clock k) = .ok (.running r) →
      Run.TimelyRun (Relay.line cluster) r as t → t.result? = some result →
      Consecutive c cluster clock (k + 1) l t.medium

/-- What `k` scenarios leave of a relay. -/
structure Remains (c : Config) (cluster : String) (k : Nat) (before after : Relay) : Prop where
  closed : after.closed = before.closed
  members : (after.members cluster).Perm (before.members cluster)
  nextId : after.nextId = before.nextId +
    if before.closed then 0 else k * (c.clients + c.servers)
  /-- A member whose handler has not panicked is handed each expected message once a scenario. -/
  handed : before.closed = false → ∀ id ∈ before.members cluster, ∀ e,
    before.endpoints[id]? = some e → e.dead = false →
      (∃ e', after.endpoints[id]? = some e' ∧ e'.dead = false) ∧
        ∃ rounds : List (List Payload), rounds.length = k ∧
          (∀ round ∈ rounds, round.Perm (c.expected.map Message.bytes)) ∧
            after.recorded id = before.recorded id ++ rounds.flatten

variable {c : Config} {cluster : String} {k j : Nat} {l l₀ l' : Line} {H H₀ : Relay.History}
  {h : Barrier.History ParticipantError} {spots : Nat → Spot} {r t : Run Line}
  {before after later relay : Relay} {result : Except ScenarioError Unit}
  {as : List (Run.Label Traffic.Label)} {clock : Clock} {waiting : Waiting}

/-! ## What scenarios leave -/

theorem Remains.refl (c : Config) (cluster : String) (relay : Relay) :
    Remains c cluster 0 relay relay where
  closed := rfl
  members := .refl _
  nextId := by simp
  handed _ _ _ e he halive :=
    ⟨⟨e, he, halive⟩, [], rfl, List.forall_mem_nil _, (List.append_nil _).symm⟩

theorem Remains.trans (hk : Remains c cluster k before after)
    (hj : Remains c cluster j after later) : Remains c cluster (k + j) before later where
  closed := hj.closed.trans hk.closed
  members := hj.members.trans hk.members
  nextId := by
    rw [hj.nextId, hk.nextId, hk.closed, Nat.add_assoc, Nat.add_mul]
    split <;> rfl
  handed hopen id hm e he halive := by
    obtain ⟨⟨e', he', halive'⟩, rounds, hlength, hall, hrecorded⟩ := hk.handed hopen id hm e he halive
    obtain ⟨hlater, rounds', hlength', hall', hrecorded'⟩ := hj.handed (hk.closed.trans hopen) id
      (hk.members.mem_iff.2 hm) e' he' halive'
    refine ⟨hlater, rounds ++ rounds', ?_, ?_, ?_⟩
    · rw [List.length_append, hlength, hlength']
    · exact fun round hround => (List.mem_append.1 hround).elim (hall round) (hall' round)
    · rw [hrecorded', hrecorded, List.flatten_append, List.append_assoc]

/-- A scenario that is over has left what one scenario leaves. -/
theorem Underway.remains
    (hu : Underway l₀.traffic.relay.closed c cluster l₀ H₀ h H spots r) (hphase : h.phase = 3)
    (hi : Idle H₀ l₀) : Remains c cluster 1 l₀.traffic.relay r.medium.traffic.relay where
  closed := hu.relayed.closed_eq
  members := by
    rw [hu.relayed.recorded.ledger.members, hi.recorded.ledger.members]
    exact hu.roster_perm hphase hi.recorded
  nextId := by rw [hu.nextId_eq hphase, Nat.one_mul]
  handed hopen id hm e he halive := by
    rw [hopen] at hu
    rw [hi.recorded.ledger.members] at hm
    obtain ⟨halive', round, hperm, hrecorded⟩ := hu.recorded_eq hphase hi hm he halive
    refine ⟨halive', [round], rfl, fun other hother => ?_, ?_⟩
    · rwa [List.mem_singleton.1 hother]
    · rw [hrecorded, List.flatten_singleton]

/-! ## Scenarios that start -/

/-- What a scenario starts with. -/
theorem eq_begin_of_start (hvalid : c.validate = .ok ())
    (hstart : Run.start c l waiting = .ok (.running r)) : r = Run.begin c l waiting := by
  rw [Run.start_eq hvalid] at hstart
  split at hstart
  · split at hstart
    · split at hstart
      · cases hstart
        rfl
      · cases hstart
    · cases hstart
  · cases hstart

section
variable (hvalid : c.validate = .ok ()) (hroom : (Run.serverInbox c).isOk = true)
include hvalid hroom

/-- A scenario that has returned has left the relay as it found it, and its last wait had an end. -/
theorem Idle.scenario (hi : Idle H l)
    (hr : Run.TimelyRun (Relay.line cluster) (Run.begin c l (.timed clock)) as t)
    (hresult : t.result? = some result) :
    Returns c l.traffic.relay.closed result ∧ (Waiting.timed clock).Ends c .verification ∧
      ∃ H', Idle H' t.medium ∧ Remains c cluster 1 l.traffic.relay t.medium.traffic.relay := by
  obtain ⟨⟨hwaiting, h, H', spots, hu⟩, hpatient⟩ :=
    begun_of_timelyRun hr ⟨rfl, _, _, _, underway_begin hi _⟩ hi.recorded hroom nofun
  obtain ⟨hphase, hreturns⟩ := hu.returns hvalid hpatient hresult
  exact ⟨hreturns, hwaiting ▸ hu.ends hphase, H', hu.idle hphase, hu.remains hphase hi⟩

omit hvalid in
theorem Idle.of_fault (hi : Idle H l)
    (hr : Run.TimelyRun (Relay.line cluster) (Run.begin c l (.timed clock)) as t) {fault : Fault}
    (hended : t.outcome? = some (.error fault)) :
    fault = .deadline ∧ ¬ (Waiting.timed clock).Ends c .verification := by
  obtain ⟨⟨hwaiting, h, H', spots, hu⟩, -⟩ :=
    begun_of_timelyRun hr ⟨rfl, _, _, _, underway_begin hi _⟩ hi.recorded hroom nofun
  exact hwaiting ▸ hu.of_fault hended

theorem Consecutive.remains (hi : Idle H l) (hruns : Consecutive c cluster clock k l l') :
    ∃ H', Idle H' l' ∧ Remains c cluster k l.traffic.relay l'.traffic.relay := by
  induction hruns with
  | none => exact ⟨H, hi, .refl c cluster _⟩
  | next _ hstart hr hresult ih =>
    obtain ⟨H', hi', hbefore⟩ := ih hi
    obtain rfl := eq_begin_of_start hvalid hstart
    obtain ⟨-, -, H'', hi'', hlast⟩ := hi'.scenario hvalid hroom hr hresult
    exact ⟨H'', hi'', hbefore.trans hlast⟩

end

/-- Where nothing is left to be handled, all that was handed over has been given to the handlers. -/
theorem Idle.given_eq (hi : Idle H l) (hnone : ∀ b, l.step b = none) (id : Nat) :
    l.traffic.relay.given id = l.traffic.relay.recorded id := by
  rw [Relay.given, Relay.recorded]
  cases he : l.traffic.relay.endpoints[id]? with
  | none => rfl
  | some e =>
    have hempty : e.queue.toList = [] := by
      rcases (Relay.isDrained_iff he).1 (Line.isDrained_of_halted hnone id) with hd | ⟨hnil, -⟩
      · exact ((hi.recorded.record he).dead hd).1
      · exact hnil
    simp [hempty]

/-- **Scenarios on a relay that nobody else uses succeed**, one after the other, with as many members
as there may be, as long as the deliveries that a server expects have room. The next scenario starts,
unless it is going to panic in its first wait. Each of its timely runs is finite, stops only where the
scenario has returned or panicked, and can be continued until then. It panics where one of its waits has
no end, which is so if the last has none, and else returns what `Returns` says. -/
theorem result_on_every_relay {c : Config} (hvalid : c.validate = .ok ())
    (hroom : (Run.serverInbox c).isOk = true) (hi : Idle H l)
    (hruns : Consecutive c cluster clock k l l') :
    let waiting := waitingAfter clock k
    let begin := Run.begin c l' waiting
    Remains c cluster k l.traffic.relay l'.traffic.relay ∧
    ((∀ b, l'.step b = none) → ∀ id, l'.traffic.relay.given id = l'.traffic.relay.recorded id) ∧
    Run.start c l' waiting =
      (if waiting.Ends c .startup then .ok (.running begin) else .error .deadline) ∧
    ∃ bound, ∀ as t, Run.TimelyRun (Relay.line cluster) begin as t →
      as.length ≤ bound ∧
      (∀ outcome, t.outcome? = some outcome →
        (waiting.Ends c .verification →
          ∃ result, outcome = .ok result ∧ Returns c l.traffic.relay.closed result) ∧
        (¬ waiting.Ends c .verification → outcome = .error .deadline)) ∧
      (Run.Quiet (Relay.line cluster) t → ∃ outcome, t.outcome? = some outcome) ∧
      ∃ bs u outcome, Run.TimelyRun (Relay.line cluster) t bs u ∧ u.outcome? = some outcome := by
  intro waiting begin
  obtain ⟨H', hi', hremains⟩ := hruns.remains hvalid hroom hi
  have hbegin : Begun c cluster (clock.drop (3 * k)) l' H' begin :=
    ⟨rfl, _, _, _, underway_begin hi' _⟩
  obtain ⟨bound, hends⟩ := (Begun.steady hi'.recorded hroom).ends hbegin
  have hstart := Run.start_of_fitsBlock hvalid (fitsBlock_of_room hvalid hroom) l' waiting
  refine ⟨hremains, hi'.given_eq, hstart, bound, fun as t hr => ?_⟩
  obtain ⟨hlength, hquiet, hcontinue⟩ := hends as t hr
  refine ⟨hlength, fun outcome hended => ?_, hquiet, hcontinue⟩
  cases outcome with
  | error fault =>
    obtain ⟨rfl, hnot⟩ := hi'.of_fault hroom hr hended
    exact ⟨fun hlast => absurd hlast hnot, fun _ => rfl⟩
  | ok result =>
    obtain ⟨hreturns, hlast, -⟩ := hi'.scenario hvalid hroom hr (Run.outcome?_eq_ok_iff.1 hended)
    exact ⟨fun _ => ⟨result, rfl, hremains.closed ▸ hreturns⟩, fun hnot => absurd hlast hnot⟩

theorem timelyRun_settle_line (hroom : (Run.serverInbox c).isOk = true) (hi : Idle H l)
    (cluster : String) (clock : Clock) (fuel : Nat) :
    let begin := Run.begin c l (.timed clock)
    ∃ as, Run.TimelyRun (Relay.line cluster) begin as (begin.settle (Relay.line cluster) fuel) :=
  have hbegin : Begun c cluster clock l H (Run.begin c l (.timed clock)) :=
    ⟨rfl, _, _, _, underway_begin hi _⟩
  (Begun.steady hi.recorded hroom).timelyRun_settle (fun _ _ => Line.step_eq_none_of_not_mem)
    hbegin fuel

/-- A service that is registered before the scenario is handed the messages of the client and of the
server. Then the clock comes to its end, and there is no second scenario. -/
theorem result_on_watched_relay :
    let c : Config := { clients := 1, servers := 1, messages := 1 }
    let labels : List Traffic.Label := [.start 0 (.register "c"), .advance 0, .advance 0,
      .initialised 0 none, .advance 0, .collect 0]
    ∃ H u, Relay.follow ([], {}) labels = some (H, u) ∧ Idle H { traffic := u } ∧
      ∃ l', Consecutive c "c" (lateClock 3) 1 { traffic := u } l' ∧
        (l'.traffic.relay.recorded 0).Perm (c.expected.map Message.bytes) ∧
        Run.start c l' (waitingAfter (lateClock 3) 1) = .error .deadline := by
  intro c labels
  have hvalid : c.validate = .ok () := by decide
  have hroom : (Run.serverInbox c).isOk = true := by decide
  let watched : Relay := { endpoints := [{}], clusters := [⟨"c", [0]⟩] }
  have hcomputed : (Relay.follow ([], {}) labels).map (fun q => (q.1, q.2.relay, q.2.calls.isEmpty)) =
      some ([.inserted "c" 0], watched, true) := by decide +kernel
  obtain ⟨⟨H, u⟩, hfollow, heq⟩ := Option.map_eq_some_iff.1 hcomputed
  simp only [Prod.mk.injEq, List.isEmpty_iff] at heq
  obtain ⟨rfl, hrelay, hcalls⟩ := heq
  obtain rfl : u = { relay := watched } := by
    obtain ⟨relay, calls⟩ := u
    simp only at hrelay hcalls
    rw [hrelay, hcalls]
  let l : Line := { traffic := { relay := watched } }
  have hidle : Idle [.inserted "c" 0] l := ⟨Relay.Recorded.fresh.follow hfollow, trivial, rfl, nofun⟩
  let begin := Run.begin c l (waitingAfter (lateClock 3) 0)
  let t := begin.settle (Relay.line "c") 50
  have hresult : t.result? = some (.ok ()) := by decide +kernel
  obtain ⟨as, hr⟩ := timelyRun_settle_line hroom hidle "c" _ 50
  have hstart : Run.start c l (waitingAfter (lateClock 3) 0) = .ok (.running begin) :=
    Run.start_eq_begin hvalid (by decide) (by decide) _
  have hruns : Consecutive c "c" (lateClock 3) 1 l t.medium := .next (.none _) hstart hr hresult
  obtain ⟨hremains, -, hnext, -⟩ := result_on_every_relay hvalid hroom hidle hruns
  obtain ⟨-, rounds, hlength, hall, hrecorded⟩ :=
    hremains.handed rfl 0 (by decide) {} rfl rfl
  obtain ⟨round, rfl⟩ := List.length_eq_one_iff.1 hlength
  refine ⟨_, _, hfollow, hidle, _, hruns, ?_, hnext.trans (if_neg (by decide))⟩
  rw [hrecorded, List.flatten_singleton]
  exact hall round List.mem_cons_self

/-- A server that has no room for its deliveries ends before it registers, on an open relay too. -/
theorem stuck_on_open_relay :
    let c : Config := { clients := 0, servers := 1, messages := 2 ^ 63 }
    let waiting := Waiting.timed (.still .zero)
    let begin := Run.begin c ({} : Line) waiting
    c.validate = .ok () ∧ c.expectedDeliveries = .ok (2 ^ 63) ∧ Idle [] {} ∧
      Run.start c {} waiting = .ok (.running begin) ∧
      ∃ as t result, Run.TimelyRun (Relay.line "c") begin as t ∧
        t.result? = some result ∧ ¬ Returns c false result := by
  intro c waiting begin
  have hvalid : c.validate = .ok () := by decide
  have hcomputed : (([.conduct, .participant 0] : List (Run.Label Traffic.Label)).foldlM
      (Run.step (Relay.line "c")) begin).map
      (fun r => (r.participants[0]?.map (·.stage), r.expirePhase.bind (·.result?))) =
        some (some .dead, some (.error (.stuck .startup ⟨0, [0]⟩))) := by decide +kernel
  obtain ⟨r, hdies, heq⟩ := Option.map_eq_some_iff.1 hcomputed
  obtain ⟨hstage, hgiven⟩ := Prod.mk.inj heq
  obtain ⟨x, hx, hdead⟩ := Option.map_eq_some_iff.1 hstage
  obtain ⟨t, hexpires, hresult⟩ := Option.bind_eq_some_iff.1 hgiven
  simp only [List.foldlM_cons, List.foldlM_nil, Option.bind_eq_bind, Option.bind_eq_some_iff,
    Option.pure_def, Option.some.injEq] at hdies
  obtain ⟨q, hcalls, r, hdies, rfl⟩ := hdies
  obtain ⟨es, he⟩ := Run.effect_of_step hcalls
  obtain ⟨es', he'⟩ := Run.effect_of_step hdies
  have ht := ((Run.tracked_begin c ({} : Line) waiting).step he).step he'
  have htimely : Run.Timely (Relay.line "c") r .expirePhase := by
    intro u hreach p hm
    have hlt : p < 0 + 1 := (ht.recorded.pace.mem_missing_iff.1 hm).1
    obtain rfl : p = 0 := by omega
    exact ht.missing_of_reaches hx hdead hreach
  refine ⟨hvalid, by decide, ⟨.fresh, trivial, rfl, nofun⟩,
    Run.start_eq_begin hvalid (by decide) (by decide) _,
    [.conduct, .participant 0, .expirePhase], t, _, ?_, hresult, nofun⟩
  exact .cons trivial hcalls (.cons trivial hdies (.cons htimely hexpires (.nil t)))

end Lockstep.Scenario
