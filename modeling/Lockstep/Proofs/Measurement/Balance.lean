import Lockstep.Proofs.Measurement.Latency
import Lockstep.Proofs.Measurement.Outcomes

/-!
# What a measurement of latency returns

The relay is one that multiplies deliveries (`Copies`). `outcome` is the result: the first broadcast
that fails, or up to which too few copies were delivered, ends the measurement (`stops`). `Played` is the
invariant: the copies that were offered to the queue and those still pending add up to the copies of
the broadcasts made so far (`Accounted`), and the queue has dropped none of the first that there are
places for. As it has a place for each message, what it drops is never missed.
-/

set_option autoImplicit false

namespace Lockstep.Latency

open Medium Copies
open Throughput (most measured_of_rest eq_of_only_reply)

variable {copies : List Copy} {conn messages n i : Nat} {s t : State Copies} {a : Label Unit}
  {m : Copies} {inbox : Inbox Payload}

/-! ## The result -/

/-- The `i`-th broadcast fails, or there is nothing to receive after it. -/
def stops (copies : List Copy) (i : Nat) : Bool :=
  (fate copies i).error?.isSome || decide (delivered copies (i + 1) ≤ i)

def outcome (copies : List Copy) (messages : Nat) : Except MeasureError Nat :=
  match (List.range messages).find? (stops copies) with
  | none => .ok messages
  | some i =>
    match (fate copies i).error? with
    | some e => .error (.relay e)
    | none => .error (.receiveTimeout i)

theorem outcome_eq_ok (hpassed : ∀ j < messages, stops copies j = false) :
    outcome copies messages = .ok messages := by
  have hnone : (List.range messages).find? (stops copies) = none :=
    List.find?_eq_none.2 fun j hj => Bool.eq_false_iff.1 (hpassed j (List.mem_range.1 hj))
  rw [outcome, hnone]

section
variable (hlt : i < messages) (hpassed : ∀ j < i, stops copies j = false)
include hlt hpassed

theorem find?_stops (hstops : stops copies i = true) :
    (List.range messages).find? (stops copies) = some i := by
  refine List.find?_range_eq_some.2 ⟨hstops, List.mem_range.2 hlt, fun j hj => ?_⟩
  rw [hpassed j hj]
  rfl

theorem outcome_of_failed {e : RelayError} (herror : (fate copies i).error? = some e) :
    outcome copies messages = .error (.relay e) := by
  have hstops : stops copies i = true := by simp [stops, herror]
  rw [outcome, find?_stops hlt hpassed hstops]
  simp only [herror]

theorem outcome_of_late (herror : (fate copies i).error? = none)
    (hdelivered : delivered copies (i + 1) ≤ i) :
    outcome copies messages = .error (.receiveTimeout i) := by
  have hstops : stops copies i = true := by simp [stops, hdelivered]
  rw [outcome, find?_stops hlt hpassed hstops]
  simp only [herror]

end

/-! ## The invariant -/

/-- A receive times out only when all copies are handed over. -/
def Timely (s : State Copies) : Label Unit → Prop
  | .expire => s.medium.pending.toList = []
  | _ => True

/-- None of the first `i` broadcasts has ended the measurement, and a copy was received for each. -/
structure Balanced (copies : List Copy) (messages n i : Nat) (m : Copies) (inbox : Inbox Payload) :
    Prop where
  passed : ∀ j < i, stops copies j = false
  account : Accounted copies (max messages 1) n m inbox i

/-- What is known where the caller stands, when `n` broadcasts were made. -/
def Stands (copies : List Copy) (conn messages n : Nat) (m : Copies) (inbox : Inbox Payload) :
    Stage → Prop
  | .register => n = 0 ∧ m = { registration := .ok conn, copies }
  | .registering => n = 0 ∧ m.replies = [(0, .ok conn)] ∧ Balanced copies messages n 0 m inbox
  | .send i => n = i ∧ m.replies = [] ∧ i ≤ messages ∧ Balanced copies messages n i m inbox
  | .sending i => n = i + 1 ∧ m.replies = [(0, (fate copies i).reply)] ∧ i < messages ∧
    Balanced copies messages n i m inbox
  | .receive i => n = i + 1 ∧ m.replies = [] ∧ i < messages ∧ (fate copies i).error? = none ∧
    Balanced copies messages n i m inbox
  | .stop result => m.replies = [] ∧ result = outcome copies messages
  | .stopping result => m.replies = [(0, .ok 0)] ∧ result = outcome copies messages
  | .over result => result = outcome copies messages
  | .faulted _ | .dead => False

/-- The measurement is on a relay of which `n` broadcasts have come out as `copies` says. -/
structure Played (copies : List Copy) (conn messages n : Nat) (s : State Copies) : Prop where
  rest : s.medium.copies = copies.drop n
  stands : Stands copies conn messages n s.medium s.inbox s.stage

theorem played_start (copies : List Copy) (conn messages : Nat) :
    Played copies conn messages 0 (start { registration := .ok conn, copies }) :=
  ⟨rfl, rfl, rfl⟩

/-- A message that is received was delivered, so that the broadcast does not end the measurement. -/
theorem Balanced.receive {p : Payload} {rest : Inbox Payload}
    (hb : Balanced copies messages n i m inbox) (hn : n = i + 1) (hlt : i < messages)
    (herror : (fate copies i).error? = none) (hreceive : inbox.receive? = some (p, rest)) :
    Balanced copies messages n (i + 1) m rest := by
  have hafter := hb.account.receive (Nat.lt_of_lt_of_le hlt (Nat.le_max_left _ _)) hreceive
  refine ⟨fun j hj => ?_, hafter⟩
  rcases Nat.lt_succ_iff_lt_or_eq.1 hj with hbefore | rfl
  · exact hb.passed j hbefore
  · have henough : ¬ delivered copies (j + 1) ≤ j := Nat.not_le.2 (hn ▸ hafter.le_delivered)
    simp [stops, herror, henough]

/-! ## Steps -/

/-- The medium hands a copy over. -/
theorem Stands.pass {p : Payload} {pending : Queue Payload} {stage : Stage}
    (hs : Stands copies conn messages n m inbox stage)
    (hpop : m.pending.pop? = some (p, pending)) :
    Stands copies conn messages n { m with pending } (inbox.offer p) stage := by
  cases stage with
  | register =>
    rw [hs.2] at hpop
    cases hpop
  | registering =>
    obtain ⟨hn, hreplies, hbalanced⟩ := hs
    exact ⟨hn, hreplies, hbalanced.passed, hbalanced.account.pass hpop⟩
  | send | sending =>
    obtain ⟨hn, hreplies, hlt, hbalanced⟩ := hs
    exact ⟨hn, hreplies, hlt, hbalanced.passed, hbalanced.account.pass hpop⟩
  | receive =>
    obtain ⟨hn, hreplies, hlt, herror, hbalanced⟩ := hs
    exact ⟨hn, hreplies, hlt, herror, hbalanced.passed, hbalanced.account.pass hpop⟩
  | stop | stopping | «over» | faulted | dead => exact hs

/-- Who waits for the relay has its reply. -/
theorem Stands.exists_reply {stage : Stage} {e : Relay.Errand}
    (hs : Stands copies conn messages n m inbox stage) (he : stage.errand? = some e) :
    ∃ r, m.replies = [(0, r)] := by
  cases stage with
  | registering | sending => exact ⟨_, hs.2.1⟩
  | stopping => exact ⟨_, hs.1⟩
  | register | send | receive | stop | «over» | faulted | dead => cases he

/-- Each step that is no time-out, or a timely one, leaves the relay as the copies say. -/
theorem Played.step (hs : Played copies conn messages n s)
    (hroom : (probeInbox messages).isOk = true) (hlive : ∀ k < messages, fate copies k ≠ .died)
    (hok : Timely s a) (he : Effect medium messages s a t) :
    ∃ n', Played copies conn messages n' t := by
  obtain ⟨hrest, hstands⟩ := hs
  cases he with
  | noRoom _ hinbox =>
    rw [hinbox] at hroom
    cases hroom
  | register hstage hinbox =>
    rw [hstage] at hstands
    obtain ⟨rfl, hmedium⟩ := hstands
    obtain ⟨-, rfl⟩ := Inbox.ofCapacity_eq_ok_iff.1 hinbox
    refine ⟨0, hrest, rfl, ?_, nofun, [], Inbox.holds_empty _, ?_⟩
    · rw [hmedium]
      rfl
    · rw [hmedium]
      rfl
  | registered hstage hr =>
    rw [hstage] at hstands
    obtain ⟨rfl, honly, hbalanced⟩ := hstands
    obtain ⟨-, rfl⟩ := eq_of_only_reply honly hr
    exact ⟨0, hrest, rfl, rfl, Nat.zero_le _, hbalanced.passed, hbalanced.account⟩
  | refused hstage hr =>
    rw [hstage] at hstands
    obtain ⟨heq, -⟩ := eq_of_only_reply hstands.2.1 hr
    cases heq
  | died hstage hr =>
    rcases hstage with hstage | ⟨i, hstage⟩ <;> rw [hstage] at hstands
    · obtain ⟨heq, -⟩ := eq_of_only_reply hstands.2.1 hr
      cases heq
    · obtain ⟨-, honly, hlt, -⟩ := hstands
      obtain ⟨heq, -⟩ := eq_of_only_reply honly hr
      cases hfate : fate copies i <;> rw [hfate] at heq <;> cases heq
      exact (hlive i hlt hfate).elim
  | @send i hstage hlt =>
    rw [hstage] at hstands
    obtain ⟨rfl, hreplies, -, hbalanced⟩ := hstands
    obtain ⟨pending, heq, hpending⟩ := ask_broadcast hrest 0 s.conn (probe n)
    have hask : medium.ask s.medium 0 (.broadcast s.conn (probe n)) = _ := heq
    rw [ask, hask]
    refine ⟨n + 1, rfl, rfl, ?_, hlt, hbalanced.passed, hbalanced.account.broadcast ?_⟩
    · rw [hreplies]
      rfl
    · rw [hpending, List.length_append, List.length_replicate]
  | allSent hstage hle =>
    rw [hstage] at hstands
    obtain ⟨-, hreplies, -, hbalanced⟩ := hstands
    refine ⟨n, hrest, hreplies, (outcome_eq_ok fun j hj => ?_).symm⟩
    exact hbalanced.passed j (Nat.lt_of_lt_of_le hj hle)
  | sent hstage hr =>
    rw [hstage] at hstands
    obtain ⟨hn, honly, hlt, hbalanced⟩ := hstands
    obtain ⟨heq, rfl⟩ := eq_of_only_reply honly hr
    refine ⟨n, hrest, hn, rfl, hlt, ?_, hbalanced.passed, hbalanced.account⟩
    rw [← Copy.error?_reply, ← heq]
    rfl
  | @notSent i e _ hstage hr =>
    rw [hstage] at hstands
    obtain ⟨hn, honly, hlt, hbalanced⟩ := hstands
    obtain ⟨heq, rfl⟩ := eq_of_only_reply honly hr
    have herror : (fate copies i).error? = some e := by
      rw [← Copy.error?_reply, ← heq]
      rfl
    exact ⟨n, hrest, rfl, (outcome_of_failed hlt hbalanced.passed herror).symm⟩
  | receive hstage hreceive =>
    rw [hstage] at hstands
    obtain ⟨hn, hreplies, hlt, herror, hbalanced⟩ := hstands
    exact ⟨n, hrest, hn, hreplies, hlt, hbalanced.receive hn hlt herror hreceive⟩
  | expire hstage hempty =>
    rw [hstage] at hstands
    obtain ⟨hn, hreplies, hlt, herror, hbalanced⟩ := hstands
    have hall := hbalanced.account.delivered_eq (Nat.lt_of_lt_of_le hlt (Nat.le_max_left _ _)) hok
      hempty
    rw [hn] at hall
    exact ⟨n, hrest, hreplies,
      (outcome_of_late hlt hbalanced.passed herror (Nat.le_of_eq hall)).symm⟩
  | @stop _ request hstage hrequest =>
    rw [hstage] at hstands
    obtain ⟨hreplies, hresult⟩ := hstands
    have hask : medium.ask s.medium 0 request = s.medium.reply 0 (.ok 0) := by
      rcases hrequest with rfl | rfl <;> rfl
    rw [ask, hask]
    refine ⟨n, hrest, ?_, hresult⟩
    show s.medium.replies ++ _ = _
    rw [hreplies]
    rfl
  | returned hstage hr =>
    rw [hstage] at hstands
    obtain ⟨-, rfl⟩ := reply?_eq_some_iff.1 hr
    exact ⟨n, hrest, hstands.2⟩
  | pass hstep =>
    obtain ⟨⟨p, pending⟩, hpop, heq⟩ := Option.map_eq_some_iff.1 hstep
    cases heq
    exact ⟨n, hrest, hstands.pass hpop⟩

/-! ## Every run -/

section
variable (hroom : (probeInbox messages).isOk = true)
  (hlive : ∀ k < messages, fate copies k ≠ .died)
include hroom hlive

/-- Each step is one less to take. -/
theorem played_step_lt (hs : ∃ n, Played copies conn messages n s) (hok : Timely s a)
    (hstep : (machine medium messages).step s a = some t) :
    (∃ n, Played copies conn messages n t) ∧
      budget (·.pending.toList.length) (most copies) messages t <
        budget (·.pending.toList.length) (most copies) messages s := by
  obtain ⟨n, hs⟩ := hs
  have he : Effect medium messages s a t := effect_of_step hstep
  exact ⟨hs.step hroom hlive hok he, budget_lt (measured_of_rest hs.rest) he⟩

omit hroom hlive in
/-- Where nothing can happen the measurement has returned: a receive that finds nothing times out. -/
theorem Played.returned_of_quiet (hs : Played copies conn messages n s)
    (hquiet : (machine medium messages).Quiet Timely s) : Returned s := by
  have hstands := hs.stands
  cases blocked_of_main (hquiet .main trivial) with
  | «over» hstage => exact ⟨_, by rw [result?, hstage]⟩
  | lost hstage =>
    rcases hstage with ⟨f, hstage⟩ | hstage <;> rw [hstage] at hstands <;> exact hstands.elim
  | unanswered he hnone =>
    obtain ⟨r, honly⟩ := hstands.exists_reply he
    have hr : medium.reply? s.medium 0 = some (r, _) :=
      reply?_eq_some_iff.2 ⟨by rw [honly]; rfl, rfl⟩
    rw [hr] at hnone
    cases hnone
  | starved hstage hempty =>
    have hhalted := halted_of_medium (fun b => hquiet (.medium b) trivial) ()
    have hexpire : expire s = none :=
      hquiet .expire (step_eq_none_iff.1 hhalted)
    rw [expire, hstage, Inbox.receive?_eq_none_iff.2 hempty] at hexpire
    cases hexpire

/-- **What a measurement of latency returns** is decided by how often the first messages were
delivered, up to the first broadcast that fails or leaves nothing to receive. Copies for which there was
no place in the queue do not matter. -/
theorem outcome_of_latency (conn : Nat) :
    let begin : State Copies := start { registration := .ok conn, copies }
    (machine medium messages).Settles Timely Returned begin ∧
      ∀ as t result, (machine medium messages).RunWhere Timely begin as t →
        result? t = .ok (some result) → result = outcome copies messages := by
  intro begin
  have hbegin : Played copies conn messages 0 begin := played_start copies conn messages
  constructor
  · exact Machine.settles_of_measure (budget (·.pending.toList.length) (most copies) messages)
      (fun _ _ _ hs hok hstep => played_step_lt hroom hlive hs hok hstep)
      (fun _ ⟨_, hs⟩ hquiet => hs.returned_of_quiet hquiet) ⟨0, hbegin⟩
  · intro as t result hr hresult
    obtain ⟨n, ht⟩ : ∃ n, Played copies conn messages n t :=
      hr.invariant ⟨0, hbegin⟩ fun _ _ _ _ hs hok hstep =>
        (played_step_lt hroom hlive hs hok hstep).1
    have hstands := ht.stands
    rw [stage_of_result hresult] at hstands
    exact hstands

end

/-- The run that is performed is timely. -/
theorem runWhere_timely (messages fuel : Nat) (m : Copies) : ∃ as,
    (machine medium messages).RunWhere Timely (start m) as (run medium messages fuel m) := by
  obtain ⟨as, hr⟩ := reaches_run (fun _ _ hi => step_of_notMem_moves hi) fuel m
  refine ⟨as, hr.runWhere (P := fun _ => True) trivial fun s a t _ hn => ⟨?_, trivial⟩⟩
  cases a with
  | expire =>
    exact step_eq_none_iff.1 (halted_of_medium (fun i => hn.1 (.medium i) rfl) ())
  | _ => trivial

/-- Three messages. The first is delivered five times, which are two more than the queue has places
for, and the others not at all: all three are received. -/
theorem surplus_for_later :
    let copies : List Copy := [.delivered 5, .delivered 0, .delivered 0]
    (probeInbox 3).isOk = true ∧ (∀ k < 3, fate copies k ≠ .died) ∧ ∃ as t,
      (machine medium 3).RunWhere Timely (start { registration := .ok 0, copies }) as t ∧
        result? t = .ok (some (.ok 3)) ∧ outcome copies 3 = .ok 3 := by
  intro copies
  have hroom : (probeInbox 3).isOk = true := by decide
  have hlive : ∀ k < 3, fate copies k ≠ .died := by decide
  obtain ⟨as, hr⟩ := runWhere_timely 3 20 { registration := .ok 0, copies }
  have hresult : result? (run medium 3 20 ({ registration := .ok 0, copies } : Copies)) =
      .ok (some (.ok 3)) := by decide +kernel
  exact ⟨hroom, hlive, as, _, hr, hresult,
    ((outcome_of_latency hroom hlive 0).2 as _ _ hr hresult).symm⟩

/-- Where the queue has no room for the messages the call ends in a panic, and does not come to the
broadcast whose failure was to be the result. -/
theorem panicked_before_broadcast :
    let copies : List Copy := [.failed .relayClosed]
    let begin : State Copies := start { registration := .ok 0, copies }
    outcome copies (2 ^ 58) = .error (.relay .relayClosed) ∧
      ∃ t, (machine medium (2 ^ 58)).RunWhere Timely begin [.main] t ∧
        result? t = .error .capacity ∧ ¬ (machine medium (2 ^ 58)).Settles Timely Returned begin := by
  intro copies begin
  have houtcome : outcome copies (2 ^ 58) = .error (.relay .relayClosed) :=
    outcome_of_failed (i := 0) (Nat.two_pow_pos 58) nofun rfl
  have hinbox : probeInbox (2 ^ 58) = .error .capacity := by
    decide
  let t : State Copies := { begin with stage := .faulted .capacity }
  have hstep : (machine medium (2 ^ 58)).step begin .main = some t := by
    show main medium (2 ^ 58) begin = some t
    simp only [main, begin, start, hinbox]
    rfl
  have hr : (machine medium (2 ^ 58)).RunWhere Timely begin [.main] t :=
    .cons trivial hstep (.nil t)
  have hquiet : (machine medium (2 ^ 58)).Quiet Timely t := by
    intro a _
    cases a <;> rfl
  refine ⟨houtcome, t, hr, rfl, fun hsettles => ?_⟩
  obtain ⟨bound, hruns⟩ := hsettles
  obtain ⟨result, hresult⟩ := (hruns _ _ hr).2.1 hquiet
  cases hresult

end Lockstep.Latency
