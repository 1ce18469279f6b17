import Mathlib.Data.Option.Basic
import Lockstep.Measurement.Throughput
import Lockstep.Proofs.Inbox

/-!
# What a step of a measurement does

`Latency.Effect` and `Throughput.Effect` list everything that a step of the two measurements can do on
a medium. In the second, `Orders` are the steps of the owner that go to the pool. `effect_of_step` says
that all steps are of this kind.
-/

set_option autoImplicit false

namespace Lockstep

open Medium

/-- The error of a call that fails. -/
def Medium.Reply.error? : Reply → Option RelayError
  | .failed e => some e
  | _ => none

/-- The inbox when the medium has taken a step in which this was handed over. -/
def Inbox.put (inbox : Inbox Payload) : Option Handover → Inbox Payload
  | some ⟨_, m⟩ => inbox.offer m
  | none => inbox

/-- The inbox keeps up with what is handed to the service. -/
theorem Inbox.Holds.put {n k : Nat} {given : List Payload} {inbox : Inbox Payload}
    (hq : Inbox.Holds n given k inbox) (handover : Option Handover) :
    Inbox.Holds n (given ++ (handover.map (·.m)).toList) k (inbox.put handover) := by
  cases handover with
  | none =>
    rw [Option.map_none, Option.toList_none, List.append_nil]
    exact hq
  | some handover => exact hq.offer handover.m

variable {S I : Type} {M : Medium S I} {messages : Nat}

/-! ## Latency -/

namespace Latency

variable {s t : State S} {a : Label I}

inductive Effect (M : Medium S I) (messages : Nat) (s : State S) : Label I → State S → Prop
  | noRoom {f} : s.stage = .register → probeInbox messages = .error f →
      Effect M messages s .main { s with stage := .faulted f }
  | register {inbox} : s.stage = .register → probeInbox messages = .ok inbox →
      Effect M messages s .main (ask M { s with inbox } .register .registering)
  | registered {conn medium} : s.stage = .registering →
      M.reply? s.medium 0 = some (.ok conn, medium) →
      Effect M messages s .main { s with medium, conn, stage := .send 0 }
  | refused {e medium} : s.stage = .registering → M.reply? s.medium 0 = some (.failed e, medium) →
      Effect M messages s .main { s with medium, stage := .over (.error (.relay e)) }
  | send {i} : s.stage = .send i → i < messages →
      Effect M messages s .main (ask M s (.broadcast s.conn (probe i)) (.sending i))
  | allSent {i} : s.stage = .send i → messages ≤ i →
      Effect M messages s .main { s with stage := .stop (.ok messages) }
  | sent {i conn medium} : s.stage = .sending i → M.reply? s.medium 0 = some (.ok conn, medium) →
      Effect M messages s .main { s with medium, stage := .receive i }
  | notSent {i e medium} : s.stage = .sending i →
      M.reply? s.medium 0 = some (.failed e, medium) →
      Effect M messages s .main { s with medium, stage := .stop (.error (.relay e)) }
  | died {medium} : s.stage = .registering ∨ (∃ i, s.stage = .sending i) →
      M.reply? s.medium 0 = some (.died, medium) →
      Effect M messages s .main { s with medium, stage := .dead }
  | receive {i m inbox} : s.stage = .receive i → s.inbox.receive? = some (m, inbox) →
      Effect M messages s .main { s with inbox, stage := .send (i + 1) }
  | expire {i} : s.stage = .receive i → s.inbox.items.toList = [] →
      Effect M messages s .expire { s with stage := .stop (.error (.receiveTimeout i)) }
  | stop {result request} : s.stage = .stop result →
      request = .unregister s.conn ∨ request = .drop s.conn →
      Effect M messages s .main (ask M s request (.stopping result))
  | returned {result reply medium} : s.stage = .stopping result →
      M.reply? s.medium 0 = some (reply, medium) →
      Effect M messages s .main { s with medium, stage := .over result }
  | pass {i medium handover} : M.step s.medium i = some (medium, handover) →
      Effect M messages s (.medium i) { s with medium, inbox := s.inbox.put handover }

theorem effect_of_main (hs : main M messages s = some t) : Effect M messages s .main t := by
  unfold main at hs
  cases hstage : s.stage with
  | register =>
    rw [hstage] at hs
    cases hinbox : probeInbox messages with
    | ok inbox =>
      simp only [hinbox] at hs
      cases hs
      exact .register hstage hinbox
    | error f =>
      simp only [hinbox] at hs
      cases hs
      exact .noRoom hstage hinbox
  | registering =>
    rw [hstage] at hs
    obtain ⟨⟨reply, medium⟩, hreply, hs⟩ := Option.bind_eq_some_iff.1 hs
    cases reply <;> cases hs
    · exact .registered hstage hreply
    · exact .refused hstage hreply
    · exact .died (.inl hstage) hreply
  | send i =>
    simp only [hstage] at hs
    split at hs <;> cases hs
    · rename_i hlt
      exact .send hstage hlt
    · rename_i hle
      exact .allSent hstage (Nat.le_of_not_lt hle)
  | sending i =>
    rw [hstage] at hs
    obtain ⟨⟨reply, medium⟩, hreply, hs⟩ := Option.bind_eq_some_iff.1 hs
    cases reply <;> cases hs
    · exact .sent hstage hreply
    · exact .notSent hstage hreply
    · exact .died (.inr ⟨i, hstage⟩) hreply
  | receive i =>
    rw [hstage] at hs
    obtain ⟨⟨m, inbox⟩, hreceive, hs⟩ := Option.bind_eq_some_iff.1 hs
    cases hs
    exact .receive hstage hreceive
  | stop result =>
    rw [hstage] at hs
    cases result <;> cases hs
    · exact .stop hstage (.inr rfl)
    · exact .stop hstage (.inl rfl)
  | stopping result =>
    rw [hstage] at hs
    obtain ⟨⟨reply, medium⟩, hreply, hs⟩ := Option.bind_eq_some_iff.1 hs
    cases hs
    exact .returned hstage hreply
  | «over» | faulted | dead =>
    rw [hstage] at hs
    cases hs

theorem effect_of_step (hs : step M messages s a = some t) : Effect M messages s a t := by
  cases a with
  | main => exact effect_of_main hs
  | medium i =>
    obtain ⟨⟨medium, handover⟩, hstep, hs⟩ := Option.bind_eq_some_iff.1 hs
    cases handover <;> cases hs <;> exact .pass hstep
  | expire =>
    simp only [step, expire] at hs
    split at hs
    · rename_i hstage hempty
      cases hs
      exact .expire hstage (Inbox.receive?_eq_none_iff.1 hempty)
    · cases hs

end Latency

/-! ## Throughput -/

namespace Throughput

variable {s t : State S} {a : Label I}

/-- The owner calls the pool, or goes on with a call, and goes to the stage. -/
inductive Orders (messages : Nat) (s : State S) : Label I → Pool.Label Nat → Stage → Prop
  | schedule {i} : s.stage = .schedule i → i < messages →
      Orders messages s .main (.schedule i) (.schedule (i + 1))
  | start {i} : s.stage = .schedule i → messages ≤ i → Orders messages s .main .start (.receive 0)
  | startShort {i made reason} : s.stage = .schedule i → messages ≤ i →
      Orders messages s (.startShort made reason) (.startShort made reason)
        (.abandoned (s.pool.startShort made reason).1)
  | enough {r} : s.stage = .receive r → messages ≤ r →
      Orders messages s .main (.terminate true) (.terminating .enough)
  | expire {r} : s.stage = .receive r → r < messages → s.inbox.items.toList = [] →
      Orders messages s .expire (.terminate false) (.terminating (.timedOut r))
  | abandon {e} : s.stage = .abandoned e →
      Orders messages s .main .drop (.terminating (.startFailed e))
  | close {ending} : s.stage = .terminating ending →
      Orders messages s .main .close (.terminating ending)
  | return {ending} : s.stage = .terminating ending →
      Orders messages s .main .return (.stop ending)

inductive Effect (M : Medium S I) (messages : Nat) (s : State S) : Label I → State S → Prop
  | noRoom {f} : s.stage = .register → probeInbox messages = .error f →
      Effect M messages s .main { s with stage := .faulted f }
  | register {inbox} : s.stage = .register → probeInbox messages = .ok inbox →
      Effect M messages s .main (ask M { s with inbox } .register .registering)
  | registered {conn medium} : s.stage = .registering →
      M.reply? s.medium 0 = some (.ok conn, medium) →
      Effect M messages s .main { s with medium, conn, stage := .schedule 0 }
  | refused {e medium} : s.stage = .registering → M.reply? s.medium 0 = some (.failed e, medium) →
      Effect M messages s .main { s with medium, stage := .over (.error (.relay e)) }
  | died {medium} : s.stage = .registering → M.reply? s.medium 0 = some (.died, medium) →
      Effect M messages s .main { s with medium, stage := .dead }
  | order {a l next pool} : Orders messages s a l next → s.pool.step l = some pool →
      Effect M messages s a { s with pool, stage := next }
  | receive {r m inbox} : s.stage = .receive r → r < messages →
      s.inbox.receive? = some (m, inbox) →
      Effect M messages s .main { s with inbox, stage := .receive (r + 1) }
  | stop {ending} : s.stage = .stop ending →
      Effect M messages s .main (ask M s (ending.farewell s.conn) (.stopping ending))
  | returned {ending reply medium} : s.stage = .stopping ending →
      M.reply? s.medium 0 = some (reply, medium) →
      Effect M messages s .main
        { s with medium, stage := .over (verdict messages s.failures ending) }
  /-- A worker does something with the queue or the flag. -/
  | turn {w l pool} : l = .take w ∨ l = .check w ∨ l = .leave w → s.pool.step l = some pool →
      Effect M messages s (.work w) { s with pool }
  | broadcast {w i} : s.pool.workers[w]? = some (.running i) → w ∉ s.asked →
      Effect M messages s (.work w) { s with
        medium := M.ask s.medium (w + 1) (.broadcast s.conn (probe i))
        asked := w :: s.asked }
  | finish {w i reply medium pool} : s.pool.workers[w]? = some (.running i) → w ∈ s.asked →
      M.reply? s.medium (w + 1) = some (reply, medium) →
      s.pool.step (.finish w (reply = .died)) = some pool →
      Effect M messages s (.work w) { s with
        medium, pool
        asked := s.asked.erase w
        failures := s.failures ++ reply.error?.toList }
  | pass {i medium handover} : M.step s.medium i = some (medium, handover) →
      Effect M messages s (.medium i) { s with medium, inbox := s.inbox.put handover }

theorem effect_of_poolStep {l : Pool.Label Nat} {next : Stage} (ho : Orders messages s a l next)
    (hs : ((poolStep s l).bind fun s => some { s with stage := next }) = some t) :
    Effect M messages s a t := by
  obtain ⟨u, hu, ht⟩ := Option.bind_eq_some_iff.1 hs
  obtain ⟨pool, hpool, rfl⟩ := Option.map_eq_some_iff.1 hu
  cases ht
  exact .order ho hpool

theorem effect_of_main (hs : main M messages s = some t) : Effect M messages s .main t := by
  unfold main at hs
  cases hstage : s.stage with
  | register =>
    rw [hstage] at hs
    cases hinbox : probeInbox messages with
    | ok inbox =>
      simp only [hinbox] at hs
      cases hs
      exact .register hstage hinbox
    | error f =>
      simp only [hinbox] at hs
      cases hs
      exact .noRoom hstage hinbox
  | registering =>
    rw [hstage] at hs
    obtain ⟨⟨reply, medium⟩, hreply, hs⟩ := Option.bind_eq_some_iff.1 hs
    cases reply <;> cases hs
    · exact .registered hstage hreply
    · exact .refused hstage hreply
    · exact .died hstage hreply
  | schedule i =>
    simp only [hstage] at hs
    split at hs
    · rename_i hlt
      exact effect_of_poolStep (.schedule hstage hlt) hs
    · rename_i hle
      exact effect_of_poolStep (.start hstage (Nat.le_of_not_lt hle)) hs
  | receive r =>
    simp only [hstage] at hs
    split at hs
    · rename_i hlt
      obtain ⟨⟨m, inbox⟩, hreceive, hs⟩ := Option.bind_eq_some_iff.1 hs
      cases hs
      exact .receive hstage hlt hreceive
    · rename_i hle
      exact effect_of_poolStep (.enough hstage (Nat.le_of_not_lt hle)) hs
  | abandoned e =>
    rw [hstage] at hs
    exact effect_of_poolStep (.abandon hstage) hs
  | terminating ending =>
    simp only [hstage] at hs
    split at hs
    · obtain ⟨pool, hpool, rfl⟩ := Option.map_eq_some_iff.1 hs
      have he : Effect M messages s .main { s with pool, stage := .terminating ending } :=
        .order (.close hstage) hpool
      rwa [← hstage] at he
    · exact effect_of_poolStep (.return hstage) hs
    · cases hs
  | stop ending =>
    rw [hstage] at hs
    cases hs
    exact .stop hstage
  | stopping ending =>
    rw [hstage] at hs
    obtain ⟨⟨reply, medium⟩, hreply, hs⟩ := Option.bind_eq_some_iff.1 hs
    cases hs
    exact .returned hstage hreply
  | «over» | faulted | dead =>
    rw [hstage] at hs
    cases hs

theorem effect_of_work {w : Nat} (hs : work M s w = some t) : Effect M messages s (.work w) t := by
  unfold work at hs
  split at hs
  · rename_i i hrunning
    split at hs
    · rename_i hasked
      obtain ⟨⟨reply, medium⟩, hreply, hs⟩ := Option.bind_eq_some_iff.1 hs
      cases reply <;>
        · obtain ⟨pool, hpool, rfl⟩ := Option.map_eq_some_iff.1 hs
          exact .finish hrunning hasked hreply hpool
    · rename_i hasked
      cases hs
      exact .broadcast hrunning hasked
  · obtain ⟨pool, hpool, rfl⟩ := Option.map_eq_some_iff.1 hs
    exact .turn (.inr (.inl rfl)) hpool
  · rcases Option.or_eq_some_iff.1 hs with hs | ⟨-, hs⟩
    · obtain ⟨pool, hpool, rfl⟩ := Option.map_eq_some_iff.1 hs
      exact .turn (.inl rfl) hpool
    · obtain ⟨pool, hpool, rfl⟩ := Option.map_eq_some_iff.1 hs
      exact .turn (.inr (.inr rfl)) hpool
  · cases hs

theorem effect_of_step (hs : step M messages s a = some t) : Effect M messages s a t := by
  cases a with
  | main => exact effect_of_main hs
  | work w => exact effect_of_work hs
  | medium i =>
    obtain ⟨⟨medium, handover⟩, hstep, hs⟩ := Option.bind_eq_some_iff.1 hs
    cases handover <;> cases hs <;> exact .pass hstep
  | expire =>
    simp only [step, expire] at hs
    split at hs
    · rename_i hstage hempty
      obtain ⟨hlt, hs⟩ := Option.ite_none_right_eq_some.1 hs
      exact effect_of_poolStep (.expire hstage hlt (Inbox.receive?_eq_none_iff.1 hempty)) hs
    · cases hs
  | startShort made reason =>
    simp only [step, startShort] at hs
    split at hs
    · rename_i i hstage
      obtain ⟨hle, hs⟩ := Option.ite_none_left_eq_some.1 hs
      exact effect_of_poolStep (.startShort hstage (Nat.le_of_not_lt hle)) hs
    · cases hs

end Throughput

end Lockstep
