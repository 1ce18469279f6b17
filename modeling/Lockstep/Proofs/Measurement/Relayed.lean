import Lockstep.Proofs.Measurement.Throughput

/-!
# Measurements on a relay

`Measurement.Reliable` is what can be said of a measurement that begins on a line. Both measurements
are reliable on an idle line, whatever is registered there and whether or not it is closed
(`reliable_on_relay`). What comes for them is put into a queue with a place for each message; where such
a queue cannot be made they panic (`panicked_on_closed_relay`).
-/

set_option autoImplicit false

namespace Lockstep.Measurement

open Medium
open Relay (Line Restored Handed)
open Scenario (Idle)

/-- The machine `M` measures on the line `l₀`, from the state `begin`. What it returns without time-outs
that are not due is as `returns` says. -/
structure Reliable {S A : Type} (M : Machine S A) (due : S → A → Prop)
    (result? : S → Except Fault (Option (Except MeasureError Nat))) (line : S → Line)
    (returns : List A → Line → Except MeasureError Nat → Prop) (l₀ : Line) (begin : S) : Prop where
  settles : M.Settles due (fun s => ∃ result, result? s = .ok (some result)) begin
  /-- It ends also where anything may time out at any time. -/
  ends : M.Settles (fun _ _ => True) (fun s => ∃ result, result? s = .ok (some result)) begin
  /-- Whatever it returns, its service is gone, and all others are where they were. -/
  restored : ∀ as t result, M.RunWhere (fun _ _ => True) begin as t →
    result? t = .ok (some result) → Restored l₀ (line t)
  returns : ∀ as t result, M.RunWhere due begin as t →
    result? t = .ok (some result) → returns as (line t) result

variable {H : Relay.History} {l₀ : Line} {threads messages : Nat}

/-- Where the calls that were made are collected, the relay is idle. -/
theorem idle_of_follow {relay : Relay} (labels : List Relay.Traffic.Label) (howned : H.Owned)
    (hfollow : (Relay.follow ([], {}) labels).map (fun q => (q.1, q.2.relay, q.2.calls.isEmpty)) =
      some (H, relay, true)) : Idle H { traffic := { relay } } := by
  obtain ⟨⟨H', relay', calls⟩, hfollow, heq⟩ := Option.map_eq_some_iff.1 hfollow
  simp only [Prod.mk.injEq, List.isEmpty_iff] at heq
  obtain ⟨rfl, rfl, rfl⟩ := heq
  exact ⟨Relay.Recorded.fresh.follow hfollow, howned, rfl, nofun⟩

/-- **Measuring on a relay**, where nobody else uses it. On an open relay both measurements count all
messages, and who observes the cluster is handed each of them once: in their order from the measurement
of latency, in some order from that of throughput, which fails only where a worker cannot be made. On a
closed relay both are refused. In every case the members are those from before. -/
theorem reliable_on_relay (hi : Idle H l₀) (hthreads : 0 < threads)
    (hroom : (probeInbox messages).isOk = true) (cluster : String) :
    Reliable (Latency.machine (Relay.line cluster) messages)
      (Latency.Due (Relay.line cluster) messages) Latency.result? (·.medium)
      (fun _ l result => Returns cluster messages (· = probes messages) l₀ l result)
      l₀ (Latency.start l₀) ∧
    Reliable (Throughput.machine (Relay.line cluster) messages)
      (Throughput.Due (Relay.line cluster) messages) Throughput.result? (·.medium)
      (fun as l result => Returns cluster messages (·.Perm (probes messages)) l₀ l result ∨
        l₀.traffic.relay.closed = false ∧
          ∃ made reason, .startShort made reason ∈ as ∧ result = .error (.pool (.spawn reason)))
      l₀ (Throughput.start threads l₀) := by
  refine ⟨⟨?_, ?_, fun as t result hr => ?_, fun as t result hr => ?_⟩,
    ⟨?_, ?_, fun as t result hr => ?_, fun as t result hr => ?_⟩⟩
  · exact Latency.settles_on_line hi hroom cluster fun s a => Machine.due_of_ne
  · exact Latency.settles_on_line hi hroom cluster fun _ _ _ => trivial
  · exact Latency.restored_after hi hroom hr
  · exact Latency.returns_after hi hroom hr
  · exact Throughput.settles_on_line hi hthreads hroom cluster fun s a => Machine.due_of_ne
  · exact Throughput.settles_on_line hi hthreads hroom cluster fun _ _ _ => trivial
  · exact Throughput.restored_after hi hthreads hroom hr
  · exact Throughput.returns_after hi hthreads hroom hr

/-- A service that was registered before is handed the two messages, by the measurement of latency in
their order. -/
theorem reliable_with_observer :
    let relay : Relay := { endpoints := [{}], clusters := [⟨"c", [0]⟩] }
    let l₀ : Line := { traffic := { relay } }
    Idle [.inserted "c" 0] l₀ ∧ 0 < 2 ∧ (probeInbox 2).isOk = true ∧
      (∃ as t, (Latency.machine (Relay.line "c") 2).RunWhere (Latency.Due (Relay.line "c") 2)
          (Latency.start l₀) as t ∧ Latency.result? t = .ok (some (.ok 2)) ∧
        Restored l₀ t.medium ∧ t.medium.traffic.relay.recorded 0 = [[0], [1]]) ∧
      ∃ as t, (Throughput.machine (Relay.line "c") 2).RunWhere (Throughput.Due (Relay.line "c") 2)
          (Throughput.start 2 l₀) as t ∧ Throughput.result? t = .ok (some (.ok 2)) ∧
        Restored l₀ t.medium ∧ (t.medium.traffic.relay.recorded 0).Perm [[0], [1]] := by
  intro relay l₀
  have hi : Idle [.inserted "c" 0] l₀ := by
    refine idle_of_follow [.start 0 (.register "c"), .advance 0, .advance 0, .initialised 0 none,
      .advance 0, .collect 0] trivial ?_
    decide +kernel
  have hroom : (probeInbox 2).isOk = true := by decide
  obtain ⟨hlatency, hthroughput⟩ := reliable_on_relay hi (show 0 < 2 by decide) hroom "c"
  obtain ⟨as, hr⟩ : ∃ as, (Latency.machine (Relay.line "c") 2).RunWhere
      (Latency.Due (Relay.line "c") 2) (Latency.start l₀) as
        (Latency.run (Relay.line "c") 2 30 l₀) :=
    Latency.runWhere_due (fun _ _ => Relay.Line.step_eq_none_of_not_mem) 30 l₀
  have hresult : Latency.result? (Latency.run (Relay.line "c") 2 30 l₀) = .ok (some (.ok 2)) := by
    decide +kernel
  obtain ⟨bs, hr'⟩ : ∃ bs, (Throughput.machine (Relay.line "c") 2).RunWhere
      (Throughput.Due (Relay.line "c") 2) (Throughput.start 2 l₀) bs
        (Throughput.run (Relay.line "c") 2 30 2 l₀) :=
    Throughput.runWhere_due (fun _ _ => Relay.Line.step_eq_none_of_not_mem) 30 l₀
  have hresult' : Throughput.result? (Throughput.run (Relay.line "c") 2 30 2 l₀) =
      .ok (some (.ok 2)) := by
    decide +kernel
  refine ⟨hi, by decide, hroom, ⟨as, _, hr, hresult, ?_, ?_⟩, bs, _, hr', hresult', ?_, ?_⟩
  · exact hlatency.restored _ _ _ (hr.mono fun _ _ _ => trivial) hresult
  · have hreturns := hlatency.returns _ _ _ hr hresult
    cases hreturns with
    | ok _ hhanded =>
      obtain ⟨new, hrecorded, hnew⟩ := hhanded 0 {} rfl rfl
      rw [if_pos (by decide)] at hnew
      rw [hrecorded, hnew]
      rfl
  · exact hthroughput.restored _ _ _ (hr'.mono fun _ _ _ => trivial) hresult'
  · rcases hthroughput.returns _ _ _ hr' hresult' with hreturns | ⟨-, made, reason, -, herror⟩
    · cases hreturns with
      | ok _ hhanded =>
        obtain ⟨new, hrecorded, hnew⟩ := hhanded 0 {} rfl rfl
        rw [if_pos (by decide)] at hnew
        rw [hrecorded]
        exact hnew
    · cases herror

/-- Where the queue has no room for the messages the call ends in a panic, and does not get to know that
the relay is closed. -/
theorem panicked_on_closed_relay :
    let relay : Relay := { closed := true }
    let l₀ : Line := { traffic := { relay } }
    Idle [.cleared] l₀ ∧ l₀.traffic.relay.closed = true ∧ ∃ t,
      (Latency.machine (Relay.line "m") (2 ^ 58)).RunWhere (Latency.Due (Relay.line "m") (2 ^ 58))
        (Latency.start l₀) [.main] t ∧ Latency.result? t = .error .capacity ∧
      ¬ (Latency.machine (Relay.line "m") (2 ^ 58)).Settles (Latency.Due (Relay.line "m") (2 ^ 58))
        Latency.Returned (Latency.start l₀) := by
  intro relay l₀
  have hi : Idle [.cleared] l₀ := by
    refine idle_of_follow [.start 0 .shutdown, .advance 0, .advance 0, .collect 0] trivial ?_
    decide +kernel
  have hinbox : probeInbox (2 ^ 58) = .error .capacity := by
    decide
  let t : Latency.State Line := { Latency.start l₀ with stage := .faulted .capacity }
  have hstep : (Latency.machine (Relay.line "m") (2 ^ 58)).step (Latency.start l₀) .main = some t := by
    show Latency.main (Relay.line "m") (2 ^ 58) (Latency.start l₀) = some t
    simp only [Latency.main, Latency.start, hinbox]
    rfl
  have hr : (Latency.machine (Relay.line "m") (2 ^ 58)).RunWhere
      (Latency.Due (Relay.line "m") (2 ^ 58)) (Latency.start l₀) [.main] t :=
    .cons (Machine.due_of_ne nofun) hstep (.nil t)
  have hquiet : (Latency.machine (Relay.line "m") (2 ^ 58)).Quiet
      (Latency.Due (Relay.line "m") (2 ^ 58)) t := by
    intro a _
    cases a with
    | main | expire => rfl
    | medium b =>
      have hnone : (Relay.line "m").step t.medium b = none :=
        Relay.Line.step_eq_none_of_not_mem List.not_mem_nil
      show Latency.mediumStep (Relay.line "m") t b = none
      rw [Latency.mediumStep, hnone]
      rfl
  refine ⟨hi, rfl, t, hr, rfl, fun hsettles => ?_⟩
  obtain ⟨bound, hruns⟩ := hsettles
  obtain ⟨result, hresult⟩ := (hruns _ _ hr).2.1 hquiet
  cases hresult

end Lockstep.Measurement
