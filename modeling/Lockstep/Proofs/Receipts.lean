import Lockstep.Measurement.Copies
import Lockstep.Proofs.Measurement.Steps
import Lockstep.Proofs.Runs
import Lockstep.Proofs.Scenario.ExactlyOnce
import Lockstep.Proofs.Unbounded

/-!
# What the readers of the deliveries receive

The servers of a scenario and the services of the two measurements hold their deliveries in bounded
queues, and each has one reader. None of them asks for more messages than its queue has places. So on
every medium, and whatever time-outs expire, a receive yields the next of all messages that were handed
to the handler, if there is a next, as if the queue had no bound.

For a server this is read off `Received`. `Latency.Fed` and `Throughput.Fed` say the same of the
measurements, stage by stage.
-/

set_option autoImplicit false

namespace Lockstep

open Medium

variable {S I : Type} {M : Medium S I} {messages n k : Nat} {given : List Payload}

/-- What a step of the medium hands over. -/
def Medium.handed (M : Medium S I) (medium : S) (i : I) : List Payload :=
  (((M.step medium i).bind (·.2)).map (·.m)).toList

theorem handed_of_step {medium medium' : S} {i : I} {handover : Option Handover}
    (hs : M.step medium i = some (medium', handover)) :
    M.handed medium i = (handover.map (·.m)).toList := by
  rw [Medium.handed, hs]
  rfl

/-- A measurement has an inbox for all its messages. -/
theorem holds_of_probeInbox {inbox : Inbox Payload} (hinbox : probeInbox messages = .ok inbox) :
    inbox.Holds (max messages 1) [] 0 := by
  obtain ⟨-, rfl⟩ := Inbox.ofCapacity_eq_ok_iff.1 hinbox
  exact Inbox.holds_empty _

/-! ## Latency -/

namespace Latency

variable {s t : State S} {a : Label I} {as : List (Label I)} {ok : State S → Label I → Prop}

/-- What a step hands to the service, which does not exist before it is registered. -/
def handedBy (M : Medium S I) (s : State S) (a : Label I) : List Payload :=
  match s.stage, a with
  | .register, _ => []
  | _, .medium i => M.handed s.medium i
  | _, _ => []

/-- What the service is handed in a run. -/
def handed (M : Medium S I) (messages : Nat) : State S → List (Label I) → List Payload :=
  (machine M messages).gather (handedBy M)

/-- How many of the messages that the service was handed are received. -/
def Fed (messages : Nat) (s : State S) (given : List Payload) : Prop :=
  match s.stage with
  | .register => given = []
  | .registering => s.inbox.Holds (max messages 1) given 0
  | .send i => s.inbox.Holds (max messages 1) given i
  | .sending i | .receive i => i < messages ∧ s.inbox.Holds (max messages 1) given i
  | .stop _ | .stopping _ | .over _ | .faulted _ | .dead => True

theorem Fed.pass {i : I} {medium : S} {handover : Option Handover} (hfed : Fed messages s given)
    (hs : M.step s.medium i = some (medium, handover)) :
    Fed messages { s with medium, inbox := s.inbox.put handover }
      (given ++ handedBy M s (.medium i)) := by
  have hhanded := handed_of_step hs
  simp only [Fed, handedBy] at hfed ⊢
  cases hstage : s.stage with
  | register => simpa [hstage] using hfed
  | registering | send =>
    simp only [hstage] at hfed ⊢
    rw [hhanded]
    exact hfed.put handover
  | sending | receive =>
    simp only [hstage] at hfed ⊢
    rw [hhanded]
    exact ⟨hfed.1, hfed.2.put handover⟩
  | stop | stopping | «over» | faulted | dead => trivial

theorem Fed.step (hfed : Fed messages s given) (he : Effect M messages s a t) :
    Fed messages t (given ++ handedBy M s a) := by
  cases he with
  | pass hs => exact hfed.pass hs
  | register hstage hinbox =>
    obtain rfl : given = [] := by simpa [Fed, hstage] using hfed
    simpa [Fed, handedBy, hstage, ask] using holds_of_probeInbox hinbox
  | registered hstage | sent hstage =>
    simpa [Fed, handedBy, hstage] using hfed
  | @send i hstage hlt =>
    have hholds : s.inbox.Holds (max messages 1) given i := by simpa [Fed, hstage] using hfed
    simpa [Fed, handedBy, hstage, ask] using And.intro hlt hholds
  | @receive i m inbox hstage hr =>
    obtain ⟨hlt, hholds⟩ : i < messages ∧ s.inbox.Holds (max messages 1) given i := by
      simpa [Fed, hstage] using hfed
    have hroom : i < max messages 1 := Nat.lt_of_lt_of_le hlt (Nat.le_max_left messages 1)
    simpa [Fed, handedBy, hstage] using hholds.receive hroom hr
  | noRoom | refused | allSent | notSent | died | expire | stop | returned => trivial

/-- A receive yields the next of the messages that the service was handed. -/
theorem receive?_eq_handed {medium : S} {i : Nat}
    (hr : (machine M messages).RunWhere ok (start medium) as t) (hstage : t.stage = .receive i) :
    i < messages ∧
      t.inbox.receive?.map (·.1) = (handed M messages (start medium) as)[i]? := by
  have hfed : Fed messages t ([] ++ handed M messages (start medium) as) :=
    hr.gather (P := fun s given => Fed messages s given) rfl fun s a t given hs hstep =>
      hs.step (effect_of_step hstep)
  rw [List.nil_append] at hfed
  obtain ⟨hlt, hholds⟩ : i < messages ∧
      t.inbox.Holds (max messages 1) (handed M messages (start medium) as) i := by
    simpa [Fed, hstage] using hfed
  exact ⟨hlt, hholds.receive?_eq (Nat.lt_of_lt_of_le hlt (Nat.le_max_left messages 1))⟩

end Latency

/-! ## Throughput -/

namespace Throughput

variable {s t : State S} {a : Label I} {as : List (Label I)} {ok : State S → Label I → Prop}

/-- What a step hands to the service, which does not exist before it is registered. -/
def handedBy (M : Medium S I) (s : State S) (a : Label I) : List Payload :=
  match s.stage, a with
  | .register, _ => []
  | _, .medium i => M.handed s.medium i
  | _, _ => []

/-- What the service is handed in a run. -/
def handed (M : Medium S I) (messages : Nat) : State S → List (Label I) → List Payload :=
  (machine M messages).gather (handedBy M)

/-- How many of the messages that the service was handed are received. -/
def Fed (messages : Nat) (s : State S) (given : List Payload) : Prop :=
  match s.stage with
  | .register => given = []
  | .registering | .schedule _ => s.inbox.Holds (max messages 1) given 0
  | .receive r => s.inbox.Holds (max messages 1) given r
  | .abandoned _ | .terminating _ | .stop _ | .stopping _ | .over _ | .faulted _ | .dead => True

theorem Fed.pass {i : I} {medium : S} {handover : Option Handover} (hfed : Fed messages s given)
    (hs : M.step s.medium i = some (medium, handover)) :
    Fed messages { s with medium, inbox := s.inbox.put handover }
      (given ++ handedBy M s (.medium i)) := by
  have hhanded := handed_of_step hs
  simp only [Fed, handedBy] at hfed ⊢
  cases hstage : s.stage with
  | register => simpa [hstage] using hfed
  | registering | schedule | receive =>
    simp only [hstage] at hfed ⊢
    rw [hhanded]
    exact hfed.put handover
  | abandoned | terminating | stop | stopping | «over» | faulted | dead => trivial

theorem handedBy_eq_nil (ha : ∀ i, a ≠ .medium i) : handedBy M s a = [] := by
  unfold handedBy
  split
  · rfl
  · exact absurd rfl (ha _)
  · rfl

/-- The pool has nothing to do with the inbox. -/
theorem Fed.order {l : Pool.Label Nat} {next : Stage} (hfed : Fed messages s given)
    (ho : Orders messages s a l next) (pool : Pool Nat) :
    Fed messages { s with pool, stage := next } (given ++ handedBy M s a) := by
  have hnil : handedBy M s a = [] := handedBy_eq_nil fun i h => by cases ho <;> cases h
  rw [hnil, List.append_nil]
  cases ho with
  | schedule hstage | start hstage => simpa [Fed, hstage] using hfed
  | startShort | enough | expire | abandon | close | «return» => trivial

theorem Fed.step (hfed : Fed messages s given) (he : Effect M messages s a t) :
    Fed messages t (given ++ handedBy M s a) := by
  cases he with
  | pass hs => exact hfed.pass hs
  | order ho => exact hfed.order ho _
  | register hstage hinbox =>
    obtain rfl : given = [] := by simpa [Fed, hstage] using hfed
    simpa [Fed, handedBy, hstage, ask] using holds_of_probeInbox hinbox
  | registered hstage => simpa [Fed, handedBy, hstage] using hfed
  | @receive r m inbox hstage hlt hr =>
    have hholds : s.inbox.Holds (max messages 1) given r := by simpa [Fed, hstage] using hfed
    have hroom : r < max messages 1 := Nat.lt_of_lt_of_le hlt (Nat.le_max_left messages 1)
    simpa [Fed, handedBy, hstage] using hholds.receive hroom hr
  | turn | broadcast | finish =>
    rw [handedBy_eq_nil (fun i h => by cases h), List.append_nil]
    exact hfed
  | noRoom | refused | died | stop | returned => trivial

theorem receive?_eq_handed {threads : Nat} {medium : S} {r : Nat}
    (hr : (machine M messages).RunWhere ok (start threads medium) as t)
    (hstage : t.stage = .receive r) (hlt : r < messages) :
    t.inbox.receive?.map (·.1) = (handed M messages (start threads medium) as)[r]? := by
  have hfed : Fed messages t ([] ++ handed M messages (start threads medium) as) :=
    hr.gather (P := fun s given => Fed messages s given) rfl fun s a t given hs hstep =>
      hs.step (effect_of_step hstep)
  rw [List.nil_append] at hfed
  have hholds : t.inbox.Holds (max messages 1) (handed M messages (start threads medium) as) r := by
    simpa [Fed, hstage] using hfed
  exact hholds.receive?_eq (Nat.lt_of_lt_of_le hlt (Nat.le_max_left messages 1))

end Throughput

/-! ## Scenarios -/

namespace Scenario

variable {c : Config} {t : Run S} {as : List (Run.Label I)} {x : Participant} {v : Verifier}
  {j : Nat}

/-- A server that verifies has received the first of the messages that it was handed, and receives the
next. -/
theorem verifier_of_run {medium : S} {waiting : Waiting} (hj : j < c.servers)
    (hrun : (Run.hastyMachine M).Run (Run.begin c medium waiting) as t)
    (hx : t.participants[c.clients + j]? = some x) (hstage : x.stage = .verify v) :
    let given := Run.handedTo M (c.clients + j) (Run.begin c medium waiting) as
    ∃ k, v.wanted + k = c.expected.length ∧
      v.seen = ((given.take k).map Utf8.decodeLossy).reverse ∧ k ≤ given.length ∧
      (v.wanted ≠ 0 → x.inbox.receive?.map (·.1) = given[k]?) := by
  intro given
  obtain ⟨h, x', ht, hx', hrec⟩ :=
    received_of_run rfl hrun rfl (Run.tracked_begin c medium waiting) (party_eq_server hj)
      (.enter rfl)
  obtain rfl := Option.some.inj (hx.symm.trans hx')
  rw [hstage, List.nil_append] at hrec
  cases hrec with
  | waits _ hverify => exact absurd rfl (hverify v)
  | @verify v k hsum hwanted hholds hseen =>
    refine ⟨k, hsum.trans hwanted, hseen, hholds.received, fun hne => ?_⟩
    exact hholds.receive?_eq (by omega)

end Scenario

/-! ## All readers -/

open Scenario (Config Run Participant Verifier Stage Waiting)

/-- **No delivery is lost that its reader asks for.** Whatever way those who offer messages and the one
who receives them interleave, a reader that asks for no more messages than the queue has places cannot
tell it from a queue without a bound. Such readers are the servers of a scenario and the services of
the measurements: on every medium each receive yields the next of all messages that were handed to the
handler, if there is a next, and so would one from a queue without a bound. -/
theorem no_delivery_lost :
    (∀ (α : Type) (n : Nat) (us : List (Use α)), Use.attempts us ≤ n → Lossless n us) ∧
    (∀ (α : Type) (given : List α) k, (Channel.unbounded.receive? (Channel.unbounded.after {}
      (given.map .offer ++ .replicate k .receive))).map (·.1) = given[k]?) ∧
    ∀ (S I : Type) (M : Medium S I) (medium : S),
      (∀ (c : Config) (waiting : Waiting) j as t x v, j < c.servers →
        (Run.hastyMachine M).Run (Run.begin c medium waiting) as t →
        t.participants[c.clients + j]? = some x → x.stage = .verify v →
        let given := Run.handedTo M (c.clients + j) (Run.begin c medium waiting) as
        ∃ k, v.wanted + k = c.expected.length ∧
          v.seen = ((given.take k).map Utf8.decodeLossy).reverse ∧ k ≤ given.length ∧
          (v.wanted ≠ 0 → x.inbox.receive?.map (·.1) = given[k]?)) ∧
      (∀ messages ok as t i,
        (Latency.machine M messages).RunWhere ok (Latency.start medium) as t →
        t.stage = .receive i →
        i < messages ∧ t.inbox.receive?.map (·.1) =
          (Latency.handed M messages (Latency.start medium) as)[i]?) ∧
      ∀ messages threads ok as t r,
        (Throughput.machine M messages).RunWhere ok (Throughput.start threads medium) as t →
        t.stage = .receive r → r < messages →
        t.inbox.receive?.map (·.1) =
          (Throughput.handed M messages (Throughput.start threads medium) as)[r]? := by
  refine ⟨fun α n us hle => lossless hle, fun α given k => next_of_unbounded given k,
    fun S I M medium => ⟨?_, ?_, ?_⟩⟩
  · intro c waiting j as t x v hj hrun hx hstage
    exact Scenario.verifier_of_run hj hrun hx hstage
  · intro messages ok as t i hr hstage
    exact Latency.receive?_eq_handed hr hstage
  · intro messages threads ok as t r hr hstage hlt
    exact Throughput.receive?_eq_handed hr hstage hlt

/-- Each reader asks for fewer messages than are offered: for two of three, and in the programs for one
of three. -/
theorem surplus_out_of_sight :
    let us : List (Use Nat) := [.offer 1, .offer 2, .offer 3, .receive, .receive]
    let c : Config := { clients := 0, servers := 1, messages := 1 }
    let m := Scenario.Message.bytes ⟨.server 0, 0⟩
    let run := Run.begin c (Scenario.handing [m, m, m]) (.timed (.still .zero))
    let copies : Copies := { registration := .ok 0, copies := [.delivered 3] }
    let latency := Latency.start copies
    let throughput := Throughput.start 1 copies
    (Use.attempts us ≤ 2 ∧ Lossless 2 us ∧
      Channel.bounded.answers { room := 2 } us = [some 1, some 2]) ∧
    (∃ as t x, 0 < c.servers ∧ (Run.hastyMachine Scenario.scripted).Run run as t ∧
      t.participants[c.clients + 0]? = some x ∧ x.stage = .verify { wanted := 1 } ∧
      Run.handedTo Scenario.scripted (c.clients + 0) run as = [m, m, m] ∧
      x.inbox.receive?.map (·.1) = some m) ∧
    (∃ as t, (Latency.machine Copies.medium 1).RunWhere (fun _ _ => True) latency as t ∧
      t.stage = .receive 0 ∧
      Latency.handed Copies.medium 1 latency as = [probe 0, probe 0, probe 0] ∧
      t.inbox.receive?.map (·.1) = some (probe 0)) ∧
    ∃ as t, (Throughput.machine Copies.medium 1).RunWhere (fun _ _ => True) throughput as t ∧
      t.stage = .receive 0 ∧
      Throughput.handed Copies.medium 1 throughput as = [probe 0, probe 0, probe 0] ∧
      t.inbox.receive?.map (·.1) = some (probe 0) := by
  intro us c m run copies latency throughput
  have hle : Use.attempts us ≤ 2 := by decide
  refine ⟨⟨hle, no_delivery_lost.1 Nat 2 us hle, by decide⟩, ?_, ?_, ?_⟩
  · have hserver : 0 < c.servers := Nat.one_pos
    let as := (Scenario.oneServerSteps 3).take 17
    have hfound : (as.foldlM (Run.step Scenario.scripted) run).any (fun t =>
        t.participants[c.clients + 0]?.any (·.stage = .verify { wanted := 1 })) = true := by
      decide +kernel
    obtain ⟨t, ht, hfound⟩ := (Option.any_eq_true _ _).1 hfound
    obtain ⟨x, hx, hstage⟩ := (Option.any_eq_true _ _).1 hfound
    have hrun := Scenario.run_of_foldlM ht
    have hstage := of_decide_eq_true hstage
    have hhanded : Run.handedTo Scenario.scripted (c.clients + 0) run as = [m, m, m] := by
      decide +kernel
    obtain ⟨k, hsum, -, -, hreceive⟩ := (no_delivery_lost.2.2 _ _ Scenario.scripted _).1 c _ 0 as t x _
      hserver hrun hx hstage
    have hk : k = 0 := Nat.add_left_cancel hsum
    have hnext := hreceive Nat.one_ne_zero
    rw [hhanded, hk] at hnext
    exact ⟨as, t, x, hserver, hrun, hx, hstage, hhanded, hnext⟩
  · let as : List (Latency.Label Unit) :=
      [.main, .main, .main, .medium (), .medium (), .medium (), .main]
    obtain ⟨t, hrun, hstage⟩ : ∃ t, (Latency.machine Copies.medium 1).RunWhere (fun _ _ => True)
        latency as t ∧ t.stage = .receive 0 :=
      ⟨_, Machine.runWhere_of_foldlM (fun _ _ => trivial) rfl, rfl⟩
    have hhanded : Latency.handed Copies.medium 1 latency as = [probe 0, probe 0, probe 0] := by
      decide
    have hnext := ((no_delivery_lost.2.2 _ _ Copies.medium copies).2.1 1 _ as t 0 hrun hstage).2
    rw [hhanded] at hnext
    exact ⟨as, t, hrun, hstage, hhanded, hnext⟩
  · let as : List (Throughput.Label Unit) :=
      [.main, .main, .main, .main, .work 0, .work 0, .work 0, .medium (), .medium (), .medium ()]
    obtain ⟨t, hrun, hstage⟩ : ∃ t, (Throughput.machine Copies.medium 1).RunWhere (fun _ _ => True)
        throughput as t ∧ t.stage = .receive 0 :=
      ⟨_, Machine.runWhere_of_foldlM (fun _ _ => trivial) rfl, rfl⟩
    have hhanded : Throughput.handed Copies.medium 1 throughput as =
        [probe 0, probe 0, probe 0] := by decide
    have hnext := (no_delivery_lost.2.2 _ _ Copies.medium copies).2.2 1 1 _ as t 0 hrun hstage
      Nat.one_pos
    rw [hhanded] at hnext
    exact ⟨as, t, hrun, hstage, hhanded, hnext⟩

end Lockstep
