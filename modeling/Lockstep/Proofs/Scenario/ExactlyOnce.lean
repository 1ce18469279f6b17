import Lockstep.Proofs.Inbox
import Lockstep.Proofs.Scenario.Outcomes

/-!
# What a scenario that succeeds says about the deliveries

`Run.handedTo` lists what is handed to the handler of a participant in a run, from its registration
until it has verified. If the scenario succeeds, on whatever medium and whenever time-outs expire,
then the first of these messages, as many as are expected, are the expected ones, each once
(`first_deliveries_of_ok`). What comes after them finds no room and is not noticed
(`surplus_unnoticed`).

`Received` carries the proof: what the server has been handed, its queue and its verifier fit
together at every stage.
-/

set_option autoImplicit false

namespace Lockstep.Scenario

open Medium Barrier History

/-- The participant has asked for its registration and has not verified yet. -/
def Stage.isOpen : Stage → Bool
  | .entering | .arrive _ | .blocked _ _ | .send _ | .sending _ | .verify _ => true
  | _ => false

namespace Run

variable {S I : Type}

/-- What a step hands to the handler of `p`, if it is open. -/
def handedBy (M : Medium S I) (p : Nat) (r : Run S) (a : Label I) : List Payload :=
  if r.participants[p]?.any (·.stage.isOpen) then (handed? M r p a).toList else []

/-- What the handler of `p` is handed in a run. -/
def handedTo (M : Medium S I) (p : Nat) : Run S → List (Label I) → List Payload
  | _, [] => []
  | r, a :: as => handedBy M p r a ++
      match step M r a with
      | some t => handedTo M p t as
      | none => []

end Run

/-- The first messages, as many as are expected, are the expected ones. -/
def Exact (c : Config) (handed : List Payload) : Prop :=
  (handed.take c.expected.length).Perm (c.expected.map Message.bytes)

/-- How the messages that a server was handed, its queue and its verifier fit together. -/
inductive Received (c : Config) (h : History ParticipantError) (p : Nat) (handed : List Payload)
    (x : Participant) : Stage → Prop
  | enter : handed = [] → Received c h p handed x .enter
  | waits {stage} : stage.isOpen = true → (∀ v, stage ≠ .verify v) → c.wanted = c.expected.length →
      Inbox.Holds c.wanted handed 0 x.inbox → Received c h p handed x stage
  | verify {v k} : v.wanted + k = c.wanted → c.wanted = c.expected.length →
      Inbox.Holds c.wanted handed k x.inbox →
      v.seen = ((handed.take k).map Utf8.decodeLossy).reverse →
      Received c h p handed x (.verify v)
  | depart {error verified} : (error = none → Exact c handed) →
      Received c h p handed x (.depart error verified)
  | departing {error} : (error = none → Exact c handed) →
      Received c h p handed x (.departing error)
  | finish {error} : (error = none → Exact c handed) → Received c h p handed x (.finish error)
  | ended : (.exited p none ∈ h → Exact c handed) → Received c h p handed x .ended
  | dead : Received c h p handed x .dead

variable {S I : Type} {M : Medium S I} {c : Config} {h es : History ParticipantError} {p j n : Nat}
  {handed : List Payload} {x x' : Participant} {r t : Run S} {a : Run.Label I}
  {as : List (Run.Label I)} {s : S} {stage : Stage}

/-! ## The turns of a server -/

theorem wanted_eq_length {inbox : Inbox Payload} (hinbox : Run.serverInbox c = .ok inbox) :
    c.wanted = c.expected.length := by
  cases hN : c.expectedDeliveries with
  | error fault =>
    rw [Run.serverInbox, hN] at hinbox
    cases hinbox
  | ok N =>
    rw [Config.wanted, hN]
    exact (length_eq_of_expectedDeliveries hN).symm

theorem handedBy_eq (hx : r.participants[p]? = some x) :
    Run.handedBy M p r a = if x.stage.isOpen then (Run.handed? M r p a).toList else [] := by
  rw [Run.handedBy, hx]
  rfl

theorem append_handedBy (hnone : Run.handed? M r p a = none) :
    handed ++ Run.handedBy M p r a = handed := by
  rw [Run.handedBy, hnone, Option.toList_none, ite_self, List.append_nil]

section
variable (hrec : Received c h p handed x x.stage)
include hrec

/-- The queue of a server that waits is what it was handed. -/
theorem Received.of_waits (hopen : x.stage.isOpen = true) (hverify : ∀ v, x.stage ≠ .verify v) :
    c.wanted = c.expected.length ∧ Inbox.Holds c.wanted handed 0 x.inbox := by
  generalize x.stage = stage at hrec hopen hverify
  cases hrec with
  | waits _ _ hwanted hholds => exact ⟨hwanted, hholds⟩
  | @verify v => exact absurd rfl (hverify v)
  | enter | depart | departing | finish | ended | dead => cases hopen

theorem Received.ask {q : Request} (hparty : x.party = .server j) (ha : Asks c x q x') :
    Received c h p handed x' x'.stage := by
  cases ha with
  | connect hclient =>
    rw [hparty] at hclient
    cases hclient
  | register _ hstage hinbox =>
    rw [hstage] at hrec
    cases hrec with
    | enter hnil =>
      subst hnil
      obtain rfl := eq_of_serverInbox hinbox
      exact .waits rfl nofun (wanted_eq_length hinbox) (Inbox.holds_empty _)
    | waits hopen => cases hopen
  | broadcast hstage =>
    obtain ⟨hwanted, hholds⟩ := hrec.of_waits (by rw [hstage]; rfl) (by simp [hstage])
    exact .waits rfl nofun hwanted hholds
  | depart hstage =>
    rw [hstage] at hrec
    cases hrec with
    | depart hexact => exact .departing hexact
    | waits hopen => cases hopen

theorem Received.hear {reply : Reply} (hparty : x.party = .server j) (hh : Hears x reply x') :
    Received c h p handed x' x'.stage := by
  cases hh with
  | entered hstage | sent hstage =>
    obtain ⟨hwanted, hholds⟩ := hrec.of_waits (by rw [hstage]; rfl) (by simp [hstage])
    exact .waits rfl nofun hwanted hholds
  | refused => exact .finish nofun
  | notSent =>
    rw [hparty]
    exact .depart nofun
  | departed hstage =>
    rw [hstage] at hrec
    cases hrec with
    | departing hexact => exact .finish hexact
    | waits hopen => cases hopen
  | died => exact .dead

omit hrec in
theorem Received.ofVerdict {verdict : Except ParticipantError Unit}
    (hexact : verdict = .ok () → Exact c handed) (inbox : Inbox Payload) :
    Received c h p handed { x with inbox, stage := .ofVerdict verdict } (.ofVerdict verdict) := by
  cases verdict with
  | ok => exact .depart fun _ => hexact rfl
  | error => exact .depart nofun

theorem Received.work (hparty : x.party = .server j) (hconfig : r.config = c)
    (hw : Works r x x') : Received c h p handed x' x'.stage := by
  subst hconfig
  cases hw with
  | noRoom => exact .dead
  | @resume first reached hstage =>
    obtain ⟨hwanted, hholds⟩ := hrec.of_waits (by rw [hstage]; rfl) (by simp [hstage])
    cases first with
    | true => exact .waits rfl nofun hwanted hholds
    | false =>
      rw [hparty]
      exact .verify (k := 0) rfl hwanted hholds rfl
  | sentAll hstage =>
    obtain ⟨hwanted, hholds⟩ := hrec.of_waits (by rw [hstage]; rfl) (by simp [hstage])
    exact .waits rfl nofun hwanted hholds
  | conclude hstage hzero =>
    rw [hstage] at hrec
    cases hrec with
    | @verify v k hsum hwanted hholds hseen =>
      have hk : k = r.config.wanted := by omega
      refine .ofVerdict (fun hok => ?_) _
      have hlength : (handed.take k).length = r.config.expected.length := by
        rw [List.length_take_of_le hholds.received, hk, hwanted]
      have hperm := Verifier.perm_of_conclude hlength hseen hok
      rwa [hk, hwanted] at hperm
    | waits _ hverify => exact absurd rfl (hverify _)
  | accept hstage hne hm ha =>
    rw [hstage] at hrec
    cases hrec with
    | @verify v k hsum hwanted hholds hseen =>
      have hlt : k < r.config.wanted := by omega
      have hget := hholds.getElem?_of_receive hlt hm
      obtain rfl := Verifier.eq_of_accept ha
      refine .verify ?_ hwanted (hholds.receive hlt hm) ?_
      · simp only
        omega
      · rw [List.take_add_one, hget, hseen]
        simp
    | waits _ hverify => exact absurd rfl (hverify _)
  | reject => exact .depart nofun

omit hrec in
theorem Received.offer (hrec : Received c h p handed x stage) (m : Payload) :
    Received c h p (handed ++ if stage.isOpen then [m] else [])
      { x with inbox := x.inbox.offer m } stage := by
  cases hrec with
  | enter hnil =>
    subst hnil
    exact .enter rfl
  | waits hopen hverify hwanted hholds =>
    rw [if_pos hopen]
    exact .waits hopen hverify hwanted (hholds.offer m)
  | verify hsum hwanted hholds hseen =>
    refine .verify hsum hwanted (hholds.offer m) ?_
    rw [List.take_append_of_le_length hholds.received]
    exact hseen
  | depart hexact => exact .depart (by simpa [Stage.isOpen] using hexact)
  | departing hexact => exact .departing (by simpa [Stage.isOpen] using hexact)
  | finish hexact => exact .finish (by simpa [Stage.isOpen] using hexact)
  | ended hexact => exact .ended (by simpa [Stage.isOpen] using hexact)
  | dead => exact .dead

omit hrec in
theorem Received.rest (hrec : Received c h p handed x stage)
    (hes : ∀ e ∈ es, e.participant? ≠ some p) : Received c (es ++ h) p handed x stage := by
  cases hrec with
  | enter hnil => exact .enter hnil
  | waits hopen hverify hwanted hholds => exact .waits hopen hverify hwanted hholds
  | verify hsum hwanted hholds hseen => exact .verify hsum hwanted hholds hseen
  | depart hexact => exact .depart hexact
  | departing hexact => exact .departing hexact
  | finish hexact => exact .finish hexact
  | ended hexact => exact .ended fun hm => hexact ((exited_mem_append_of_ne hes).1 hm)
  | dead => exact .dead

/-- Each turn of a server keeps what it was handed together with its queue and its verifier. -/
theorem Received.turn (hparty : x.party = .server j) (hconfig : r.config = c)
    (hf : Fits h p x.stage) (hx : r.participants[p]? = some x)
    (hturn : Run.Turn M r p x a es x' s) :
    Received c (es ++ h) p (handed ++ Run.handedBy M p r a) x' x'.stage := by
  cases hturn with
  | ask ha =>
    rw [append_handedBy rfl]
    exact hrec.ask hparty (hconfig ▸ ha)
  | hear _ hh =>
    rw [append_handedBy rfl]
    exact hrec.hear hparty hh
  | work hw =>
    rw [append_handedBy rfl]
    exact hrec.work hparty hconfig hw
  | sync hstage =>
    rw [append_handedBy rfl]
    obtain ⟨hwanted, hholds⟩ := hrec.of_waits (by rw [hstage]; rfl) (by simp [hstage])
    exact .waits rfl nofun hwanted hholds
  | refused =>
    rw [append_handedBy rfl, hparty]
    exact .depart nofun
  | @exit error b hstage =>
    rw [append_handedBy rfl]
    rw [hstage] at hrec hf
    cases hrec with
    | finish hexact =>
      refine .ended fun hm => ?_
      rcases List.mem_cons.1 hm with heq | hm
      · cases heq
        exact hexact rfl
      · exact absurd ⟨_, hm⟩ (hf.of_going rfl).1
    | waits hopen => cases hopen
  | miss =>
    rw [append_handedBy rfl]
    exact .depart nofun
  | @handed i medium m hs =>
    have hm : Run.handed? M r p (.medium i) = some m := by simp [Run.handed?, hs]
    rw [handedBy_eq hx, hm]
    exact hrec.offer m
  | rest hes _ hnone =>
    rw [append_handedBy hnone]
    exact hrec.rest hes

end

/-! ## Runs -/

theorem received_of_run {x : Participant} (hparty : x.party = .server j)
    (hrun : (Run.hastyMachine M).Run r as t) (hconfig : r.config = c) (ht : Run.Tracked n h r)
    (hx : r.participants[p]? = some x) (hrec : Received c h p handed x x.stage) :
    ∃ h' x', Run.Tracked n h' t ∧ t.participants[p]? = some x' ∧
      Received c h' p (handed ++ Run.handedTo M p r as) x' x'.stage := by
  induction hrun generalizing h x handed with
  | nil r =>
    rw [Run.handedTo, List.append_nil]
    exact ⟨h, x, ht, hx, hrec⟩
  | @cons r s t a as hnext hrun ih =>
    have hstep : Run.step M r a = some s := hnext.2
    obtain ⟨es, he⟩ := Run.effect_of_step hstep
    obtain ⟨x', hx', hturn⟩ := he.turn hx
    rw [Run.handedTo, hstep, ← List.append_assoc]
    exact ih (hturn.party_eq.trans hparty) (he.config_eq.trans hconfig) (ht.step he) hx'
      (hrec.turn hparty hconfig (ht.fits p x hx) hx hturn)

theorem party_eq_server (hj : j < c.servers) :
    (Run.parties c)[c.clients + j]? = some { party := .server j } := by
  simp [Run.parties, hj]

/-- **The first deliveries of a scenario that succeeds are the expected ones.** -/
theorem first_deliveries_of_ok {medium : S} {waiting : Waiting} (hj : j < c.servers)
    (hrun : (Run.hastyMachine M).Run (Run.begin c medium waiting) as t)
    (hok : t.result? = some (.ok ())) :
    let handed := Run.handedTo M (c.clients + j) (Run.begin c medium waiting) as
    (handed.take c.expected.length).Perm (c.expected.map Message.bytes) ∧
      (handed.Perm (c.expected.map Message.bytes) ↔ handed.length ≤ c.expected.length) := by
  intro handed
  have hx := party_eq_server hj
  obtain ⟨h, x, ht, hx, hrec⟩ :=
    received_of_run rfl hrun rfl (Run.tracked_begin c medium waiting) hx (.enter rfl)
  obtain ⟨hstage, hexited⟩ := ht.exited_of_ok hok hx
  rw [hstage, List.nil_append] at hrec
  have hexact : Exact c handed := by
    cases hrec with
    | ended hexact => exact hexact hexited
    | waits hopen => cases hopen
  refine ⟨hexact, fun hperm => ?_, fun hle => ?_⟩
  · rw [hperm.length_eq, List.length_map]
  · rwa [Exact, List.take_of_length_le hle] at hexact

theorem run_of_foldlM (h : as.foldlM (Run.step M) r = some t) :
    (Run.hastyMachine M).Run r as t :=
  Machine.run_of_foldlM (fun _ _ => rfl) h

/-- A medium that hands these messages to each server. -/
def handing (handed : List Payload) : Scripted where
  behaviour := {
    connect := fun _ => .succeeds
    register := fun _ => .succeeds
    broadcast := fun _ _ => .succeeds
    unregister := fun _ => .succeeds
    handed := fun _ => handed }

/-- The client and the server have two messages each. The server is handed the four of them in another
order, and then one of them again. -/
theorem first_delivery_of_ok :
    let c : Config := { clients := 1, servers := 1, messages := 2 }
    let m (party : Party) (i : Nat) := Message.bytes ⟨party, i⟩
    let messages := [m (.server 0) 1, m (.client 0) 0, m (.server 0) 0, m (.client 0) 1]
    let start := Run.begin c (handing (messages ++ [m (.client 0) 0])) (.timed (.still .zero))
    ∃ as t, (Run.hastyMachine scripted).Run start as t ∧ t.result? = some (.ok ()) ∧
      let handed := Run.handedTo scripted 1 start as
      handed = messages ++ [m (.client 0) 0] ∧
        messages.Perm (c.expected.map Message.bytes) ∧
        ¬ handed.Perm (c.expected.map Message.bytes) := by
  intro c m messages start
  let as : List (Run.Label Nat) := List.flatten [
    -- both get in and arrive
    [.conduct], .replicate 3 (.participant 0), .replicate 3 (.participant 1), [.conduct, .conduct],
    -- both broadcast, and the server is handed its messages meanwhile
    .replicate 7 (.participant 0), .replicate 2 (.participant 1), .replicate 5 (.medium 1),
    .replicate 5 (.participant 1), [.conduct, .conduct],
    -- the client closes its connection, the server receives, verifies and unregisters
    .replicate 4 (.participant 0), .replicate 9 (.participant 1), .replicate 3 .conduct]
  have hok : (as.foldlM (Run.step scripted) start).bind (·.result?) = some (.ok ()) := by
    decide +kernel
  have hhanded : Run.handedTo scripted 1 start as = messages ++ [m (.client 0) 0] := by
    decide +kernel
  obtain ⟨t, hrun, hok⟩ := Option.bind_eq_some_iff.1 hok
  have hrun := run_of_foldlM hrun
  obtain ⟨hfirst, hall⟩ := first_deliveries_of_ok (j := 0) Nat.one_pos hrun hok
  refine ⟨as, t, hrun, hok, hhanded, ?_, fun hperm => ?_⟩
  · rw [show Run.handedTo scripted (c.clients + 0) start as = _ from hhanded] at hfirst
    exact hfirst
  · have hle := hall.1 hperm
    rw [show Run.handedTo scripted (c.clients + 0) start as = _ from hhanded] at hle
    exact absurd hle (by decide)

/-- The steps of a scenario of one server with one message, `k` messages being handed to it. -/
def oneServerSteps (k : Nat) : List (Run.Label Nat) := List.flatten [
  -- it registers, arrives and broadcasts
  [.conduct], .replicate 3 (.participant 0), [.conduct, .conduct], .replicate 2 (.participant 0),
  .replicate k (.medium 0),
  -- it hears of the broadcast, arrives, receives and verifies
  .replicate 3 (.participant 0), [.conduct, .conduct], .replicate 3 (.participant 0),
  -- it unregisters and leaves
  .replicate 3 (.participant 0), .replicate 3 .conduct]

/-- A server that is handed its message twice before it verifies succeeds. -/
theorem surplus_unnoticed :
    let c : Config := { clients := 0, servers := 1, messages := 1 }
    let m := Message.bytes ⟨.server 0, 0⟩
    let waiting := Waiting.timed (.still .zero)
    let start := Run.begin c (handing [m, m]) waiting
    let handed := Run.handedTo scripted 0 start (oneServerSteps 2)
    c.validate = .ok () ∧ c.expectedDeliveries = .ok 1 ∧
      Run.start c (handing [m, m]) waiting = .ok (.running start) ∧
      (∃ t, (Run.hastyMachine scripted).Run start (oneServerSteps 2) t ∧
        t.result? = some (.ok ())) ∧
      ¬ handed.Perm (c.expected.map Message.bytes) := by
  intro c m waiting start handed
  have hvalid : c.validate = .ok () := by decide
  have hok : ((oneServerSteps 2).foldlM (Run.step scripted) start).bind (·.result?) =
      some (.ok ()) := by decide +kernel
  obtain ⟨t, hrun, hok⟩ := Option.bind_eq_some_iff.1 hok
  refine ⟨hvalid, by decide, Run.start_eq_begin hvalid (by decide) (by decide) _,
    ⟨t, run_of_foldlM hrun, hok⟩, fun hperm => ?_⟩
  have hlength : handed.length = 2 := by decide +kernel
  have hone := hperm.length_eq
  rw [hlength, List.length_map, length_expected] at hone
  cases hone

end Lockstep.Scenario
