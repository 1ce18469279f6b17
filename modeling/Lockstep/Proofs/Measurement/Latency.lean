import Lockstep.Proofs.Measurement.Service

/-!
# Measuring latency on a relay

`Latency.Hosted` says that a measurement of latency is on a line that hosts its service: where it
stands, which errand it is on, and what it has said and received. Every step keeps it
(`Hosted.step`), time-outs included. A receive finds its message in the end (`Hosted.not_stuck`), so a
time-out is never due (`Begun.not_due`).
-/

set_option autoImplicit false

namespace Lockstep

open Medium
open Relay (Line Hosts Tenure Errand Apart Restored Handed)
open Scenario (Idle)

def isTimeout : Except MeasureError Nat → Bool
  | .error (.receiveTimeout _) => true
  | _ => false

/-- All messages of a measurement. -/
def probes (messages : Nat) : List Payload := (List.range messages).map probe

/-- What a measurement returns on a relay that is open or closed, with what the other members of the
cluster are handed. -/
inductive Measurement.Returns (cluster : String) (messages : Nat) (P : List Payload → Prop)
    (l₀ l : Line) : Except MeasureError Nat → Prop
  | ok : l₀.traffic.relay.closed = false → Handed cluster l₀ l P →
      Measurement.Returns cluster messages P l₀ l (.ok messages)
  | refused : l₀.traffic.relay.closed = true → Handed cluster l₀ l (· = []) →
      Measurement.Returns cluster messages P l₀ l (.error (.relay .relayClosed))

/-- The messages of a single caller are in their order. -/
theorem eq_of_filter_eq {l l' : List (Nat × Payload)} {k : Nat}
    (hall : ∀ j, l.filter (·.1 == j) = l'.filter (·.1 == j)) (hone : ∀ p ∈ l', p.1 = k) :
    l = l' := by
  have hone' : ∀ p ∈ l, p.1 = k := fun p hp => by
    have hm : p ∈ l.filter (·.1 == p.1) := List.mem_filter.2 ⟨hp, beq_self_eq_true _⟩
    rw [hall] at hm
    exact hone p (List.mem_filter.1 hm).1
  rw [← List.filter_eq_self.2 fun p hp => beq_iff_eq.2 (hone' p hp), hall k]
  exact List.filter_eq_self.2 fun p hp => beq_iff_eq.2 (hone p hp)

namespace Latency

variable {S I : Type} {M : Medium S I} {messages : Nat}

/-! ## Every run is finite -/

section
variable {s t : State S} {a : Label I} {μ : S → Nat} {k : Nat}

/-- The steps that the caller has before it. -/
def Stage.work (messages : Nat) : Stage → Nat
  | .register => 3 * messages + 5
  | .registering => 3 * messages + 4
  | .send i => 3 * (messages - i) + 3
  | .sending i => 3 * (messages - (i + 1)) + 5
  | .receive i => 3 * (messages - (i + 1)) + 4
  | .stop _ => 2
  | .stopping _ => 1
  | .over _ | .faulted _ | .dead => 0

/-- The steps that are left, the medium's included. -/
def budget (μ : S → Nat) (k messages : Nat) (s : State S) : Nat :=
  μ s.medium + (k + 1) * s.stage.work messages

/-- Each step is one less to take. -/
theorem budget_lt (hm : M.Measured μ k s.medium) (he : Effect M messages s a t) :
    budget μ k messages t < budget μ k messages s := by
  cases he with
  | noRoom hstage | allSent hstage | receive hstage | expire hstage =>
    refine Medium.sum_lt_of_lt (Nat.le_add_right _ _) ?_
    simp only [hstage, Stage.work]
    omega
  | register hstage | send hstage | stop hstage =>
    refine Medium.sum_lt_of_lt (hm.ask _ _) ?_
    simp only [Latency.ask, hstage, Stage.work]
    omega
  | registered hstage hr | refused hstage hr | sent hstage hr | notSent hstage hr
  | returned hstage hr =>
    refine Medium.sum_lt_of_lt (Nat.le_add_right_of_le (hm.reply _ _ _ hr)) ?_
    simp only [hstage, Stage.work]
    omega
  | died hstage hr =>
    refine Medium.sum_lt_of_lt (Nat.le_add_right_of_le (hm.reply _ _ _ hr)) ?_
    rcases hstage with hstage | ⟨i, hstage⟩ <;>
      · simp only [hstage, Stage.work]
        omega
  | pass hstep => exact Nat.add_lt_add_right (hm.step _ _ _ hstep) _

end

/-! ## Time-outs -/

/-- A receive does not time out while a message comes for it however the others go on. -/
abbrev Due (M : Medium S I) (messages : Nat) : State S → Label I → Prop :=
  (machine M messages).Due .expire State.stage

/-- The measurement has returned. -/
def Returned (s : State S) : Prop := ∃ result, result? s = .ok (some result)

theorem stage_of_result {s : State S} {result : Except MeasureError Nat}
    (hresult : result? s = .ok (some result)) : s.stage = .over result := by
  unfold result? at hresult
  cases hstage : s.stage with
  | «over» other =>
    rw [hstage] at hresult
    cases hresult
    rfl
  | _ =>
    rw [hstage] at hresult
    cases hresult

/-- A receive has timed out. -/
def Stage.isLate : Stage → Bool
  | .stop result | .stopping result | .over result => isTimeout result
  | _ => false

theorem late_of_effect {s t : State S} {a : Label I} (he : Effect M messages s a t)
    (hlate : t.stage.isLate = true) : s.stage.isLate = true ∨ a = .expire := by
  cases he with
  | expire => exact .inr rfl
  | stop hstage | returned hstage =>
    rw [hstage]
    exact .inl hlate
  | pass => exact .inl hlate
  | noRoom | register | registered | refused | send | allSent | sent | notSent | died | receive =>
    cases hlate

/-! ## The run that is performed -/

section
variable (hmoves : ∀ m i, i ∉ M.moves m → M.step m i = none)
include hmoves

/-- Where no label that waits for nothing is enabled, no label is but the time-out. -/
theorem ready_of_moves {s : State S} (hnone : ∀ a ∈ moves M s, Latency.step M messages s a = none) :
    (machine M messages).Ready s .expire := by
  intro a ha
  cases a with
  | expire => cases ha
  | main => exact hnone .main (by simp [moves])
  | medium i =>
    by_cases hi : i ∈ M.moves s.medium
    · exact hnone (.medium i) (by simp [moves, hi])
    · show mediumStep M s i = none
      rw [mediumStep, hmoves _ _ hi]
      rfl

theorem reaches_run (fuel : Nat) (m : S) :
    (machine M messages).Reaches (start m) (run M messages fuel m) := by
  refine Machine.reaches_drive_of_single (fun s a ha b => ?_) (fun s => ready_of_moves hmoves) fuel _
  have hne : a ≠ .expire := by
    rintro rfl
    simp [moves] at ha
  cases b <;> cases a <;> first | rfl | exact absurd rfl hne

theorem runWhere_due (fuel : Nat) (m : S) : ∃ as,
    (machine M messages).RunWhere (Due M messages) (start m) as (run M messages fuel m) := by
  obtain ⟨as, hr⟩ := reaches_run hmoves fuel m
  refine ⟨as, hr.runWhere_due fun a ha => ?_⟩
  cases a <;> first | rfl | exact absurd rfl ha

end

/-! ## The measurement on a line -/

/-- What the caller is about. -/
def Stage.errand? : Stage → Option Errand
  | .registering => some .joining
  | .sending _ => some .broadcasting
  | .stopping _ => some .leaving
  | _ => none

/-- Why the caller takes no step. -/
inductive Blocked (M : Medium S I) (s : State S) : Prop
  | over {result} : s.stage = .over result → Blocked M s
  | lost : (∃ f, s.stage = .faulted f) ∨ s.stage = .dead → Blocked M s
  | unanswered {e} : s.stage.errand? = some e → M.reply? s.medium 0 = none → Blocked M s
  | starved {i} : s.stage = .receive i → s.inbox.items.toList = [] → Blocked M s

theorem blocked_of_main {s : State S} (hmain : main M messages s = none) : Blocked M s := by
  unfold main at hmain
  cases hstage : s.stage with
  | «over» => exact .over hstage
  | faulted f => exact .lost (.inl ⟨f, hstage⟩)
  | dead => exact .lost (.inr hstage)
  | register | send =>
    simp only [hstage] at hmain
    split at hmain <;> cases hmain
  | stop result =>
    simp only [hstage] at hmain
    cases result <;> cases hmain
  | registering | sending | stopping =>
    cases hreply : M.reply? s.medium 0 with
    | none => exact .unanswered (by rw [hstage]; rfl) hreply
    | some found =>
      obtain ⟨r, m⟩ := found
      simp only [hstage, hreply] at hmain
      cases r <;> cases hmain
  | receive i =>
    cases hreceive : s.inbox.receive? with
    | none => exact .starved hstage (Inbox.receive?_eq_none_iff.1 hreceive)
    | some found =>
      simp only [hstage, hreceive] at hmain
      cases hmain

def errands (s : State S) : Nat → Option Errand
  | 0 => s.stage.errand?
  | _ + 1 => none

/-- The first `i` messages, as the caller broadcasts them. -/
def spoken (i : Nat) : List (Nat × Payload) := (probes i).map fun m => (0, m)

/-- What is returned where the service could be registered. -/
def Ends (messages : Nat) (said : List (Nat × Payload)) (result : Except MeasureError Nat) : Prop :=
  result = .ok messages ∧ said = spoken messages ∨ ∃ i, result = .error (.receiveTimeout i)

/-- The service `n` is a member, all that was said are the first `i` messages, and of those its
handler was given `j` are received. -/
structure Open (closed : Bool) (n messages : Nat) (tenure : Tenure) (said : List (Nat × Payload))
    (given : List Payload) (conn : Nat) (inbox : Inbox Payload) (i j : Nat) : Prop where
  isOpen : closed = false
  member : tenure = .member
  conn : conn = n
  said : said = spoken i
  holds : Inbox.Holds (max messages 1) given j inbox

/-- What is known where the caller stands, of a service `n` with this tenure. -/
def Fits (closed : Bool) (n messages : Nat) (tenure : Tenure) (said : List (Nat × Payload))
    (given : List Payload) (conn : Nat) (inbox : Inbox Payload) : Stage → Prop
  | .register => tenure = .absent ∧ said = []
  | .registering => said = [] ∧ Inbox.Holds (max messages 1) given 0 inbox
  | .send i => i ≤ messages ∧ Open closed n messages tenure said given conn inbox i i
  | .sending i | .receive i =>
    i < messages ∧ Open closed n messages tenure said given conn inbox (i + 1) i
  | .stop result => closed = false ∧ tenure = .member ∧ conn = n ∧ Ends messages said result
  | .stopping result => closed = false ∧ Ends messages said result
  | .over result =>
    closed = true ∧ tenure = .absent ∧ said = [] ∧ result = .error (.relay .relayClosed) ∨
      closed = false ∧ tenure = .gone ∧ Ends messages said result
  | .faulted _ | .dead => False

/-- The measurement is on a line that hosts its service. -/
structure Hosted (cluster : String) (l₀ : Line) (H₀ H : Relay.History) (tenure : Tenure)
    (said : List (Nat × Payload)) (messages : Nat) (s : State Line) : Prop where
  hosts : Hosts cluster l₀ H₀ H tenure (errands s) said s.medium
  fits : Fits l₀.traffic.relay.closed l₀.traffic.relay.nextId messages tenure said
    (s.medium.traffic.relay.given l₀.traffic.relay.nextId) s.conn s.inbox s.stage

variable {cluster : String} {l₀ : Line} {H₀ H : Relay.History} {tenure tenure' : Tenure}
  {said : List (Nat × Payload)} {s t : State Line} {a : Label Relay.Traffic.Label}
  {given : List Payload} {closed : Bool} {n conn i : Nat} {inbox : Inbox Payload} {stage : Stage}

theorem apart_errands (s : State S) : Apart (errands s) := by
  refine .inr fun k hk => ?_
  cases k with
  | zero => exact absurd rfl hk
  | succ => rfl

/-- Only the caller's own errand changes. -/
theorem update_errands (s t : State S) :
    Function.update (errands s) 0 t.stage.errand? = errands t := by
  funext k
  cases k with
  | zero => exact Function.update_self _ _ _
  | succ => exact Function.update_of_ne (Nat.succ_ne_zero _) _ _

theorem errands_congr {s t : State S} (hstage : t.stage.errand? = s.stage.errand?) :
    errands t = errands s := by
  funext k
  cases k with
  | zero => exact hstage
  | succ => rfl

theorem spoken_succ (i : Nat) : spoken (i + 1) = spoken i ++ [(0, probe i)] := by
  simp [spoken, probes, List.range_succ]

theorem hosted_start (hi : Idle H₀ l₀) (cluster : String) (messages : Nat) :
    Hosted cluster l₀ H₀ H₀ .absent [] messages (start l₀) where
  hosts := by
    have hnone : errands (start l₀) = fun _ => none := by
      funext k
      cases k <;> rfl
    rw [hnone]
    exact Relay.hosts_of_idle hi cluster
  fits := ⟨rfl, rfl⟩

/-- A step of the relay itself. -/
theorem Fits.pass (hfits : Fits closed n messages tenure said given conn inbox stage)
    (hsame : tenure' = tenure ∨ ∃ e, stage.errand? = some e ∧ e.changes = true)
    (handover : Option Handover) :
    Fits closed n messages tenure' said (given ++ (handover.map (·.m)).toList) conn
      (inbox.put handover) stage := by
  cases stage with
  | registering => exact ⟨hfits.1, hfits.2.put handover⟩
  | stopping | faulted | dead => exact hfits
  | register | stop | «over» =>
    obtain rfl := hsame.resolve_right (by rintro ⟨e, h, -⟩; cases h)
    exact hfits
  | send | sending | receive =>
    obtain rfl := hsame.resolve_right (by rintro ⟨e, h, hchanges⟩; cases h <;> cases hchanges)
    exact ⟨hfits.1, { hfits.2 with holds := hfits.2.holds.put handover }⟩

namespace Hosted

variable (hs : Hosted cluster l₀ H₀ H tenure said messages s)
include hs

/-- Neither the relay nor the errand is touched. -/
theorem of_same (hmedium : t.medium = s.medium) (herrand : t.stage.errand? = s.stage.errand?)
    (hfits : Fits l₀.traffic.relay.closed l₀.traffic.relay.nextId messages tenure said
      (s.medium.traffic.relay.given l₀.traffic.relay.nextId) t.conn t.inbox t.stage) :
    Hosted cluster l₀ H₀ H tenure said messages t where
  hosts := by
    rw [errands_congr herrand, hmedium]
    exact hs.hosts
  fits := hmedium ▸ hfits

/-- The caller asks the relay for something. -/
theorem ask {next : Stage} {q : Request} {e : Errand} {new : List (Nat × Payload)}
    (hnone : s.stage.errand? = none) (hnext : next.errand? = some e)
    (ha : Relay.Asks l₀.traffic.relay.closed l₀.traffic.relay.nextId 0 q e tenure new)
    (hfits : Fits l₀.traffic.relay.closed l₀.traffic.relay.nextId messages tenure (said ++ new)
      (s.medium.traffic.relay.given l₀.traffic.relay.nextId) s.conn inbox next) :
    ∃ H', Hosted cluster l₀ H₀ H' tenure (said ++ new) messages
      (Latency.ask (Relay.line cluster) { s with inbox } q next) := by
  have hupdate : Function.update (errands s) 0 (some e) =
      errands (Latency.ask (Relay.line cluster) { s with inbox } q next) := by
    rw [← hnext]
    exact update_errands s (Latency.ask (Relay.line cluster) { s with inbox } q next)
  obtain ⟨H', hhosts⟩ := hs.hosts.ask ha hnone (hupdate ▸ apart_errands _)
  rw [hupdate] at hhosts
  exact ⟨H', hhosts, hfits⟩

/-- The caller hears from the relay how its errand ended. -/
theorem reply {next : Stage} {r : Reply} {l : Line} {e : Errand} (he : s.stage.errand? = some e)
    (hr : s.medium.reply? 0 = some (r, l)) (hnext : next.errand? = none)
    (hfits : Relay.Answers l₀.traffic.relay.closed l₀.traffic.relay.nextId e r tenure →
      Fits l₀.traffic.relay.closed l₀.traffic.relay.nextId messages tenure said
        (s.medium.traffic.relay.given l₀.traffic.relay.nextId) conn s.inbox next) :
    Hosted cluster l₀ H₀ H tenure said messages { s with medium := l, conn, stage := next } := by
  obtain ⟨e', he', ha, hrelay, hhosts⟩ := hs.hosts.reply hr
  obtain rfl : e = e' := Option.some.inj (he.symm.trans he')
  have hupdate : Function.update (errands s) 0 none =
      errands { s with medium := l, conn, stage := next } := by
    rw [← hnext]
    exact update_errands s { s with medium := l, conn, stage := next }
  rw [hupdate] at hhosts
  refine ⟨hhosts, ?_⟩
  rw [hrelay]
  exact hfits ha

/-- The relay goes on by itself. -/
theorem pass {b : Relay.Traffic.Label} {l : Line} {handover : Option Handover}
    (hstep : s.medium.step b = some (l, handover)) : ∃ H' tenure',
      Hosted cluster l₀ H₀ H' tenure' said messages
        { s with medium := l, inbox := s.inbox.put handover } := by
  have hsteps := Relay.Line.steps_of_step hstep
  obtain ⟨H', tenure', hhosts, hchange⟩ := hs.hosts.steps hsteps
  refine ⟨H', tenure', hhosts, ?_⟩
  rw [hs.hosts.given_eq hsteps]
  refine hs.fits.pass (hchange.imp_right ?_) _
  rintro ⟨k, e, hk, hchanges⟩
  cases k with
  | zero => exact ⟨e, hk, hchanges⟩
  | succ => cases hk

theorem step (hroom : (probeInbox messages).isOk = true)
    (he : Effect (Relay.line cluster) messages s a t) :
    ∃ H' tenure' said', Hosted cluster l₀ H₀ H' tenure' said' messages t := by
  have hfits := hs.fits
  cases he with
  | noRoom _ hinbox =>
    rw [hinbox] at hroom
    cases hroom
  | register hstage hinbox =>
    rw [hstage] at hfits
    obtain ⟨rfl, rfl⟩ := hfits
    obtain ⟨-, rfl⟩ := Inbox.ofCapacity_eq_ok_iff.1 hinbox
    obtain ⟨H', hs'⟩ := hs.ask (by rw [hstage]; rfl) (show Stage.errand? .registering = _ from rfl)
      .register ⟨rfl, hs.hosts.holds_of_absent rfl _⟩
    exact ⟨H', _, _, hs'⟩
  | registered hstage hr =>
    rw [hstage] at hfits
    refine ⟨_, _, _, hs.reply (congrArg Stage.errand? hstage) hr rfl fun ha => ?_⟩
    cases ha with
    | joined hopen => exact ⟨Nat.zero_le _, hopen, rfl, rfl, hfits.1, hfits.2⟩
  | refused hstage hr =>
    rw [hstage] at hfits
    refine ⟨_, _, _, hs.reply (congrArg Stage.errand? hstage) hr rfl fun ha => ?_⟩
    cases ha with
    | refused hclosed => exact .inl ⟨hclosed, rfl, hfits.1, rfl⟩
  | @send i hstage hlt =>
    rw [hstage] at hfits
    obtain ⟨-, hopen, hmember, hconn, rfl, hholds⟩ := hfits
    rw [hmember] at hs
    have ha : Relay.Asks l₀.traffic.relay.closed l₀.traffic.relay.nextId 0
        (.broadcast s.conn (probe i)) .broadcasting .member [(0, probe i)] := by
      rw [hconn]
      exact .broadcast hopen
    obtain ⟨H', hs'⟩ := hs.ask (by rw [hstage]; rfl) (show (Stage.sending i).errand? = _ from rfl) ha
      ⟨hlt, hopen, rfl, hconn, (spoken_succ i).symm, hholds⟩
    exact ⟨H', _, _, hs'⟩
  | allSent hstage hle =>
    rw [hstage] at hfits
    obtain ⟨hge, hopen⟩ := hfits
    obtain rfl := Nat.le_antisymm hle hge
    exact ⟨_, _, _, hs.of_same rfl (by rw [hstage]; rfl)
      ⟨hopen.isOpen, hopen.member, hopen.conn, .inl ⟨rfl, hopen.said⟩⟩⟩
  | sent hstage hr =>
    rw [hstage] at hfits
    exact ⟨_, _, _, hs.reply (congrArg Stage.errand? hstage) hr rfl fun _ => hfits⟩
  | notSent hstage hr =>
    refine ⟨_, _, _, hs.reply (congrArg Stage.errand? hstage) hr rfl fun ha => ?_⟩
    cases ha
  | died _ hr => exact absurd hr hs.hosts.not_died
  | receive hstage hreceive =>
    rw [hstage] at hfits
    obtain ⟨hlt, hopen⟩ := hfits
    have hholds := hopen.holds.receive (Nat.lt_of_lt_of_le hlt (Nat.le_max_left _ _)) hreceive
    exact ⟨_, _, _, hs.of_same rfl (by rw [hstage]; rfl)
      ⟨hlt, hopen.isOpen, hopen.member, hopen.conn, hopen.said, hholds⟩⟩
  | expire hstage =>
    rw [hstage] at hfits
    obtain ⟨-, hopen⟩ := hfits
    exact ⟨_, _, _, hs.of_same rfl (by rw [hstage]; rfl)
      ⟨hopen.isOpen, hopen.member, hopen.conn, .inr ⟨_, rfl⟩⟩⟩
  | @stop result request hstage hrequest =>
    rw [hstage] at hfits
    obtain ⟨hopen, hmember, hconn, hends⟩ := hfits
    rw [hmember] at hs
    have ha : Relay.Asks l₀.traffic.relay.closed l₀.traffic.relay.nextId 0 request .leaving .member
        [] := by
      rcases hrequest with rfl | rfl <;> rw [hconn]
      · exact .unregister hopen
      · exact .drop hopen
    obtain ⟨H', hs'⟩ := hs.ask (by rw [hstage]; rfl)
      (show (Stage.stopping result).errand? = _ from rfl) ha
      ⟨hopen, (List.append_nil said).symm ▸ hends⟩
    exact ⟨H', _, _, hs'⟩
  | returned hstage hr =>
    rw [hstage] at hfits
    refine ⟨_, _, _, hs.reply (congrArg Stage.errand? hstage) hr rfl fun ha => ?_⟩
    cases ha with
    | left => exact .inr ⟨hfits.1, rfl, hfits.2⟩
  | pass hstep =>
    obtain ⟨H', tenure', hs'⟩ := hs.pass hstep
    exact ⟨H', tenure', said, hs'⟩

/-- Where the relay has nothing left to do, there is a message to receive. -/
theorem not_stuck (hi : Idle H₀ l₀) (hstage : s.stage = .receive i)
    (hempty : s.inbox.items.toList = []) (hhalted : ∀ b, s.medium.step b = none) : False := by
  have hfits := hs.fits
  rw [hstage] at hfits
  obtain ⟨hlt, hopen⟩ := hfits
  have hnone (k : Nat) : errands s k = none := by
    cases k with
    | zero =>
      show s.stage.errand? = none
      rw [hstage]
      rfl
    | succ => rfl
  have hall := hopen.holds.length_eq_of_empty (Nat.lt_of_lt_of_le hlt (Nat.le_max_left _ _)) hempty
  have hlength := hs.hosts.length_given hnone hi hhalted hopen.member
  rw [hopen.said, hall, spoken, probes, List.length_map, List.length_map,
    List.length_range] at hlength
  omega

end Hosted

/-- A state of a measurement that began on the line `l₀`. -/
def Begun (cluster : String) (l₀ : Line) (H₀ : Relay.History) (messages : Nat) (s : State Line) :
    Prop :=
  ∃ H tenure said, Hosted cluster l₀ H₀ H tenure said messages s

/-- The steps that are left on a line that began as `l₀`. -/
def lineBudget (l₀ : Line) (messages : Nat) (s : State Line) : Nat :=
  budget (Line.work (l₀.traffic.relay.nextId + 1)) (3 * (l₀.traffic.relay.nextId + 1) + 4) messages s

theorem halted_of_medium {s : State S} (hnone : ∀ b, mediumStep M s b = none) (b : I) :
    M.step s.medium b = none := by
  cases hstep : M.step s.medium b with
  | none => rfl
  | some found =>
    obtain ⟨m, handover⟩ := found
    have hsome := hnone b
    simp only [mediumStep, hstep] at hsome
    cases handover <;> cases hsome

section
variable {ok : State Line → Label Relay.Traffic.Label → Prop}
  {as : List (Label Relay.Traffic.Label)} (hroom : (probeInbox messages).isOk = true)
include hroom

/-- Each step is one less to take. -/
theorem Begun.step (hb : Begun cluster l₀ H₀ messages s)
    (hstep : (machine (Relay.line cluster) messages).step s a = some t) :
    Begun cluster l₀ H₀ messages t ∧ lineBudget l₀ messages t < lineBudget l₀ messages s := by
  obtain ⟨H, tenure, said, hs⟩ := hb
  have he : Effect (Relay.line cluster) messages s a t := effect_of_step hstep
  exact ⟨hs.step hroom he, budget_lt hs.hosts.measured he⟩

theorem Begun.of_runWhere (hb : Begun cluster l₀ H₀ messages s)
    (hr : (machine (Relay.line cluster) messages).RunWhere ok s as t) :
    Begun cluster l₀ H₀ messages t :=
  hr.invariant hb fun _ _ _ _ hb _ hstep => (hb.step hroom hstep).1

variable (hi : Idle H₀ l₀)
include hi

omit hroom in
/-- Where only a time-out could happen the measurement has returned. -/
theorem Begun.returned_of_quiet (hb : Begun cluster l₀ H₀ messages s)
    (hok : ∀ a, a ≠ .expire → ok s a)
    (hquiet : (machine (Relay.line cluster) messages).Quiet ok s) : Returned s := by
  have hhalted : ∀ b, s.medium.step b = none :=
    halted_of_medium fun b => hquiet (.medium b) (hok _ nofun)
  obtain ⟨H, tenure, said, hs⟩ := hb
  have hfits := hs.fits
  cases blocked_of_main (hquiet .main (hok _ nofun)) with
  | «over» hstage => exact ⟨_, by rw [result?, hstage]⟩
  | lost hstage =>
    rcases hstage with ⟨f, hstage⟩ | hstage <;> rw [hstage] at hfits <;> exact hfits.elim
  | @unanswered e he hnone =>
    obtain ⟨r, l, hr⟩ : ∃ r l, (Relay.line cluster).reply? s.medium 0 = some (r, l) :=
      hs.hosts.answers (k := 0) (e := e) hhalted he
    rw [hr] at hnone
    cases hnone
  | starved hstage hempty => exact (hs.not_stuck hi hstage hempty hhalted).elim

/-- **No time-out is due**: the message that is to be received comes, whatever is done first. -/
theorem Begun.not_due (hb : Begun cluster l₀ H₀ messages s) (hstage : s.stage = .receive i) :
    ¬ Due (Relay.line cluster) messages s .expire := by
  refine Machine.not_due (fun s a t hb hstep => (Begun.step hroom hb hstep).1) hb ?_
  intro t ht hquiet hsame
  obtain ⟨result, hresult⟩ := ht.returned_of_quiet hi (fun _ h => h) hquiet
  have hover := stage_of_result hresult
  rw [hsame, hstage] at hover
  cases hover

/-- In a run without undue time-outs nothing times out. -/
theorem Begun.isLate_eq_false (hb : Begun cluster l₀ H₀ messages s) (hlate : s.stage.isLate = false)
    (hr : (machine (Relay.line cluster) messages).RunWhere (Due (Relay.line cluster) messages) s as
      t) : t.stage.isLate = false := by
  refine Bool.eq_false_iff.2 (hr.not_late (fun s a t hb hstep => (Begun.step hroom hb hstep).1) hb
    (fun s t hb hstep => ?_) (fun s a t hstep => late_of_effect (effect_of_step hstep))
    (Bool.eq_false_iff.1 hlate))
  have he : Effect (Relay.line cluster) messages s .expire t := effect_of_step hstep
  cases he with
  | expire hstage => exact hb.not_due hroom hi hstage

end

/-! ## What it returns -/

namespace Hosted

variable (hs : Hosted cluster l₀ H₀ H tenure said messages s) (hi : Idle H₀ l₀)
  {result : Except MeasureError Nat} (hstage : s.stage = .over result)
include hs hi hstage

omit hs hi in
theorem errands_of_over (k : Nat) : errands s k = none := by
  cases k with
  | zero =>
    show s.stage.errand? = none
    rw [hstage]
    rfl
  | succ => rfl

theorem restored : Restored l₀ s.medium := by
  have hfits := hs.fits
  rw [hstage] at hfits
  refine hs.hosts.restored (errands_of_over hstage) hi ?_
  rcases hfits with ⟨-, htenure, -⟩ | ⟨-, htenure, -⟩
  · exact .inl htenure
  · exact .inr htenure

theorem returns (hlate : s.stage.isLate = false) :
    Measurement.Returns cluster messages (· = probes messages) l₀ s.medium result := by
  have hfits := hs.fits
  rw [hstage] at hfits hlate
  have hnone := errands_of_over hstage
  rcases hfits with ⟨hclosed, -, rfl, rfl⟩ | ⟨hopen, -, ⟨rfl, rfl⟩ | ⟨i, rfl⟩⟩
  · refine .refused hclosed (hs.hosts.handed hnone hi fun new hall => ?_)
    rw [eq_of_filter_eq (k := 0) hall nofun]
    rfl
  · refine .ok hopen (hs.hosts.handed hnone hi fun new hall => ?_)
    have hzero : ∀ p ∈ spoken messages, p.1 = 0 := fun p hp => by
      obtain ⟨m, -, rfl⟩ := List.mem_map.1 hp
      rfl
    rw [eq_of_filter_eq hall hzero, spoken, List.map_map]
    exact List.map_id _
  · cases hlate

end Hosted

section
variable (hi : Idle H₀ l₀) (hroom : (probeInbox messages).isOk = true)
include hi hroom

/-- A measurement of latency comes to an end, and needs no time-out for it. -/
theorem settles_on_line (cluster : String) {ok : State Line → Label Relay.Traffic.Label → Prop}
    (hok : ∀ s a, a ≠ .expire → ok s a) :
    (machine (Relay.line cluster) messages).Settles ok Returned (start l₀) :=
  Machine.settles_of_measure (lineBudget l₀ messages)
    (fun _ _ _ hb _ hstep => Begun.step hroom hb hstep)
    (fun s hb hquiet => Begun.returned_of_quiet hi hb (hok s) hquiet)
    ⟨_, _, _, hosted_start hi cluster messages⟩

theorem restored_after {ok : State Line → Label Relay.Traffic.Label → Prop}
    {as : List (Label Relay.Traffic.Label)} {result : Except MeasureError Nat}
    (hr : (machine (Relay.line cluster) messages).RunWhere ok (start l₀) as t)
    (hresult : result? t = .ok (some result)) : Restored l₀ t.medium := by
  have hb : Begun cluster l₀ H₀ messages (start l₀) := ⟨_, _, _, hosted_start hi cluster messages⟩
  obtain ⟨H, tenure, said, hs⟩ := hb.of_runWhere hroom hr
  exact hs.restored hi (stage_of_result hresult)

theorem returns_after {as : List (Label Relay.Traffic.Label)} {result : Except MeasureError Nat}
    (hr : (machine (Relay.line cluster) messages).RunWhere (Due (Relay.line cluster) messages)
      (start l₀) as t) (hresult : result? t = .ok (some result)) :
    Measurement.Returns cluster messages (· = probes messages) l₀ t.medium result := by
  have hb : Begun cluster l₀ H₀ messages (start l₀) := ⟨_, _, _, hosted_start hi cluster messages⟩
  obtain ⟨H, tenure, said, hs⟩ := hb.of_runWhere hroom hr
  exact hs.returns hi (stage_of_result hresult) (hb.isLate_eq_false hroom hi rfl hr)

end

end Latency

end Lockstep
