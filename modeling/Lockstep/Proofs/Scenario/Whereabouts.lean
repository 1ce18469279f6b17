import Lockstep.Proofs.Relay.Lines
import Lockstep.Proofs.Scenario.Progress

/-!
# Where the participants stand with a relay

The call that a participant has under way on a relay is the one its stage is about: by `Enters` it
gets its connection or service, by `Sends` it broadcasts, by `Departs` it gives up what it has.
`OnLine` says where the two can stand together, and which `Spot` this is in the eyes of the others:
which number the participant has, whether it is a member of the cluster, and how many of its
messages it has begun to broadcast.

What a participant does by itself keeps its spot (`OnLine.stay`); a step of its call is a `Shift` of
it (`OnLine.move`).
-/

set_option autoImplicit false

namespace Lockstep.Scenario

open Medium Barrier History
open Relay (Line Call Traffic)

/-- What others see of a participant. -/
inductive Place where
  /-- It has no number yet. -/
  | outside
  /-- A client has its connection. -/
  | connected (id : Nat)
  /-- A client has closed its connection. -/
  | closed (id : Nat)
  /-- The service of a server has its number. -/
  | joining (id : Nat)
  /-- Its handler is initialised. -/
  | ready (id : Nat)
  /-- It is a member of the cluster. -/
  | inside (id : Nat)
  /-- It was removed from the members. -/
  | leaving (id : Nat)
  /-- Nothing is left for its handler. -/
  | gone (id : Nat)

/-- The number that it has. -/
def Place.number? : Place → Option Nat
  | .outside => none
  | .connected id | .closed id | .joining id | .ready id | .inside id | .leaving id | .gone id =>
    some id

/-- The number of its connection, until it gives it up. -/
def Place.open? : Place → Option Nat
  | .connected id | .joining id | .ready id | .inside id => some id
  | _ => none

/-- The number of its service, once its handler is initialised. -/
def Place.service? : Place → Option Nat
  | .ready id | .inside id | .leaving id | .gone id => some id
  | _ => none

structure Spot where
  place : Place
  /-- How many of its messages it has begun to hand to the members of the cluster. -/
  begun : Nat

/-- Where a participant stands between entering and giving up what it has. -/
def Party.up (id : Nat) : Party → Place
  | .client _ => .connected id
  | .server _ => .inside id

/-- Where it stands after that. -/
def Party.down (id : Nat) : Party → Place
  | .client _ => .closed id
  | .server _ => .gone id

/-- The cluster that it registers with. -/
def Party.home (cluster : String) : Party → Option String
  | .client _ => none
  | .server _ => some cluster

/-! ## Calls -/

/-- How a participant gets its connection or service, on a relay that is closed or not. -/
inductive Enters (closed : Bool) (cluster : String) : Party → Call → Place → Prop
  | ask {party} : Enters closed cluster party (.ask (party.home cluster)) .outside
  | takeId {party} : closed = false →
      Enters closed cluster party (.takeId (party.home cluster)) .outside
  | initialise {j id} : closed = false →
      Enters closed cluster (.server j) (.initialise cluster id) (.joining id)
  | insert {j id} : closed = false →
      Enters closed cluster (.server j) (.insert cluster id) (.ready id)
  | entered {party id} : closed = false →
      Enters closed cluster party (.over (.ok (some id))) (party.up id)
  | refused {party} : closed = true →
      Enters closed cluster party (.over (.error .relayClosed)) .outside

/-- How the message `m`, before which `i` were broadcast, is broadcast, and how many it makes. -/
inductive Sends (cluster : String) (conn : Nat) (m : Payload) (i : Nat) : Call → Nat → Prop
  | broadcast : Sends cluster conn m i (.broadcast conn cluster m) i
  | askBroadcast : Sends cluster conn m i (.askBroadcast cluster m) i
  | lock : Sends cluster conn m i (.lock cluster m) i
  | walk {left} : Sends cluster conn m i (.walk cluster m left) (i + 1)
  | done : Sends cluster conn m i (.over (.ok none)) (i + 1)

/-- How a participant gives up its connection or service. -/
inductive Departs (cluster : String) (conn : Nat) : Party → Call → Place → Prop
  | close {i} : Departs cluster conn (.client i) (.close conn) (.connected conn)
  | remove {j} : Departs cluster conn (.server j) (.remove cluster conn) (.inside conn)
  | sweep {j} : Departs cluster conn (.server j) (.sweep cluster conn) (.leaving conn)
  | hangUp {j} : Departs cluster conn (.server j) (.hangUp conn) (.leaving conn)
  | join {j} : Departs cluster conn (.server j) (.join conn) (.leaving conn)
  | done {party} : Departs cluster conn party (.over (.ok none)) (party.down conn)

/-- With what a participant leaves the barrier. -/
inductive Leaves (closed : Bool) (c : Config) (h : History ParticipantError) (p : Nat)
    (party : Party) (conn : Nat) : Option ParticipantError → Spot → Prop
  | well : closed = false → 2 ≤ h.phase →
      Leaves closed c h p party conn none ⟨party.down conn, c.messages⟩
  | refused : closed = true → h.syncs p = 0 →
      Leaves closed c h p party conn (some (Run.enterError party .relayClosed)) ⟨.outside, 0⟩

/-- Where the participant `p` and its call stand together. -/
inductive OnLine (closed : Bool) (c : Config) (cluster : String) (h : History ParticipantError)
    (p : Nat) (party : Party) (conn : Nat) : Stage → Option Call → Spot → Prop
  | enter : OnLine closed c cluster h p party conn .enter none ⟨.outside, 0⟩
  | entering {call place} : Enters closed cluster party call place →
      OnLine closed c cluster h p party conn .entering (some call) ⟨place, 0⟩
  | arrive {first} : closed = false → OnLine closed c cluster h p party conn (.arrive first) none
      ⟨party.up conn, if first then 0 else c.messages⟩
  | blocked {first k} : closed = false →
      OnLine closed c cluster h p party conn (.blocked first k) none
        ⟨party.up conn, if first then 0 else c.messages⟩
  | send {i} : closed = false → i ≤ c.messages →
      OnLine closed c cluster h p party conn (.send i) none ⟨party.up conn, i⟩
  | sending {i call begun} : closed = false → i < c.messages →
      Sends cluster conn (Message.bytes ⟨party, i⟩) i call begun →
      OnLine closed c cluster h p party conn (.sending i) (some call) ⟨party.up conn, begun⟩
  | verify {v j} : closed = false → party = .server j →
      OnLine closed c cluster h p party conn (.verify v) none ⟨party.up conn, c.messages⟩
  | depart : closed = false → OnLine closed c cluster h p party conn (.depart none true) none
      ⟨party.up conn, c.messages⟩
  | departing {call place} : closed = false → Departs cluster conn party call place →
      OnLine closed c cluster h p party conn (.departing none) (some call) ⟨place, c.messages⟩
  | finish {error spot} : Leaves closed c h p party conn error spot →
      OnLine closed c cluster h p party conn (.finish error) none spot
  | ended {error spot} : Leaves closed c h p party conn error spot →
      (∀ e, .exited p e ∈ h → e = error) → OnLine closed c cluster h p party conn .ended none spot

/-- The verification of a server cannot fail where it stands. -/
structure Passes (r : Run Line) (cluster : String) (p : Nat) (x : Participant) (v : Verifier) :
    Prop where
  conclude : v.wanted = 0 → v.conclude r.config = .ok ()
  accept : ∀ {m inbox}, v.wanted ≠ 0 → x.inbox.receive? = some (m, inbox) →
    ∃ v', v.accept m = .ok v'
  waits : v.wanted ≠ 0 → x.inbox.items.toList = [] →
    ¬ Run.Timely (Relay.line cluster) r (.expireReceive p)

/-! ## Steps -/

/-- The spot of a participant in place `place` is not affected. -/
structure Calm (l : Line) (rs : Relay.History) (relay : Relay) (place : Place) : Prop where
  quiet : ∀ e ∈ rs, e.isQuiet = true
  nextId : relay.nextId = l.traffic.relay.nextId
  /-- Only who leaves hangs up. -/
  closed : ∀ id, l.traffic.relay.isClosed id = false →
    relay.isClosed id = false ∨ place = .leaving id

/-- The `i`-th message of the participant `p`, as it is broadcast. -/
def Config.said (c : Config) (p i : Nat) : Payload :=
  match (Run.parties c)[p]? with
  | some x => Message.bytes ⟨x.party, i⟩
  | none => []

/-- What a step does to the spot of the participant `p`, to the relay and to the owners of the
services. -/
inductive Shift (c : Config) (cluster : String) (l : Line) (p : Nat) :
    Relay.History → Relay → List (Nat × Nat) → Spot → Spot → Prop
  | calm {rs relay spot} : Calm l rs relay spot.place →
      Shift c cluster l p rs relay l.owners spot spot
  | connect {n} : Shift c cluster l p [] l.traffic.relay.newEndpoint l.owners
      ⟨.outside, n⟩ ⟨.connected l.traffic.relay.nextId, n⟩
  | takeId {n} : Shift c cluster l p [] l.traffic.relay.newEndpoint l.owners
      ⟨.outside, n⟩ ⟨.joining l.traffic.relay.nextId, n⟩
  | initialise {id n} : Shift c cluster l p [] l.traffic.relay (l.owners ++ [(id, p)])
      ⟨.joining id, n⟩ ⟨.ready id, n⟩
  | insert {id n} : Shift c cluster l p [.inserted cluster id]
      (l.traffic.relay.insertMember cluster id) l.owners ⟨.ready id, n⟩ ⟨.inside id, n⟩
  | begin {place i} : Shift c cluster l p [.began p cluster (c.said p i)]
      l.traffic.relay l.owners ⟨place, i⟩ ⟨place, i + 1⟩
  | close {id n} : Shift c cluster l p [] (l.traffic.relay.close id) l.owners
      ⟨.connected id, n⟩ ⟨.closed id, n⟩
  | remove {id n} : Shift c cluster l p [.removed cluster id]
      (l.traffic.relay.removeMember cluster id) l.owners ⟨.inside id, n⟩ ⟨.leaving id, n⟩
  | leave {id n} : Shift c cluster l p [.left id] l.traffic.relay l.owners
      ⟨.leaving id, n⟩ ⟨.gone id, n⟩

/-- What a step means for the participant `p` and its call. -/
inductive Stride (cluster : String) (r : Run Line) (p : Nat) (x : Participant) :
    Option Call → Run.Label Traffic.Label → History ParticipantError → Participant →
      Option Call → Prop
  | ask {q x'} : Asks r.config x q x' →
      Stride cluster r p x none (.participant p) [] x' (some (Line.call cluster q))
  | hear {result x'} : Hears x (Line.replyOf result) x' →
      Stride cluster r p x (some (.over result)) (.participant p) [] x' none
  | work {call x'} : Works r x x' → Stride cluster r p x call (.participant p) [] x' call
  | sync {call first b} : x.stage = .arrive first → r.barrier.sync p = some (.ok b) →
      Stride cluster r p x call (.participant p) [.synced p]
        { x with stage := .blocked first r.barrier.phase } call
  | refused {call first e} : x.stage = .arrive first → r.barrier.sync p = some (.error e) →
      Stride cluster r p x call (.participant p) []
        { x with stage := Run.afterFailure x.party (.sync e) } call
  | exit {call error} : x.stage = .finish error →
      Stride cluster r p x call (.participant p) [.exited p error] { x with stage := .ended } call
  | miss {call v} : x.stage = .verify v → v.wanted ≠ 0 → x.inbox.items.toList = [] →
      Stride cluster r p x call (.expireReceive p) []
        { x with stage := .ofVerdict (.error .receiveTimeout) } call
  | handed {call a m} : Stride cluster r p x call a [] { x with inbox := x.inbox.offer m } call
  | move {c a rs relay c'} : r.medium.traffic.Moves p c a rs relay c' →
      (∀ cause, a ≠ .initialised p (some cause)) →
      Stride cluster r p x (some c) (.medium a) [] x (some c')
  | rest {call a es} : (∀ e ∈ es, e.participant? ≠ some p) → Stride cluster r p x call a es x call

variable {closed : Bool} {c : Config} {cluster : String} {h es : History ParticipantError}
  {p n conn : Nat} {party : Party} {x x' : Participant} {spot : Spot} {place : Place}
  {call call' : Option Call} {c₀ c' : Call} {r : Run Line} {l l' : Line} {rs : Relay.History}
  {relay : Relay} {a : Run.Label Traffic.Label} {b : Traffic.Label}
  {b' : Barrier ParticipantError}

/-- What the relay does by itself leaves a participant alone, or is a step of its call. -/
theorem stride_of_steps {handover : Option Handover} (hs : r.medium.Steps b l handover) :
    Stride cluster r p x (r.medium.traffic.call? p) (.medium b) [] x (l.traffic.call? p) := by
  have hrest (call : Option Call) : Stride cluster r p x call (.medium b) [] x call :=
    .rest (List.forall_mem_nil _)
  cases hs with
  | take | finish => exact hrest _
  | move hc hm hinit =>
    rw [Traffic.call?_setCall (by exact hc)]
    split
    · rename_i heq
      subst heq
      rw [hc]
      exact .move hm hinit
    · exact hrest _

/-- A step of `q` leaves the others and their calls alone. -/
theorem stride_of_set {q : Nat} {y : Participant} {t : Run Line}
    (hy : r.participants[q]? = some y) (hs : t.participants = r.participants.set q x')
    (hstride : Stride cluster r q y (r.medium.traffic.call? q) a es x' (t.medium.traffic.call? q))
    (hes : ∀ e ∈ es, e.participant? = some q)
    (hcall : p ≠ q → t.medium.traffic.call? p = r.medium.traffic.call? p)
    (hx : r.participants[p]? = some x) : ∃ x', t.participants[p]? = some x' ∧
      Stride cluster r p x (r.medium.traffic.call? p) a es x' (t.medium.traffic.call? p) := by
  by_cases he : p = q
  · subst he
    rw [hx] at hy
    cases hy
    have hlt : p < r.participants.length := (List.getElem?_eq_some_iff.1 hx).1
    exact ⟨x', by rw [hs, List.getElem?_set_self hlt], hstride⟩
  · refine ⟨x, by rw [hs, List.getElem?_set_ne (Ne.symm he), hx], ?_⟩
    rw [hcall he]
    refine .rest fun e hm => ?_
    rw [hes e hm]
    simpa using Ne.symm he

/-- Every participant takes a stride in a step, if who asks for something has no call under way. -/
theorem Run.Effect.stride {t : Run Line} (he : Run.Effect (Relay.line cluster) r a es t)
    (hasks : ∀ q y, r.participants[q]? = some y → y.stage.awaitsReply = false →
      r.medium.traffic.call? q = none)
    (hx : r.participants[p]? = some x) : ∃ x', t.participants[p]? = some x' ∧
      Stride cluster r p x (r.medium.traffic.call? p) a es x' (t.medium.traffic.call? p) := by
  cases he with
  | @ask q y x' request hy ha =>
    have hnone : r.medium.traffic.call? q = none := by
      refine hasks q y hy ?_
      cases ha with
      | connect _ hstage | register _ hstage | broadcast hstage | depart hstage =>
        rw [hstage]
        rfl
    refine stride_of_set hy rfl ?_ (List.forall_mem_nil _) (fun hne => Traffic.call?_start_of_ne hne)
      hx
    have hcall : (r.medium.traffic.start q (Line.call cluster request)).call? q =
        some (Line.call cluster request) := by
      rw [Traffic.call?_start hnone, if_pos rfl]
    rw [hnone]
    exact hcall.symm ▸ .ask ha
  | @hear q y x' reply medium hy hr hh =>
    obtain ⟨result, hc, rfl, rfl⟩ := Line.reply?_eq_some_iff.1 hr
    refine stride_of_set hy rfl ?_ (List.forall_mem_nil _)
      (fun hne => by exact Traffic.call?_dropCall.trans (if_neg hne)) hx
    have hcall : (r.medium.traffic.dropCall q).call? q = none :=
      Traffic.call?_dropCall.trans (if_pos rfl)
    rw [hc]
    exact hcall.symm ▸ .hear hh
  | work hy hw =>
    exact stride_of_set hy rfl (.work hw) (List.forall_mem_nil _) (fun _ => rfl) hx
  | sync hy hstage hs =>
    exact stride_of_set hy rfl (.sync hstage hs) (by simp [Event.participant?]) (fun _ => rfl) hx
  | refused hy hstage hs =>
    exact stride_of_set hy rfl (.refused hstage hs) (List.forall_mem_nil _) (fun _ => rfl) hx
  | exit hy hstage hs =>
    exact stride_of_set hy rfl (.exit hstage) (by simp [Event.participant?]) (fun _ => rfl) hx
  | miss hy hstage hwanted hempty =>
    exact stride_of_set hy rfl (.miss hstage hwanted hempty) (List.forall_mem_nil _)
      (fun _ => rfl) hx
  | @pass b medium handover hs =>
    have hsteps := Line.steps_of_step hs
    obtain ⟨x', hx', hturn⟩ := Run.turn_of_handOver hs hx
    refine ⟨x', hx', ?_⟩
    rw [Run.handOver_medium]
    have hstride : Stride cluster r p x (r.medium.traffic.call? p) (.medium b) [] x
        (medium.traffic.call? p) := stride_of_steps hsteps
    cases hturn with
    | @handed _ _ m hs' =>
      have hsome : handover = some ⟨p, m⟩ := congrArg Prod.snd (Option.some.inj (hs.symm.trans hs'))
      cases hsteps with
      | take => exact .handed
      | move | finish => cases hsome
    | rest => exact hstride
  | complete => exact ⟨x, hx, .rest (by simp [Event.participant?])⟩
  | call | overflow | phasesOver | joined | giveUp => exact ⟨x, hx, .rest (List.forall_mem_nil _)⟩

/-! ## What a participant does by itself -/

theorem Leaves.mono {error : Option ParticipantError}
    (hl : Leaves closed c h p party conn error spot) (hphase : h.phase ≤ (es ++ h).phase)
    (hsyncs : syncs p (es ++ h) = h.syncs p) :
    Leaves closed c (es ++ h) p party conn error spot := by
  cases hl with
  | well hopen hle => exact .well hopen (Nat.le_trans hle hphase)
  | refused hclosed hzero => exact .refused hclosed (hsyncs.trans hzero)

/-- Others may go on. -/
theorem OnLine.rest {stage : Stage} (hon : OnLine closed c cluster h p party conn stage call spot)
    (hes : ∀ e ∈ es, e.participant? ≠ some p) :
    OnLine closed c cluster (es ++ h) p party conn stage call spot := by
  have hphase : h.phase ≤ (es ++ h).phase := by
    have := phase_append es h
    omega
  have hsyncs : syncs p (es ++ h) = h.syncs p := syncs_append_of_ne hes
  cases hon with
  | enter => exact .enter
  | entering he => exact .entering he
  | arrive hopen => exact .arrive hopen
  | blocked hopen => exact .blocked hopen
  | send hopen hle => exact .send hopen hle
  | sending hopen hlt hsends => exact .sending hopen hlt hsends
  | verify hopen hparty => exact .verify hopen hparty
  | depart hopen => exact .depart hopen
  | departing hopen hd => exact .departing hopen hd
  | finish hl => exact .finish (hl.mono hphase hsyncs)
  | ended hl hexited =>
    exact .ended (hl.mono hphase hsyncs) fun e hm => hexited e ((exited_mem_append_of_ne hes).1 hm)

section
variable (hon : OnLine closed c cluster h p x.party x.conn x.stage call spot)
include hon

/-- Who has no reply to wait for has no call under way. -/
theorem OnLine.call_eq_none (hawaits : x.stage.awaitsReply = false) : call = none := by
  generalize x.stage = stage at hon hawaits
  cases hon with
  | entering | sending | departing => cases hawaits
  | _ => rfl

theorem OnLine.exists_call (hawaits : x.stage.awaitsReply = true) : ∃ c₀, call = some c₀ := by
  generalize x.stage = stage at hon hawaits
  cases hon with
  | entering | sending | departing => exact ⟨_, rfl⟩
  | _ => cases hawaits

theorem OnLine.ask {q : Request} (ha : Asks c x q x') :
    OnLine closed c cluster h p x'.party x'.conn x'.stage (some (Line.call cluster q)) spot := by
  obtain ⟨party, stage, conn, inbox⟩ := x
  cases ha with
  | connect hparty hstage | register hparty hstage =>
    subst hparty hstage
    cases hon with
    | enter => exact .entering .ask
  | broadcast hstage hlt =>
    subst hstage
    cases hon with
    | send hopen => exact .sending hopen hlt .broadcast
  | depart hstage =>
    subst hstage
    cases hon with
    | depart hopen =>
      cases party with
      | client => exact .departing hopen .close
      | server => exact .departing hopen .remove

theorem OnLine.hear {result : Except RelayError (Option Nat)} (hcall : call = some (.over result))
    (hf : Fits h p x.stage) (hh : Hears x (Line.replyOf result) x') :
    OnLine closed c cluster h p x'.party x'.conn x'.stage none spot := by
  subst hcall
  obtain ⟨party, stage, conn, inbox⟩ := x
  cases hon with
  | entering he =>
    cases he with
    | entered hopen =>
      cases hh with
      | entered => exact .arrive hopen
      | sent hstage | departed hstage => cases hstage
    | refused hclosed =>
      cases hh with
      | refused => exact .finish (.refused hclosed hf.syncs_entering)
      | notSent hstage | departed hstage => cases hstage
  | sending hopen hlt hs =>
    cases hs with
    | done =>
      cases hh with
      | sent hstage =>
        cases hstage
        exact .send hopen hlt
      | entered hstage | departed hstage => cases hstage
  | departing hopen hd =>
    cases hd with
    | done =>
      cases hh with
      | departed hstage =>
        cases hstage
        exact .finish (.well hopen (Nat.le_of_eq (hf.of_going rfl).2.2.symm))
      | entered hstage | sent hstage => cases hstage

theorem OnLine.work (hconfig : r.config = c) (hroom : (Run.serverInbox c).isOk = true)
    (hpass : ∀ v, x.stage = .verify v → Passes r cluster p x v) (hw : Works r x x') :
    OnLine closed c cluster h p x'.party x'.conn x'.stage call spot := by
  subst hconfig
  obtain ⟨party, stage, conn, inbox⟩ := x
  cases hw with
  | noRoom _ _ hfault =>
    rw [hfault] at hroom
    cases hroom
  | @resume first _ hstage =>
    subst hstage
    cases hon with
    | blocked hopen =>
      cases first with
      | true => exact .send hopen (Nat.zero_le _)
      | false =>
        cases party with
        | client => exact .depart hopen
        | server => exact .verify hopen rfl
  | sentAll hstage hle =>
    subst hstage
    cases hon with
    | send hopen hle' =>
      obtain rfl := Nat.le_antisymm hle hle'
      exact .arrive hopen
  | conclude hstage hwanted =>
    subst hstage
    cases hon with
    | verify hopen =>
      rw [(hpass _ rfl).conclude hwanted]
      exact .depart hopen
  | accept hstage hwanted hm ha =>
    subst hstage
    cases hon with
    | verify hopen hparty => exact .verify hopen hparty
  | reject hstage hwanted hm ha =>
    obtain ⟨v', hok⟩ := (hpass _ hstage).accept hwanted hm
    rw [ha] at hok
    cases hok

/-- What a participant does by itself keeps its spot. -/
theorem OnLine.stay (hs : Stride cluster r p x call a es x' call')
    (hstill : ∀ b, a = .medium b → b.caller? ≠ some p) (hf : Fits h p x.stage)
    (hp : Pace n h r.barrier) (hconfig : r.config = c) (hroom : (Run.serverInbox c).isOk = true)
    (hpass : ∀ v, x.stage = .verify v → Passes r cluster p x v)
    (htimely : Run.Timely (Relay.line cluster) r a) :
    OnLine closed c cluster (es ++ h) p x'.party x'.conn x'.stage call' spot := by
  cases hs with
  | ask ha => exact hon.ask (hconfig ▸ ha)
  | hear hh => exact hon.hear rfl hf hh
  | work hw => exact hon.work hconfig hroom hpass hw
  | sync hstage =>
    rw [hstage] at hon
    cases hon with
    | arrive hopen => exact .blocked hopen
  | refused hstage hs =>
    rw [hstage] at hf
    exact (hf.not_refused hp hs).elim
  | exit hstage =>
    rw [hstage] at hon hf
    cases hon with
    | finish hl =>
      refine .ended (hl.mono (Nat.le_of_eq (by simp)) (by simp)) fun e hm => ?_
      rcases List.mem_cons.1 hm with heq | hm
      · cases heq
        rfl
      · exact absurd ⟨_, hm⟩ (hf.of_going rfl).1
  | miss hstage hwanted hempty => exact absurd htimely ((hpass _ hstage).waits hwanted hempty)
  | handed => exact hon
  | move hm => exact absurd hm.caller? (hstill _ rfl)
  | rest hes => exact hon.rest hes

end

/-! ## What its call does -/

theorem Shift.still {spot : Spot} (c : Config) (cluster : String) (l : Line) (p : Nat) :
    Shift c cluster l p [] l.traffic.relay (l.owners ++ []) spot spot := by
  rw [List.append_nil]
  exact .calm ⟨List.forall_mem_nil _, rfl, fun _ hid => .inl hid⟩

section
variable (hm : l.traffic.Moves p c₀ b rs relay c')
include hm

theorem Enters.move {k : Nat} (he : Enters closed cluster party c₀ place)
    (hinit : ∀ cause, b ≠ .initialised p (some cause)) (hclosed : l.traffic.relay.closed = closed) :
    ∃ place', Enters closed cluster party c' place' ∧
      Shift c cluster l p rs relay (l.owners ++ Line.owned p c₀) ⟨place, k⟩ ⟨place', k⟩ := by
  cases he with
  | ask =>
    cases hm with
    | ask hopen =>
      exact ⟨_, .takeId (hclosed.symm.trans hopen), .still c cluster l p⟩
    | refuse hr =>
      cases hr with
      | ask hshut => exact ⟨_, .refused (hclosed.symm.trans hshut), .still c cluster l p⟩
  | takeId hopen =>
    rw [show Line.owned p (.takeId (party.home cluster)) = [] from rfl, List.append_nil]
    cases party with
    | client =>
      cases hm with
      | connect => exact ⟨_, .entered hopen, .connect⟩
      | refuse hr => cases hr
    | server =>
      cases hm with
      | takeId => exact ⟨_, .initialise hopen, .takeId⟩
      | refuse hr => cases hr
  | initialise hopen =>
    cases hm with
    | initialise => exact ⟨_, .insert hopen, .initialise⟩
    | fail => exact absurd rfl (hinit _)
    | refuse hr => cases hr
  | @insert j id hopen =>
    rw [show Line.owned p (.insert cluster id) = [] from rfl, List.append_nil]
    cases hm with
    | insert => exact ⟨_, .entered hopen, .insert⟩
    | refuse hr => cases hr
  | entered | refused =>
    cases hm with
    | refuse hr => cases hr

theorem Sends.move {i begun : Nat} (hs : Sends cluster conn (Message.bytes ⟨party, i⟩) i c₀ begun)
    (hsaid : c.said p i = Message.bytes ⟨party, i⟩) (hopen : l.traffic.relay.closed = false)
    (hconn : l.traffic.relay.isClosed conn = false) :
    ∃ begun', Sends cluster conn (Message.bytes ⟨party, i⟩) i c' begun' ∧
      Shift c cluster l p rs relay (l.owners ++ Line.owned p c₀) ⟨place, begun⟩
        ⟨place, begun'⟩ := by
  cases hs with
  | broadcast =>
    cases hm with
    | broadcast => exact ⟨_, .askBroadcast, .still c cluster l p⟩
    | refuse hr =>
      cases hr with
      | broadcast hshut =>
        rw [hconn] at hshut
        cases hshut
  | askBroadcast =>
    cases hm with
    | askBroadcast => exact ⟨_, .lock, .still c cluster l p⟩
    | refuse hr =>
      cases hr with
      | askBroadcast hshut =>
        rw [hopen] at hshut
        cases hshut
  | lock =>
    rw [show Line.owned p (.lock cluster _) = [] from rfl, List.append_nil]
    cases hm with
    | lock => exact ⟨_, .walk, hsaid ▸ .begin⟩
    | refuse hr => cases hr
  | @walk left =>
    rw [show Line.owned p (.walk cluster _ left) = [] from rfl, List.append_nil]
    cases hm with
    | enqueue =>
      refine ⟨_, .walk, .calm ⟨?_, Relay.nextId_modifyEndpoint, fun id hid => .inl ?_⟩⟩
      · simp [Relay.Event.isQuiet]
      · rwa [Relay.isClosed_enqueue]
    | unlock =>
      refine ⟨_, .done, .calm ⟨?_, rfl, fun id hid => .inl hid⟩⟩
      simp [Relay.Event.isQuiet]
    | refuse hr => cases hr
  | done =>
    cases hm with
    | refuse hr => cases hr

theorem Departs.move {k : Nat} (hd : Departs cluster conn party c₀ place) :
    ∃ place', Departs cluster conn party c' place' ∧
      Shift c cluster l p rs relay (l.owners ++ Line.owned p c₀) ⟨place, k⟩ ⟨place', k⟩ := by
  have hnone : Line.owned p c₀ = [] := by cases hd <;> rfl
  rw [hnone, List.append_nil]
  cases hd with
  | close =>
    cases hm with
    | close => exact ⟨_, .done, .close⟩
    | refuse hr => cases hr
  | remove =>
    cases hm with
    | removeLast => exact ⟨_, .sweep, .remove⟩
    | remove => exact ⟨_, .hangUp, .remove⟩
    | refuse hr => cases hr
  | sweep =>
    cases hm with
    | sweep => exact ⟨_, .hangUp, .calm ⟨List.forall_mem_nil _, rfl, fun id hid => .inl hid⟩⟩
    | refuse hr => cases hr
  | hangUp =>
    cases hm with
    | hangUp =>
      refine ⟨_, .join, .calm ⟨List.forall_mem_nil _, Relay.nextId_modifyEndpoint, fun id hid => ?_⟩⟩
      by_cases hid' : conn = id
      · exact .inr (hid' ▸ rfl)
      · exact .inl ((Relay.isClosed_close_of_ne hid').trans hid)
    | refuse hr => cases hr
  | join =>
    cases hm with
    | join => exact ⟨_, .done, .leave⟩
    | refuse hr => cases hr
  | done =>
    cases hm with
    | refuse hr => cases hr

/-- **A step of the call of a participant shifts its spot.** -/
theorem OnLine.move {stage : Stage} (hsaid : ∀ i, c.said p i = Message.bytes ⟨party, i⟩)
    (hon : OnLine closed c cluster h p party conn stage (some c₀) spot)
    (hinit : ∀ cause, b ≠ .initialised p (some cause)) (hclosed : l.traffic.relay.closed = closed)
    (hconn : ∀ id, spot.place.open? = some id → l.traffic.relay.isClosed id = false) :
    ∃ spot', OnLine closed c cluster h p party conn stage (some c') spot' ∧
      Shift c cluster l p rs relay (l.owners ++ Line.owned p c₀) spot spot' := by
  cases hon with
  | entering he =>
    obtain ⟨place', he', hshift⟩ := he.move hm hinit hclosed
    exact ⟨_, .entering he', hshift⟩
  | @sending i _ _ hopen hlt hs =>
    have hopen' : l.traffic.relay.isClosed conn = false := hconn conn (by cases party <;> rfl)
    obtain ⟨begun', hs', hshift⟩ := hs.move hm (hsaid i) (hclosed.trans hopen) hopen'
    exact ⟨_, .sending hopen hlt hs', hshift⟩
  | departing hopen hd =>
    obtain ⟨place', hd', hshift⟩ := hd.move hm
    exact ⟨_, .departing hopen hd', hshift⟩

end

end Lockstep.Scenario
