import Lockstep.Proofs.Barrier.Outcomes
import Lockstep.Proofs.Inbox
import Lockstep.Proofs.Scenario.Progress
import Lockstep.Proofs.Scenario.Scripted

/-!
# What becomes of a participant on a scripted medium

`mishap?` says what goes wrong for a participant in a phase, if anything does, by the configuration
and the behaviour of the medium alone; the first mishap decides what the participant does at the
barrier (`scriptOf`). `OnScript` is where a participant stands in its script, one constructor a
stage. Each turn keeps it (`OnScript.turn`), whenever time-outs expire: what a server is handed is
all there before it verifies.
-/

set_option autoImplicit false

namespace Lockstep.Scenario

open Medium Barrier History

/-- How a phase goes wrong for a participant. -/
inductive Mishap where
  | failed (e : ParticipantError)
  /-- The participant ends there, its handle dropped. -/
  | killed
  deriving Repr, DecidableEq

def Mishap.ending : Mishap → Ending ParticipantError
  | .failed e => .exit (some e)
  | .killed => .drop

def Outcome.mishap? (error : RelayError → ParticipantError) : Outcome → Option Mishap
  | .succeeds => none
  | .fails e => some (.failed (error e))
  | .dies => some .killed

/-- How many deliveries a server waits for. -/
def Config.wanted (c : Config) : Nat := c.expectedDeliveries.toOption.getD 0

def errorOf : Except ParticipantError Unit → Option ParticipantError
  | .ok () => none
  | .error e => some e

/-- How a participant ends that gives up its connection or service with this outcome. -/
def leaving (outcome : Outcome) (error : Option ParticipantError) : Ending ParticipantError :=
  if outcome = .dies then .drop else .exit error

/-- What goes wrong in a phase for the participant `p`, which is `party`. A server ends in startup if
there is no room for the deliveries it expects. -/
def mishap? (c : Config) (b : Behaviour) (p : Nat) (party : Party) : Phase → Option Mishap
  | .startup =>
    match party with
    | .client _ => (b.connect p).mishap? .connect
    | .server _ =>
      match Run.serverInbox c with
      | .ok _ => (b.register p).mishap? .register
      | .error _ => some .killed
  | .broadcasting =>
    (List.range c.messages).findSome? fun i =>
      (b.broadcast p (Message.bytes ⟨party, i⟩)).mishap? (Run.broadcastError party)
  | .verification =>
    match party with
    | .client _ => none
    | .server _ =>
      if b.unregister p = .dies then some .killed
      else (errorOf (Verifier.verify c { wanted := c.wanted } (b.handed p))).map .failed

/-- What the participant does at the barrier: it syncs after the phases before its first mishap. -/
def scriptOf (c : Config) (b : Behaviour) (p : Nat) (party : Party) : Script ParticipantError :=
  (Phase.all.findSome? fun phase =>
    (mishap? c b p party phase).map fun m => ⟨phase.index, m.ending⟩).getD ⟨2, .exit none⟩

/-- What has been handed to a server waits in its inbox as far as there is room. -/
def Supplied (c : Config) (b : Behaviour) (s : Scripted) (p : Nat) (x : Participant) : Prop :=
  ∀ j, x.party = .server j → ∃ got rest, b.handed p = got ++ rest ∧ s.rest? p = some rest ∧
    Inbox.Holds c.wanted got 0 x.inbox

/-- Nothing is left to be handed to a server. -/
def AllHanded (s : Scripted) (p : Nat) (x : Participant) : Prop :=
  ∀ j, x.party = .server j → s.rest? p = some []

/-- The participant has been through startup. -/
structure Entered (c : Config) (b : Behaviour) (s : Scripted) (p : Nat) (x : Participant) :
    Prop where
  well : mishap? c b p x.party .startup = none
  supplied : Supplied c b s p x

/-- The participant has been through startup, or through broadcasting as well. -/
structure Through (c : Config) (b : Behaviour) (s : Scripted) (p : Nat) (x : Participant)
    (first : Bool) : Prop where
  entered : Entered c b s p x
  sent : first = false → AllHanded s p x ∧ mishap? c b p x.party .broadcasting = none

/-- Where the participant `p` stands in its script. -/
inductive OnScript (c : Config) (b : Behaviour) (h : History ParticipantError) (s : Scripted)
    (p : Nat) (x : Participant) : Stage → Prop
  | enter : s.pending? p = none → s.rest? p = none → OnScript c b h s p x .enter
  | entering {outcome} : s.pending? p = some ⟨p, outcome, false⟩ →
      mishap? c b p x.party .startup = outcome.mishap? (Run.enterError x.party) →
      (outcome = .succeeds → Supplied c b s p x) → OnScript c b h s p x .entering
  | arrive {first} : s.pending? p = none → Through c b s p x first →
      OnScript c b h s p x (.arrive first)
  | blocked {first k} : s.pending? p = none → Through c b s p x first →
      OnScript c b h s p x (.blocked first k)
  | send {i} : s.pending? p = none → Entered c b s p x → (i ≠ 0 → AllHanded s p x) →
      (∀ k < i, b.broadcast p (Message.bytes ⟨x.party, k⟩) = .succeeds) →
      OnScript c b h s p x (.send i)
  | sending {i} :
      s.pending? p = some ⟨p, b.broadcast p (Message.bytes ⟨x.party, i⟩), true⟩ →
      Entered c b s p x → i < c.messages →
      (∀ k < i, b.broadcast p (Message.bytes ⟨x.party, k⟩) = .succeeds) →
      OnScript c b h s p x (.sending i)
  | verify {v j} : s.pending? p = none → x.party = .server j → s.rest? p = some [] →
      scriptOf c b p x.party =
        ⟨2, leaving (b.unregister p) (errorOf (v.verify c x.inbox.items.toList))⟩ →
      OnScript c b h s p x (.verify v)
  | depart {error verified} : s.pending? p = none → scriptOf c b p x.party =
        ⟨h.syncs p, leaving (Scripted.outcome b p (Run.departure x verified)) error⟩ →
      OnScript c b h s p x (.depart error verified)
  | departing {error outcome} : s.pending? p = some ⟨p, outcome, false⟩ →
      scriptOf c b p x.party = ⟨h.syncs p, leaving outcome error⟩ →
      OnScript c b h s p x (.departing error)
  | finish {error} : scriptOf c b p x.party = ⟨h.syncs p, .exit error⟩ →
      OnScript c b h s p x (.finish error)
  | ended {error} : scriptOf c b p x.party = ⟨h.syncs p, .exit error⟩ →
      (∀ e, .exited p e ∈ h ↔ e = error) → OnScript c b h s p x .ended
  | dead : scriptOf c b p x.party = ⟨h.syncs p, .drop⟩ → OnScript c b h s p x .dead

variable {c : Config} {b : Behaviour} {h es : History ParticipantError} {s s' : Scripted} {p : Nat}
  {x x' : Participant} {party : Party} {phase : Phase} {r : Run Scripted} {n : Nat}

/-! ## What the first mishap decides -/

theorem scriptOf_of_mishap {m : Mishap} (hm : mishap? c b p party phase = some m)
    (hwell : ∀ earlier : Phase, earlier.index < phase.index → mishap? c b p party earlier = none) :
    scriptOf c b p party = ⟨phase.index, m.ending⟩ := by
  cases phase with
  | startup => simp [scriptOf, Phase.all, hm]
  | broadcasting => simp [scriptOf, Phase.all, hwell .startup (by decide), hm]
  | verification =>
    simp [scriptOf, Phase.all, hwell .startup (by decide), hwell .broadcasting (by decide), hm]

theorem scriptOf_of_none (hwell : ∀ phase, mishap? c b p party phase = none) :
    scriptOf c b p party = ⟨2, .exit none⟩ := by
  simp [scriptOf, Phase.all, hwell]

theorem mishap?_broadcasting_eq_some {i : Nat} {m : Mishap} (hlt : i < c.messages)
    (hsent : ∀ k < i, b.broadcast p (Message.bytes ⟨party, k⟩) = .succeeds)
    (hm : (b.broadcast p (Message.bytes ⟨party, i⟩)).mishap? (Run.broadcastError party) = some m) :
    mishap? c b p party .broadcasting = some m := by
  obtain ⟨d, hd⟩ : ∃ d, c.messages = i + (d + 1) := ⟨c.messages - i - 1, by omega⟩
  rw [mishap?, hd, List.range_add, List.range_succ_eq_map, List.map_cons,
    List.findSome?_eq_some_iff]
  refine ⟨_, i, _, rfl, hm, fun k hk => ?_⟩
  rw [hsent k (List.mem_range.1 hk)]
  rfl

theorem mishap?_broadcasting_eq_none
    (hsent : ∀ k < c.messages, b.broadcast p (Message.bytes ⟨party, k⟩) = .succeeds) :
    mishap? c b p party .broadcasting = none := by
  rw [mishap?, List.findSome?_eq_none_iff]
  intro k hk
  rw [hsent k (List.mem_range.1 hk)]
  rfl

/-- Where nothing went wrong before, verification and its end decide. -/
theorem scriptOf_server {j : Nat} (hstartup : mishap? c b p (.server j) .startup = none)
    (hbroadcasting : mishap? c b p (.server j) .broadcasting = none) :
    scriptOf c b p (.server j) = ⟨2, leaving (b.unregister p)
      (errorOf (Verifier.verify c { wanted := c.wanted } (b.handed p)))⟩ := by
  have hwell (earlier : Phase) (hlt : earlier.index < 2) :
      mishap? c b p (.server j) earlier = none := by
    cases earlier with
    | startup => exact hstartup
    | broadcasting => exact hbroadcasting
    | verification => exact absurd hlt (Nat.lt_irrefl 2)
  by_cases hdies : b.unregister p = .dies
  · have hm : mishap? c b p (.server j) .verification = some .killed := by simp [mishap?, hdies]
    rw [leaving, if_pos hdies]
    exact scriptOf_of_mishap hm hwell
  · rw [leaving, if_neg hdies]
    cases hverify : errorOf (Verifier.verify c { wanted := c.wanted } (b.handed p)) with
    | some e =>
      have hm : mishap? c b p (.server j) .verification = some (.failed e) := by
        simp [mishap?, hdies, hverify]
      exact scriptOf_of_mishap hm hwell
    | none =>
      refine scriptOf_of_none fun phase => ?_
      cases phase with
      | startup => exact hstartup
      | broadcasting => exact hbroadcasting
      | verification => simp [mishap?, hdies, hverify]

/-- A mishap of who has not synced yet. -/
theorem scriptOf_of_startup {m : Mishap} (hm : mishap? c b p party .startup = some m)
    (hsyncs : h.syncs p = 0) : scriptOf c b p party = ⟨h.syncs p, m.ending⟩ := by
  rw [hsyncs]
  exact scriptOf_of_mishap hm nofun

/-- A mishap of who broadcasts. -/
theorem scriptOf_of_sending {m : Mishap} {i : Nat} (hlt : i < c.messages)
    (hsent : ∀ k < i, b.broadcast p (Message.bytes ⟨party, k⟩) = .succeeds)
    (hm : (b.broadcast p (Message.bytes ⟨party, i⟩)).mishap? (Run.broadcastError party) = some m)
    (hstartup : mishap? c b p party .startup = none) (hsyncs : h.syncs p = 1) :
    scriptOf c b p party = ⟨h.syncs p, m.ending⟩ := by
  rw [hsyncs]
  refine scriptOf_of_mishap (mishap?_broadcasting_eq_some hlt hsent hm) fun earlier hearlier => ?_
  cases earlier with
  | startup => exact hstartup
  | broadcasting | verification => exact absurd hearlier (by decide)

theorem Stage.ofVerdict_eq (verdict : Except ParticipantError Unit) :
    Stage.ofVerdict verdict = .depart (errorOf verdict) true := by
  cases verdict <;> rfl

theorem outcome_of_ok {outcome : Outcome} {conn : Nat}
    (hreply : .ok conn = Scripted.reply p outcome) : outcome = .succeeds := by
  cases outcome with
  | succeeds => rfl
  | fails | dies => cases hreply

theorem outcome_of_failed {outcome : Outcome} {e : RelayError}
    (hreply : .failed e = Scripted.reply p outcome) : outcome = .fails e := by
  cases outcome with
  | fails =>
    cases hreply
    rfl
  | succeeds | dies => cases hreply

theorem outcome_of_died {outcome : Outcome}
    (hreply : .died = Scripted.reply p outcome) : outcome = .dies := by
  cases outcome with
  | dies => rfl
  | succeeds | fails => cases hreply

/-! ## What a server is handed -/

theorem eq_of_serverInbox {inbox : Inbox Payload} (hinbox : Run.serverInbox c = .ok inbox) :
    inbox = { room := c.wanted } := by
  rw [Run.serverInbox] at hinbox
  cases hN : c.expectedDeliveries with
  | error fault =>
    rw [hN] at hinbox
    cases hinbox
  | ok N =>
    rw [hN] at hinbox
    rw [Config.wanted, hN]
    exact (Inbox.ofCapacity_eq_ok_iff.1 hinbox).2

theorem Supplied.congr (hsupplied : Supplied c b s p x) (hrest : s'.rest? p = s.rest? p)
    (hparty : x'.party = x.party) (hinbox : x'.inbox = x.inbox) : Supplied c b s' p x' := by
  intro j hj
  rw [hrest, hinbox]
  exact hsupplied j (hparty ▸ hj)

theorem AllHanded.congr (hall : AllHanded s p x) (hrest : s'.rest? p = s.rest? p)
    (hparty : x'.party = x.party) : AllHanded s' p x' := by
  intro j hj
  rw [hrest]
  exact hall j (hparty ▸ hj)

theorem Entered.congr (he : Entered c b s p x) (hrest : s'.rest? p = s.rest? p)
    (hparty : x'.party = x.party) (hinbox : x'.inbox = x.inbox) : Entered c b s' p x' where
  well := hparty ▸ he.well
  supplied := he.supplied.congr hrest hparty hinbox

theorem Through.congr {first : Bool} (ht : Through c b s p x first)
    (hrest : s'.rest? p = s.rest? p) (hparty : x'.party = x.party) (hinbox : x'.inbox = x.inbox) :
    Through c b s' p x' first where
  entered := ht.entered.congr hrest hparty hinbox
  sent hfirst := ⟨(ht.sent hfirst).1.congr hrest hparty, hparty ▸ (ht.sent hfirst).2⟩

theorem Supplied.handed {m : Payload} {rest : List Payload} (hsupplied : Supplied c b s p x)
    (hrest : s.rest? p = some (m :: rest)) (hrest' : s'.rest? p = some rest) :
    Supplied c b s' p { x with inbox := x.inbox.offer m } := by
  intro j hj
  obtain ⟨got, rest', hhanded, hsome, hholds⟩ := hsupplied j hj
  rw [hrest, Option.some.injEq] at hsome
  subst hsome
  refine ⟨got ++ [m], rest, ?_, hrest', hholds.offer m⟩
  rw [hhanded, List.append_assoc, List.singleton_append]

theorem Entered.handed {m : Payload} {rest : List Payload} (he : Entered c b s p x)
    (hrest : s.rest? p = some (m :: rest)) (hrest' : s'.rest? p = some rest) :
    Entered c b s' p { x with inbox := x.inbox.offer m } :=
  ⟨he.well, he.supplied.handed hrest hrest'⟩

/-- A server that has been handed everything is not handed more. -/
theorem AllHanded.handed {m : Payload} {rest : List Payload} (hall : AllHanded s p x)
    (hrest : s.rest? p = some (m :: rest)) :
    AllHanded s' p { x with inbox := x.inbox.offer m } := by
  intro j hj
  have hnil := hall j hj
  rw [hrest] at hnil
  cases hnil

/-- The reply to a broadcast comes when everything has been handed over. -/
theorem Supplied.allHanded (hsupplied : Supplied c b s p x) (hhanded : s.isHanded p = true) :
    AllHanded s p x := by
  intro j hj
  obtain ⟨got, rest, -, hrest, -⟩ := hsupplied j hj
  have hempty : rest.isEmpty = true := by
    rw [Scripted.isHanded, show s.left.lookup p = some rest from hrest] at hhanded
    exact hhanded
  rw [hrest, List.isEmpty_iff.1 hempty]

/-- Then the inbox has all of it for which there is room. -/
theorem Supplied.inbox {j : Nat} (hsupplied : Supplied c b s p x) (hall : AllHanded s p x)
    (hj : x.party = .server j) : x.inbox.items.toList = (b.handed p).take c.wanted := by
  obtain ⟨got, rest, hhanded, hrest, hholds⟩ := hsupplied j hj
  rw [hall j hj, Option.some.injEq] at hrest
  rw [hholds.toList_eq_take rfl, hhanded, ← hrest, List.append_nil]

/-! ## Where a participant goes on -/

/-- A server stands where its verification ends. -/
theorem OnScript.ofVerdict {j : Nat} {verdict : Except ParticipantError Unit}
    (hnone : s.pending? p = none) (hparty : x.party = .server j) (hsyncs : h.syncs p = 2)
    (hscript : scriptOf c b p x.party = ⟨2, leaving (b.unregister p) (errorOf verdict)⟩)
    (inbox : Inbox Payload) :
    OnScript c b h s p { x with inbox, stage := .ofVerdict verdict } (.ofVerdict verdict) := by
  have hdeparture : Run.departure { x with inbox, stage := .ofVerdict verdict } true =
      .unregister x.conn := by
    simp only [Run.departure, hparty]
    rfl
  rw [Stage.ofVerdict_eq verdict] at hdeparture ⊢
  refine .depart hnone ?_
  rw [hdeparture, hsyncs]
  exact hscript

/-- After broadcasting, a client leaves and a server verifies what waits in its inbox. -/
theorem OnScript.resumed {k : Nat} (hnone : s.pending? p = none) (hf : Fits h p (.blocked false k))
    (ht : Through r.config b s p x false) : OnScript r.config b h s p
      { x with stage := r.afterPhase x.party false } (r.afterPhase x.party false) := by
  obtain ⟨hall, hsent⟩ := ht.sent rfl
  have hwell := ht.entered.well
  have hsupplied := ht.entered.supplied
  obtain ⟨-, hsyncs, hk⟩ := hf.of_blocked
  obtain ⟨party, stage, conn, inbox⟩ := x
  cases party with
  | client i =>
    have hscript : scriptOf r.config b p (.client i) = ⟨2, .exit none⟩ := by
      refine scriptOf_of_none fun phase => ?_
      cases phase with
      | startup => exact hwell
      | broadcasting => exact hsent
      | verification => rfl
    refine .depart hnone ?_
    rw [hsyncs, hk]
    exact hscript
  | server j =>
    refine .verify hnone rfl (hall j rfl) ?_
    have hinbox : inbox.items.toList = (b.handed p).take r.config.wanted :=
      hsupplied.inbox hall rfl
    rw [show Participant.inbox _ = inbox from rfl, hinbox]
    exact (scriptOf_server hwell hsent).trans
      (by rw [← Verifier.verify_take { wanted := r.config.wanted } (b.handed p)]; rfl)

theorem OnScript.handed {stage : Stage} {m : Payload} {rest : List Payload}
    (hon : OnScript c b h s p x stage)
    (hrest : s.rest? p = some (m :: rest)) (hrest' : s'.rest? p = some rest)
    (hpending : s'.pending? p = s.pending? p) :
    OnScript c b h s' p { x with inbox := x.inbox.offer m } stage := by
  rw [eq_comm] at hpending
  cases hon with
  | enter _ hnone =>
    rw [hrest] at hnone
    cases hnone
  | entering hsome hwell hsupplied =>
    exact .entering (hpending ▸ hsome) hwell fun hok => (hsupplied hok).handed hrest hrest'
  | arrive hnone ht =>
    exact .arrive (hpending ▸ hnone) ⟨ht.entered.handed hrest hrest',
      fun hfirst => ⟨(ht.sent hfirst).1.handed hrest, (ht.sent hfirst).2⟩⟩
  | blocked hnone ht =>
    exact .blocked (hpending ▸ hnone) ⟨ht.entered.handed hrest hrest',
      fun hfirst => ⟨(ht.sent hfirst).1.handed hrest, (ht.sent hfirst).2⟩⟩
  | send hnone he hall hsent =>
    exact .send (hpending ▸ hnone) (he.handed hrest hrest') (fun hi => (hall hi).handed hrest) hsent
  | sending hsome he hlt hsent =>
    exact .sending (hpending ▸ hsome) (he.handed hrest hrest') hlt hsent
  | verify _ _ hnil =>
    rw [hrest] at hnil
    cases hnil
  | depart hnone hscript => exact .depart (hpending ▸ hnone) hscript
  | departing hsome hscript => exact .departing (hpending ▸ hsome) hscript
  | finish hscript => exact .finish hscript
  | ended hscript hexited => exact .ended hscript hexited
  | dead hscript => exact .dead hscript

theorem OnScript.rest {stage : Stage} (hon : OnScript c b h s p x stage)
    (hes : ∀ e ∈ es, e.participant? ≠ some p)
    (hrest : s'.rest? p = s.rest? p) (hpending : s'.pending? p = s.pending? p) :
    OnScript c b (es ++ h) s' p x stage := by
  have hsyncs : syncs p (es ++ h) = h.syncs p := syncs_append_of_ne hes
  cases hon with
  | enter hnone hnil => exact .enter (hpending.trans hnone) (hrest.trans hnil)
  | entering hsome hwell hsupplied =>
    exact .entering (hpending.trans hsome) hwell fun hok => (hsupplied hok).congr hrest rfl rfl
  | arrive hnone ht => exact .arrive (hpending.trans hnone) (ht.congr hrest rfl rfl)
  | blocked hnone ht => exact .blocked (hpending.trans hnone) (ht.congr hrest rfl rfl)
  | send hnone he hall hsent =>
    exact .send (hpending.trans hnone) (he.congr hrest rfl rfl)
      (fun hi => (hall hi).congr hrest rfl) hsent
  | sending hsome he hlt hsent =>
    exact .sending (hpending.trans hsome) (he.congr hrest rfl rfl) hlt hsent
  | verify hnone hparty hnil hscript =>
    exact .verify (hpending.trans hnone) hparty (hrest.trans hnil) hscript
  | depart hnone hscript => exact .depart (hpending.trans hnone) (hsyncs ▸ hscript)
  | departing hsome hscript => exact .departing (hpending.trans hsome) (hsyncs ▸ hscript)
  | finish hscript => exact .finish (hsyncs ▸ hscript)
  | ended hscript hexited =>
    exact .ended (hsyncs ▸ hscript) fun e => (exited_mem_append_of_ne hes).trans (hexited e)
  | dead hscript => exact .dead (hsyncs ▸ hscript)

/-! ## The turns of a participant -/

section
variable (hon : OnScript c b h s p x x.stage)
include hon

theorem OnScript.ask {q : Request} (hbehaviour : s.behaviour = b) (ha : Asks c x q x') :
    OnScript c b h (s.ask p q) p x' x'.stage := by
  subst hbehaviour
  have hrest (hne : q ≠ .register) : (s.ask p q).rest? p = s.rest? p := by
    simp [Scripted.rest?_ask, hne]
  cases ha with
  | connect hparty hstage =>
    rw [hstage] at hon
    cases hon with
    | enter hnone =>
      have hpending : (s.ask p .connect).pending? p = some ⟨p, s.behaviour.connect p, false⟩ :=
        Scripted.pending?_ask hnone
      refine .entering hpending ?_ ?_
      · simp only [mishap?, hparty]
        rfl
      · intro _ j hj
        simp [hparty] at hj
  | register hparty hstage hinbox =>
    rw [hstage] at hon
    cases hon with
    | enter hnone hrest =>
      have hpending : (s.ask p .register).pending? p = some ⟨p, s.behaviour.register p, false⟩ :=
        Scripted.pending?_ask hnone
      refine .entering hpending ?_ ?_
      · simp only [mishap?, hparty, hinbox]
        rfl
      · intro hok j hj
        obtain rfl := eq_of_serverInbox hinbox
        refine ⟨[], s.behaviour.handed p, rfl, ?_, Inbox.holds_empty _⟩
        rw [Scripted.rest?_ask, hrest, if_pos ⟨rfl, hok⟩]
        rfl
  | broadcast hstage hlt =>
    rw [hstage] at hon
    cases hon with
    | send hnone he _ hsent =>
      exact .sending (Scripted.pending?_ask hnone) (he.congr (hrest nofun) rfl rfl) hlt hsent
  | @depart error verified hstage =>
    rw [hstage] at hon
    have hpending (hnone : s.pending? p = none) : (s.ask p (Run.departure x verified)).pending? p = _ :=
      Scripted.isBroadcast_departure x verified ▸
        Scripted.pending?_ask hnone
    cases hon with
    | depart hnone hscript => exact .departing (hpending hnone) hscript

/-- Who is killed while it waits for a reply was to be killed in this phase. -/
theorem OnScript.script_of_died {pending : Pending} (hf : Fits h p x.stage)
    (hawaits : x.stage.awaitsReply = true) (hpending : s.pending? p = some pending)
    (hreply : .died = Scripted.reply p pending.outcome) :
    scriptOf c b p x.party = ⟨h.syncs p, .drop⟩ := by
  have hdies := outcome_of_died hreply
  generalize x.stage = stage at hon hf hawaits
  cases hon with
  | entering hsome hwell =>
    obtain rfl := Option.some.inj (hsome.symm.trans hpending)
    subst hdies
    exact scriptOf_of_startup hwell hf.syncs_entering
  | sending hsome he hlt hsent =>
    obtain rfl := Option.some.inj (hsome.symm.trans hpending)
    have hm := congrArg (Outcome.mishap? (Run.broadcastError x.party)) hdies
    exact scriptOf_of_sending hlt hsent hm he.well hf.syncs_sending
  | departing hsome hscript =>
    obtain rfl := Option.some.inj (hsome.symm.trans hpending)
    subst hdies
    exact hscript
  | _ => cases hawaits

theorem OnScript.hear {reply : Reply} (hf : Fits h p x.stage)
    (hr : s.reply? p = some (reply, s')) (hh : Hears x reply x') :
    OnScript c b h s' p x' x'.stage := by
  obtain ⟨pending, hpending, hhanded, hreply, rfl⟩ := Scripted.reply?_eq_some_iff.1 hr
  have hnone := Scripted.pending?_filter (p := p) s.pending
  cases hh with
  | entered hstage =>
    rw [hstage] at hon
    cases hon with
    | entering hsome hwell hsupplied =>
      obtain rfl := Option.some.inj (hsome.symm.trans hpending)
      obtain rfl := outcome_of_ok hreply
      exact .arrive hnone ⟨⟨hwell, (hsupplied rfl).congr rfl rfl rfl⟩, nofun⟩
  | refused hstage =>
    rw [hstage] at hon hf
    cases hon with
    | entering hsome hwell =>
      obtain rfl := Option.some.inj (hsome.symm.trans hpending)
      obtain rfl := outcome_of_failed hreply
      exact .finish (scriptOf_of_startup hwell hf.syncs_entering)
  | @sent i conn hstage =>
    rw [hstage] at hon
    cases hon with
    | sending hsome he hlt hsent =>
      obtain rfl := Option.some.inj (hsome.symm.trans hpending)
      refine .send hnone (he.congr rfl rfl rfl) (fun _ => ?_) (fun k hk => ?_)
      · exact (he.supplied.allHanded (hhanded rfl)).congr rfl rfl
      · rcases Nat.lt_succ_iff_lt_or_eq.1 hk with hk | rfl
        · exact hsent k hk
        · exact outcome_of_ok hreply
  | @notSent i e hstage =>
    rw [hstage] at hon hf
    cases hon with
    | sending hsome he hlt hsent =>
      obtain rfl := Option.some.inj (hsome.symm.trans hpending)
      have hm := congrArg (Outcome.mishap? (Run.broadcastError x.party)) (outcome_of_failed hreply)
      have hscript := scriptOf_of_sending hlt hsent hm he.well hf.syncs_sending
      cases hparty : x.party with
      | client =>
        rw [hparty] at hscript
        exact .finish hscript
      | server =>
        rw [hparty] at hscript
        exact .depart hnone hscript
  | departed hstage hne =>
    rw [hstage] at hon
    cases hon with
    | departing hsome hscript =>
      obtain rfl := Option.some.inj (hsome.symm.trans hpending)
      refine .finish ?_
      rw [hscript, leaving, if_neg]
      rintro rfl
      exact hne hreply
  | died hawaits => exact .dead (hon.script_of_died hf hawaits hpending hreply)

theorem OnScript.work (hf : Fits h p x.stage) (hmessages : r.config.messages ≠ 0)
    (hconfig : r.config = c) (hw : Works r x x') : OnScript c b h s p x' x'.stage := by
  subst hconfig
  cases hw with
  | noRoom hparty hstage hinbox =>
    rw [hstage] at hf
    refine .dead (scriptOf_of_startup (m := .killed) ?_ hf.syncs_enter)
    simp only [mishap?, hparty, hinbox]
  | @resume first reached hstage hdue =>
    rw [hstage] at hon hf
    cases hon with
    | blocked hnone ht =>
      cases first with
      | true =>
        exact .send hnone (ht.entered.congr rfl rfl rfl) (fun hne => absurd rfl hne)
          fun k hk => absurd hk (Nat.not_lt_zero k)
      | false =>
        exact .resumed hnone hf ht
  | @sentAll i hstage hle =>
    rw [hstage] at hon
    cases hon with
    | send hnone he hall hsent =>
      refine .arrive hnone ⟨he.congr rfl rfl rfl, fun _ => ⟨?_, ?_⟩⟩
      · exact (hall (by omega)).congr rfl rfl
      · exact mishap?_broadcasting_eq_none fun k hk => hsent k (by omega)
  | conclude hstage hwanted =>
    rw [hstage] at hon hf
    cases hon with
    | verify hnone hparty _ hscript =>
      rw [Verifier.verify_of_wanted hwanted] at hscript
      exact .ofVerdict hnone hparty hf.syncs_verify hscript _
  | accept hstage hwanted hm ha =>
    rw [hstage] at hon
    cases hon with
    | verify hnone hparty hrest hscript =>
      refine .verify hnone hparty hrest ?_
      rw [Inbox.toList_eq_of_receive? hm, Verifier.verify_of_accept hwanted ha] at hscript
      exact hscript
  | reject hstage hwanted hm ha =>
    rw [hstage] at hon hf
    cases hon with
    | verify hnone hparty _ hscript =>
      rw [Inbox.toList_eq_of_receive? hm, Verifier.verify_of_reject hwanted ha] at hscript
      exact .ofVerdict hnone hparty hf.syncs_verify hscript _

/-- A turn of the participant keeps it in its script. -/
theorem OnScript.turn {a : Run.Label Nat} (hf : Fits h p x.stage) (hp : Pace n h r.barrier)
    (hconfig : r.config = c) (hmessages : c.messages ≠ 0) (hbehaviour : r.medium.behaviour = b)
    (hmedium : r.medium = s) (hturn : Run.Turn scripted r p x a es x' s') :
    OnScript c b (es ++ h) s' p x' x'.stage := by
  subst hmedium
  cases hturn with
  | ask ha => exact hon.ask hbehaviour (hconfig ▸ ha)
  | hear hr hh => exact hon.hear hf hr hh
  | work hw => exact hon.work hf (hconfig ▸ hmessages) hconfig hw
  | sync hstage =>
    rw [hstage] at hon
    cases hon with
    | arrive hnone ht => exact .blocked hnone (ht.congr rfl rfl rfl)
  | refused hstage hs =>
    rw [hstage] at hf
    exact (hf.not_refused hp hs).elim
  | exit hstage =>
    rw [hstage] at hon hf
    have hnot : ∀ e, .exited p e ∉ h := fun e he => (hf.of_going rfl).1 ⟨e, he⟩
    cases hon with
    | finish hscript =>
      refine .ended hscript fun e => ?_
      simp [hnot]
  | miss hstage hwanted hempty =>
    rw [hstage] at hon hf
    cases hon with
    | verify hnone hparty _ hscript =>
      rw [hempty, Verifier.verify_nil hwanted] at hscript
      exact .ofVerdict hnone hparty hf.syncs_verify hscript _
  | handed hs =>
    obtain ⟨m, rest, hrest, hhandover, rfl⟩ := Scripted.step_eq_some_iff.1 hs
    cases hhandover
    exact hon.handed hrest ((Scripted.rest?_step hrest).trans (if_pos rfl)) rfl
  | rest hes hforeign =>
    obtain ⟨hpending, hrest⟩ := Scripted.of_foreign hforeign
    exact hon.rest hes hrest hpending

end

end Lockstep.Scenario
