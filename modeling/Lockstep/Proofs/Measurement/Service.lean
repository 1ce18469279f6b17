import Mathlib.Logic.Function.Basic
import Lockstep.Proofs.Measurement.Progress
import Lockstep.Proofs.Scenario.Consecutive

/-!
# A service that several callers use

On a relay that nobody else uses, the caller 0 registers a service. Callers broadcast on its
connection, and in the end the caller 0 unregisters it. `OnErrand` says where a call can stand that is
part of this, and which `Tenure` the service has then; `Tenant` what the history and the relay say of a
service with this tenure; and `Hosts` adds what is known of the calls, of the messages that were
broadcast and of the handlers.

What the callers ask for (`Hosts.ask`), what they hear (`Hosts.reply`) and what the relay does by itself
(`Hosts.steps`) keeps it. So the other members stay, and where no call is under way they have been
handed what was said (`Hosts.recorded_eq`).
-/

set_option autoImplicit false

namespace Lockstep.Relay

open Medium
open Scenario (Idle Flow)

/-- Where a service stands. -/
inductive Tenure where
  /-- It has no number yet. -/
  | absent
  | numbered
  /-- Its handler is initialised. -/
  | ready
  | member
  /-- It was removed from the members. -/
  | leaving
  /-- Nothing is left for its handler. -/
  | gone

/-- How many numbers it has. -/
def Tenure.numbers : Tenure → Nat
  | .absent => 0
  | .numbered | .ready | .member | .leaving | .gone => 1

/-- The members that it adds, if its number is `n`. -/
def Tenure.members (n : Nat) : Tenure → List Nat
  | .member => [n]
  | .absent | .numbered | .ready | .leaving | .gone => []

/-- It has a connection that is open. -/
def Tenure.isOpen : Tenure → Bool
  | .numbered | .ready | .member => true
  | .absent | .leaving | .gone => false

/-- It was no member yet. -/
def Tenure.isEarly : Tenure → Bool
  | .absent | .numbered | .ready => true
  | .member | .leaving | .gone => false

/-- It is known whose handler it has. -/
def Tenure.isOwned : Tenure → Bool
  | .absent | .numbered => false
  | .ready | .member | .leaving | .gone => true

/-- What a caller is about. -/
inductive Errand where
  | joining
  | broadcasting
  | leaving

/-- The service comes or goes by it. -/
def Errand.changes : Errand → Bool
  | .joining | .leaving => true
  | .broadcasting => false

/-- Where a call on this errand stands, on a relay that is closed or not, and the service `n` with
it. -/
inductive OnErrand (closed : Bool) (cluster : String) (n : Nat) : Errand → Call → Tenure → Prop
  | ask : OnErrand closed cluster n .joining (.ask (some cluster)) .absent
  | takeId : closed = false → OnErrand closed cluster n .joining (.takeId (some cluster)) .absent
  | initialise : closed = false → OnErrand closed cluster n .joining (.initialise cluster n) .numbered
  | insert : closed = false → OnErrand closed cluster n .joining (.insert cluster n) .ready
  | joined : closed = false → OnErrand closed cluster n .joining (.over (.ok (some n))) .member
  | refused : closed = true →
      OnErrand closed cluster n .joining (.over (.error .relayClosed)) .absent
  | broadcast {m} : closed = false →
      OnErrand closed cluster n .broadcasting (.broadcast n cluster m) .member
  | askBroadcast {m} : closed = false →
      OnErrand closed cluster n .broadcasting (.askBroadcast cluster m) .member
  | lock {m} : closed = false → OnErrand closed cluster n .broadcasting (.lock cluster m) .member
  | walk {m left} : closed = false →
      OnErrand closed cluster n .broadcasting (.walk cluster m left) .member
  | sent : closed = false → OnErrand closed cluster n .broadcasting (.over (.ok none)) .member
  | remove : closed = false → OnErrand closed cluster n .leaving (.remove cluster n) .member
  | sweep : closed = false → OnErrand closed cluster n .leaving (.sweep cluster n) .leaving
  | hangUp : closed = false → OnErrand closed cluster n .leaving (.hangUp n) .leaving
  | join : closed = false → OnErrand closed cluster n .leaving (.join n) .leaving
  | left : closed = false → OnErrand closed cluster n .leaving (.over (.ok none)) .gone

/-- What the history and the relay say of the service `n`, which is registered after `H₀`. -/
structure Tenant (cluster : String) (n : Nat) (H₀ H : History) (relay : Relay) (tenure : Tenure) :
    Prop where
  nextId : relay.nextId = n + tenure.numbers
  roster : ∀ other, H.roster other =
    H₀.roster other ++ if other = cluster then tenure.members n else []
  opened : tenure.isOpen = true → relay.isClosed n = false
  unborn : tenure.isEarly = true → ∀ other, .inserted other n ∉ H
  /-- Nobody else was registered. -/
  born : ∀ other id, .inserted other id ∈ H → id ≠ n → .inserted other id ∈ H₀
  /-- Who was a member before is sent what the service is sent, and all others nothing. -/
  sent : ∀ other id, id ≠ n → H.sent other id =
    H₀.sent other id ++ if other = cluster ∧ id ∈ H₀.roster cluster then H.sent cluster n else []
  left : tenure = .gone → .left n ∈ H

/-- The message that the call is yet to begin to hand to the members. -/
def Call.unbegun (k : Nat) : Call → List (Nat × Payload)
  | .broadcast _ _ m | .askBroadcast _ m | .lock _ m => [(k, m)]
  | _ => []

def Traffic.unbegun (t : Traffic) (k : Nat) : List (Nat × Payload) :=
  ((t.call? k).map (Call.unbegun k)).getD []

/-- While the service comes or goes nobody broadcasts. -/
def Apart (errand : Nat → Option Errand) : Prop :=
  (∀ k e, errand k = some e → e = .broadcasting) ∨ ∀ k, k ≠ 0 → errand k = none

/-- Who is on no errand has no call under way. -/
structure Calling (closed : Bool) (cluster : String) (n : Nat) (tenure : Tenure)
    (errand : Nat → Option Errand) (t : Traffic) : Prop where
  rest : ∀ k, errand k = none → t.call? k = none
  call : ∀ k e, errand k = some e → ∃ c, t.call? k = some c ∧ OnErrand closed cluster n e c tenure
  apart : Apart errand

/-- The line `l₀` with the history `H₀` has become `l`, on which callers are on these errands and have
broadcast what was `said`. -/
structure Hosts (cluster : String) (l₀ : Line) (H₀ H : History) (tenure : Tenure)
    (errand : Nat → Option Errand) (said : List (Nat × Payload)) (l : Line) : Prop where
  recorded : Recorded H l.traffic
  owned : H.Owned
  closed_eq : l.traffic.relay.closed = l₀.traffic.relay.closed
  added : ∃ E, H = E ++ H₀ ∧ ∀ id m, .panicked id m ∉ E
  tenant : Tenant cluster l₀.traffic.relay.nextId H₀ H l.traffic.relay tenure
  calling : Calling l₀.traffic.relay.closed cluster l₀.traffic.relay.nextId tenure errand l.traffic
  begun : ∀ k, (H.sent cluster l₀.traffic.relay.nextId).filter (·.1 == k) ++ l.traffic.unbegun k =
    said.filter (·.1 == k)
  owners : ∀ id p, l.owners.lookup id = some p →
    Settled H l.traffic id ∨ id = l₀.traffic.relay.nextId ∧ p = 0 ∧ tenure.isOwned = true
  owner : tenure.isOwned = true → l.owners.lookup l₀.traffic.relay.nextId = some 0

variable {closed : Bool} {cluster : String} {n k id : Nat} {H₀ H es : History} {relay : Relay}
  {tenure tenure' : Tenure} {e : Errand} {c c' : Call} {t u : Traffic} {a : Traffic.Label}
  {x : Option Call} {y : Option Errand}
  {l₀ l l' : Line} {errand : Nat → Option Errand} {said : List (Nat × Payload)} {m : Payload}
  {handover : Option Handover}

/-! ## The service -/

namespace Tenant

theorem calm (ht : Tenant cluster n H₀ H t.relay tenure) (hquiet : ∀ e ∈ es, e.isQuiet = true)
    (hnext : relay.nextId = t.relay.nextId)
    (hopen : tenure.isOpen = true → relay.isClosed n = t.relay.isClosed n) :
    Tenant cluster n H₀ (es ++ H) relay tenure where
  nextId := hnext.trans ht.nextId
  roster other := (History.roster_append_of_quiet hquiet).trans (ht.roster other)
  opened h := (hopen h).trans (ht.opened h)
  unborn h other hin := by
    rcases List.mem_append.1 hin with hin | hin
    · cases hquiet _ hin
    · exact ht.unborn h other hin
  born other id hin hne := by
    rcases List.mem_append.1 hin with hin | hin
    · cases hquiet _ hin
    · exact ht.born other id hin hne
  sent other id hne := by
    have hno : ∀ k cluster m, .began k cluster m ∉ es := fun k cluster m hm => by
      cases hquiet _ hm
    rw [History.sent_append_of_not_began hno, History.sent_append_of_not_began hno]
    exact ht.sent other id hne
  left h := List.mem_append_right _ (ht.left h)

theorem number (ht : Tenant cluster n H₀ H t.relay .absent) :
    Tenant cluster n H₀ H t.relay.newEndpoint .numbered where
  nextId := nextId_newEndpoint.trans (congrArg (· + 1) ht.nextId)
  roster := ht.roster
  opened _ := by
    have hnext : n = t.relay.nextId := ht.nextId.symm
    rw [isClosed_newEndpoint, if_pos hnext]
  unborn _ := ht.unborn rfl
  born := ht.born
  sent := ht.sent
  left := nofun

theorem initialise (ht : Tenant cluster n H₀ H t.relay .numbered) :
    Tenant cluster n H₀ H t.relay .ready :=
  ⟨ht.nextId, ht.roster, fun _ => ht.opened rfl, fun _ => ht.unborn rfl, ht.born, ht.sent, nofun⟩

theorem insert (ht : Tenant cluster n H₀ H t.relay .ready) :
    Tenant cluster n H₀ (.inserted cluster n :: H) (t.relay.insertMember cluster n) .member where
  nextId := (congrArg List.length endpoints_insertMember).trans ht.nextId
  roster other := by
    have hnot : n ∉ H.roster other := fun hm =>
      ht.unborn rfl other (History.inserted_of_mem_roster hm)
    have hroster := ht.roster other
    simp only [Tenure.members, ite_self, List.append_nil] at hroster
    rw [History.roster, if_neg hnot, hroster]
    by_cases heq : cluster = other
    · rw [if_pos heq, if_pos heq.symm, Tenure.members]
    · rw [if_neg heq, if_neg (Ne.symm heq), List.append_nil]
  opened _ := by
    rw [isClosed, endpoints_insertMember]
    exact ht.opened rfl
  unborn := nofun
  born other id hin hne := by
    rcases List.mem_cons.1 hin with heq | hin
    · cases heq
      exact absurd rfl hne
    · exact ht.born other id hin hne
  sent := ht.sent
  left := nofun

theorem mem_roster (ht : Tenant cluster n H₀ H relay .member) : n ∈ H.roster cluster := by
  rw [ht.roster cluster, if_pos rfl]
  exact List.mem_append_right _ (List.mem_singleton_self n)

theorem begin (ht : Tenant cluster n H₀ H t.relay .member) (k : Nat) (m : Payload) :
    Tenant cluster n H₀ (.began k cluster m :: H) t.relay .member where
  nextId := ht.nextId
  roster := ht.roster
  opened := ht.opened
  unborn := nofun
  born other id hin := ht.born other id ((List.mem_cons.1 hin).resolve_left nofun)
  sent other id hne := by
    have hmember : id ∈ H.roster cluster ↔ id ∈ H₀.roster cluster := by
      rw [ht.roster cluster, if_pos rfl, List.mem_append]
      exact or_iff_left (mt List.mem_singleton.1 hne)
    have hself : History.sent cluster n (.began k cluster m :: H) = H.sent cluster n ++ [(k, m)] := by
      rw [History.sent, if_pos ⟨rfl, ht.mem_roster⟩]
    rw [hself, History.sent, ht.sent other id hne]
    by_cases hin : other = cluster ∧ id ∈ H₀.roster cluster
    · obtain ⟨rfl, hm⟩ := hin
      rw [if_pos ⟨rfl, hm⟩, if_pos ⟨rfl, hmember.2 hm⟩, if_pos ⟨rfl, hm⟩, List.append_assoc]
    · have hnot : ¬ (cluster = other ∧ id ∈ H.roster other) := by
        rintro ⟨rfl, hm⟩
        exact hin ⟨rfl, hmember.1 hm⟩
      rw [if_neg hin, if_neg hin, if_neg hnot, List.append_nil]
  left := nofun

theorem remove (ht : Tenant cluster n H₀ H t.relay .member) :
    Tenant cluster n H₀ (.removed cluster n :: H) (t.relay.removeMember cluster n) .leaving where
  nextId := ht.nextId
  roster other := by
    have hroster := ht.roster other
    simp only [Tenure.members, ite_self, List.append_nil] at hroster ⊢
    rw [History.roster]
    by_cases heq : cluster = other
    · subst heq
      have hnodup := History.nodup_roster cluster H
      rw [if_pos rfl] at hroster ⊢
      rw [hroster] at hnodup ⊢
      have hnot : n ∉ H₀.roster cluster := fun hm =>
        (List.nodup_append.1 hnodup).2.2 n hm n (List.mem_singleton_self n) rfl
      rw [List.erase_append_right _ hnot, List.erase_cons_head, List.append_nil]
    · rw [if_neg heq, hroster, if_neg (Ne.symm heq), List.append_nil]
  opened := nofun
  unborn := nofun
  born other id hin := ht.born other id ((List.mem_cons.1 hin).resolve_left nofun)
  sent := ht.sent
  left := nofun

theorem leave (ht : Tenant cluster n H₀ H t.relay .leaving) :
    Tenant cluster n H₀ (.left n :: H) t.relay .gone where
  nextId := ht.nextId
  roster := ht.roster
  opened := nofun
  unborn := nofun
  born other id hin := ht.born other id ((List.mem_cons.1 hin).resolve_left nofun)
  sent := ht.sent
  left _ := List.mem_cons_self

end Tenant

/-! ## A step of a call -/

/-- Where a call that goes from `c` to `c'` takes the service. -/
structure Advance (closed : Bool) (cluster : String) (n k : Nat) (H₀ H : History) (e : Errand)
    (c c' : Call) (es : History) (relay : Relay) (tenure tenure' : Tenure) : Prop where
  stands : OnErrand closed cluster n e c' tenure'
  tenant : Tenant cluster n H₀ (es ++ H) relay tenure'
  same : tenure' = tenure ∨ e.changes = true
  begun : ∀ j, (History.sent cluster n (es ++ H)).filter (·.1 == j) ++
    (if j = k then c'.unbegun k else []) =
      (H.sent cluster n).filter (·.1 == j) ++ if j = k then c.unbegun k else []
  owned : Line.owned k c = [] ∧ tenure'.isOwned = tenure.isOwned ∨
    c = .initialise cluster n ∧ tenure = .numbered ∧ tenure' = .ready

theorem OnErrand.not_shutdown (he : OnErrand closed cluster n e c tenure) : c ≠ .shutdown := by
  rintro rfl
  cases he

theorem OnErrand.move (he : OnErrand closed cluster n e c tenure) (hm : t.Moves k c a es relay c')
    (hinit : ∀ cause, a ≠ .initialised k (some cause)) (hclosed : t.relay.closed = closed)
    (ht : Tenant cluster n H₀ H t.relay tenure) :
    ∃ tenure', Advance closed cluster n k H₀ H e c c' es relay tenure tenure' := by
  cases he with
  | ask =>
    cases hm with
    | ask hopen =>
      exact ⟨_, .takeId (hclosed.symm.trans hopen), ht, .inr rfl, fun _ => rfl, .inl ⟨rfl, rfl⟩⟩
    | refuse hr =>
      cases hr with
      | ask hshut =>
        exact ⟨_, .refused (hclosed.symm.trans hshut), ht, .inr rfl, fun _ => rfl, .inl ⟨rfl, rfl⟩⟩
  | takeId hopen =>
    cases hm with
    | takeId =>
      obtain rfl : t.relay.nextId = n := ht.nextId
      exact ⟨_, .initialise hopen, ht.number, .inr rfl, fun _ => rfl, .inl ⟨rfl, rfl⟩⟩
    | refuse hr => cases hr
  | initialise hopen =>
    cases hm with
    | initialise =>
      exact ⟨_, .insert hopen, ht.initialise, .inr rfl, fun _ => rfl, .inr ⟨rfl, rfl, rfl⟩⟩
    | fail => exact absurd rfl (hinit _)
    | refuse hr => cases hr
  | insert hopen =>
    cases hm with
    | insert =>
      exact ⟨_, .joined hopen, ht.insert, .inr rfl, fun _ => rfl, .inl ⟨rfl, rfl⟩⟩
    | refuse hr => cases hr
  | broadcast hopen =>
    cases hm with
    | broadcast =>
      exact ⟨_, .askBroadcast hopen, ht, .inl rfl, fun _ => rfl, .inl ⟨rfl, rfl⟩⟩
    | refuse hr =>
      cases hr with
      | broadcast hshut =>
        rw [ht.opened rfl] at hshut
        cases hshut
  | askBroadcast hopen =>
    cases hm with
    | askBroadcast =>
      exact ⟨_, .lock hopen, ht, .inl rfl, fun _ => rfl, .inl ⟨rfl, rfl⟩⟩
    | refuse hr =>
      cases hr with
      | askBroadcast hshut =>
        rw [hclosed.trans hopen] at hshut
        cases hshut
  | @lock m hopen =>
    cases hm with
    | lock =>
      refine ⟨_, .walk hopen, ht.begin k m, .inl rfl, fun j => ?_, .inl ⟨rfl, rfl⟩⟩
      rw [List.singleton_append, History.sent, if_pos ⟨rfl, ht.mem_roster⟩, List.filter_append]
      by_cases hj : j = k
      · simp [hj, Call.unbegun]
      · simp [hj, Ne.symm hj]
    | refuse hr => cases hr
  | walk hopen =>
    cases hm with
    | @enqueue _ _ _ id =>
      refine ⟨_, .walk hopen, ht.calm ?_ nextId_modifyEndpoint fun _ => isClosed_enqueue,
        .inl rfl, fun _ => rfl, .inl ⟨rfl, rfl⟩⟩
      simp [Event.isQuiet]
    | unlock =>
      refine ⟨_, .sent hopen, ht.calm ?_ rfl fun _ => rfl, .inl rfl, fun _ => rfl, .inl ⟨rfl, rfl⟩⟩
      simp [Event.isQuiet]
    | refuse hr => cases hr
  | remove hopen =>
    cases hm with
    | removeLast =>
      exact ⟨_, .sweep hopen, ht.remove, .inr rfl, fun _ => rfl, .inl ⟨rfl, rfl⟩⟩
    | remove =>
      exact ⟨_, .hangUp hopen, ht.remove, .inr rfl, fun _ => rfl, .inl ⟨rfl, rfl⟩⟩
    | refuse hr => cases hr
  | sweep hopen =>
    cases hm with
    | sweep =>
      exact ⟨_, .hangUp hopen, ht.calm (List.forall_mem_nil _) rfl fun _ => rfl, .inr rfl,
        fun _ => rfl, .inl ⟨rfl, rfl⟩⟩
    | refuse hr => cases hr
  | hangUp hopen =>
    cases hm with
    | hangUp =>
      refine ⟨_, .join hopen, ht.calm (List.forall_mem_nil _) nextId_modifyEndpoint ?_, .inr rfl,
        fun _ => rfl, .inl ⟨rfl, rfl⟩⟩
      intro hshut
      cases hshut
    | refuse hr => cases hr
  | join hopen =>
    cases hm with
    | join =>
      exact ⟨_, .left hopen, ht.leave, .inr rfl, fun _ => rfl, .inl ⟨rfl, rfl⟩⟩
    | refuse hr => cases hr
  | joined | refused | sent | left =>
    cases hm with
    | refuse hr => cases hr

/-! ## Requests and replies -/

/-- What it is to ask for this, where the service has this tenure, and what is said. -/
inductive Asks (closed : Bool) (n k : Nat) :
    Medium.Request → Errand → Tenure → List (Nat × Payload) → Prop
  | register : Asks closed n k .register .joining .absent []
  | broadcast {m : Payload} : closed = false →
      Asks closed n k (.broadcast n m) .broadcasting .member [(k, m)]
  | unregister : closed = false → Asks closed n k (.unregister n) .leaving .member []
  | drop : closed = false → Asks closed n k (.drop n) .leaving .member []

/-- What a caller hears of its errand, and the tenure that the service has then. -/
inductive Answers (closed : Bool) (n : Nat) : Errand → Reply → Tenure → Prop
  | joined : closed = false → Answers closed n .joining (.ok n) .member
  | refused : closed = true → Answers closed n .joining (.failed .relayClosed) .absent
  | sent : closed = false → Answers closed n .broadcasting (.ok 0) .member
  | left : closed = false → Answers closed n .leaving (.ok 0) .gone

theorem Asks.onErrand {q : Medium.Request} {new : List (Nat × Payload)}
    (ha : Asks closed n k q e tenure new) :
    OnErrand closed cluster n e (Line.call cluster q) tenure ∧
      (Line.call cluster q).unbegun k = new := by
  cases ha with
  | register => exact ⟨.ask, rfl⟩
  | broadcast hopen => exact ⟨.broadcast hopen, rfl⟩
  | unregister hopen | drop hopen => exact ⟨.remove hopen, rfl⟩

theorem filter_unbegun (c : Call) (k j : Nat) :
    (c.unbegun k).filter (·.1 == j) = if j = k then c.unbegun k else [] := by
  by_cases hj : j = k
  · cases c <;> simp [Call.unbegun, hj]
  · cases c <;> simp [Call.unbegun, hj, Ne.symm hj]

theorem OnErrand.answers {result : Except RelayError (Option Nat)}
    (he : OnErrand closed cluster n e (.over result) tenure) :
    Answers closed n e (Line.replyOf result) tenure := by
  cases he with
  | joined hopen => exact .joined hopen
  | refused hshut => exact .refused hshut
  | sent hopen => exact .sent hopen
  | left hopen => exact .left hopen

/-- The caller `k` goes on, and the others stay where they are. -/
theorem unbegun_update (hcall : ∀ j, u.call? j = if j = k then x else t.call? j) (j : Nat) :
    u.unbegun j = if j = k then (x.map (Call.unbegun k)).getD [] else t.unbegun j := by
  rw [Traffic.unbegun, hcall]
  split
  · rename_i hj
    rw [hj]
  · rfl

/-! ## All steps -/

/-- Who is about to join or to leave is the caller 0, and nobody else is on an errand. -/
theorem Calling.others (hcalling : Calling closed cluster n tenure errand t)
    (hk : errand k = some e) (hchanges : e.changes = true) :
    k = 0 ∧ ∀ j, j ≠ k → errand j = none := by
  rcases hcalling.apart with hall | hothers
  · rw [hall k e hk] at hchanges
    cases hchanges
  · have hzero : k = 0 := by
      by_contra h
      rw [hothers k h] at hk
      cases hk
    subst hzero
    exact ⟨rfl, hothers⟩

/-- The caller `k` goes on, and the others stay where they are. -/
theorem Calling.update (hcalling : Calling closed cluster n tenure errand t)
    (hcall : ∀ j, u.call? j = if j = k then x else t.call? j) (hnone : y = none → x = none)
    (hsome : ∀ e, y = some e → ∃ c, x = some c ∧ OnErrand closed cluster n e c tenure')
    (hothers : tenure' = tenure ∨ ∀ j, j ≠ k → errand j = none)
    (hapart : Apart (Function.update errand k y)) :
    Calling closed cluster n tenure' (Function.update errand k y) u where
  rest j hj := by
    rw [hcall]
    by_cases hjk : j = k
    · rw [hjk, Function.update_self] at hj
      rw [if_pos hjk, hnone hj]
    · rw [Function.update_of_ne hjk] at hj
      rw [if_neg hjk, hcalling.rest j hj]
  call j e hj := by
    rw [hcall]
    by_cases hjk : j = k
    · rw [hjk, Function.update_self] at hj
      rw [if_pos hjk]
      exact hsome e hj
    · rw [Function.update_of_ne hjk] at hj
      rw [if_neg hjk]
      rcases hothers with rfl | hothers
      · exact hcalling.call j e hj
      · rw [hothers j hjk] at hj
        cases hj
  apart := hapart

namespace Hosts

variable (hs : Hosts cluster l₀ H₀ H tenure errand said l)
include hs

theorem of_step {b : Traffic.Label} {errand' : Nat → Option Errand} {said' : List (Nat × Payload)}
    (hstep : l.traffic.step b = some l'.traffic) (hno : ∀ id, b ≠ .finish id true)
    (howned : History.Owned (l.traffic.events b ++ H))
    (hclosed : l'.traffic.relay.closed = l.traffic.relay.closed)
    (htenant : Tenant cluster l₀.traffic.relay.nextId H₀ (l.traffic.events b ++ H)
      l'.traffic.relay tenure')
    (hcalling : Calling l₀.traffic.relay.closed cluster l₀.traffic.relay.nextId tenure' errand'
      l'.traffic)
    (hbegun : ∀ k, (History.sent cluster l₀.traffic.relay.nextId
      (l.traffic.events b ++ H)).filter (·.1 == k) ++ l'.traffic.unbegun k =
        said'.filter (·.1 == k))
    (howners : l'.owners = l.owners ∧ tenure'.isOwned = tenure.isOwned ∨
      l'.owners = l.owners ++ [(l₀.traffic.relay.nextId, 0)] ∧ tenure'.isOwned = true ∧
        l.owners.lookup l₀.traffic.relay.nextId = none) :
    Hosts cluster l₀ H₀ (l.traffic.events b ++ H) tenure' errand' said' l' where
  recorded := hs.recorded.step hstep
  owned := howned
  closed_eq := hclosed.trans hs.closed_eq
  added := by
    obtain ⟨E, rfl, hE⟩ := hs.added
    have hflow : Flow l.traffic (l.traffic.events b) l'.traffic := .step hstep hno
    refine ⟨_ ++ E, (List.append_assoc _ _ _).symm, fun id m hm => ?_⟩
    exact (List.mem_append.1 hm).elim hflow.not_panicked (hE id m)
  tenant := htenant
  calling := hcalling
  begun := hbegun
  owners id p howner := by
    have hbefore (howned : tenure.isOwned = true → tenure'.isOwned = true)
        (howner : l.owners.lookup id = some p) :
        Settled (l.traffic.events b ++ H) l'.traffic id ∨
          id = l₀.traffic.relay.nextId ∧ p = 0 ∧ tenure'.isOwned = true := by
      rcases hs.owners id p howner with hsettled | ⟨hid, hp, hown⟩
      · exact .inl (hsettled.step hs.recorded (Traffic.effect_of_step hstep))
      · exact .inr ⟨hid, hp, howned hown⟩
    rcases howners with ⟨hsame, htenure⟩ | ⟨hnew, htenure, -⟩
    · rw [hsame] at howner
      exact hbefore (fun h => htenure.trans h) howner
    · rw [hnew, List.lookup_append] at howner
      cases hold : l.owners.lookup id with
      | some q =>
        rw [hold, Option.some_or] at howner
        exact hbefore (fun _ => htenure) (hold.trans howner)
      | none =>
        rw [hold, Option.none_or, List.lookup_cons] at howner
        split at howner
        · rename_i heq
          exact .inr ⟨eq_of_beq heq, (Option.some.inj howner).symm, htenure⟩
        · cases howner
  owner howned := by
    rcases howners with ⟨hsame, htenure⟩ | ⟨hnew, -, hlookup⟩
    · rw [hsame]
      exact hs.owner (htenure ▸ howned)
    · rw [hnew, List.lookup_append, hlookup]
      simp

theorem ask {q : Medium.Request} {new : List (Nat × Payload)}
    (ha : Asks l₀.traffic.relay.closed l₀.traffic.relay.nextId k q e tenure new)
    (hnone : errand k = none) (hapart : Apart (Function.update errand k (some e))) :
    ∃ H', Hosts cluster l₀ H₀ H' tenure (Function.update errand k (some e)) (said ++ new)
      (l.ask cluster k q) := by
  have hidle := hs.calling.rest k hnone
  have hcall (j : Nat) : (l.ask cluster k q).traffic.call? j =
      if j = k then some (Line.call cluster q) else l.traffic.call? j := Traffic.call?_start hidle
  have hquiet : ∀ e ∈ l.traffic.events (.start k (Line.request cluster q)), e.isQuiet = true := by
    cases ha <;> simp [Line.request, Traffic.events, Event.isQuiet]
  obtain ⟨hstands, hunbegun⟩ : OnErrand _ cluster _ e (Line.call cluster q) tenure ∧
      (Line.call cluster q).unbegun k = new := ha.onErrand
  refine ⟨_, hs.of_step (Line.step_of_ask hidle) (fun _ h => by cases h) ?_ rfl
    (hs.tenant.calm hquiet rfl fun _ => rfl) ?_ (fun j => ?_) (.inl ⟨rfl, rfl⟩)⟩
  · cases ha with
    | register | broadcast => exact hs.owned
    | unregister | drop =>
      exact ⟨History.inserted_of_mem_roster hs.tenant.mem_roster, hs.owned⟩
  · refine hs.calling.update hcall (fun h => by cases h) (fun e' he' => ?_) (.inl rfl) hapart
    cases he'
    exact ⟨_, rfl, hstands⟩
  · have hsent : History.sent cluster l₀.traffic.relay.nextId
        (l.traffic.events (.start k (Line.request cluster q)) ++ H) =
          H.sent cluster l₀.traffic.relay.nextId :=
      History.sent_append_of_not_began fun _ _ _ hm => by cases hquiet _ hm
    have hbegun := hs.begun j
    rw [hsent, unbegun_update hcall, List.filter_append, ← hbegun, ← hunbegun, filter_unbegun]
    by_cases hj : j = k
    · have hrest : l.traffic.unbegun j = [] := by
        rw [Traffic.unbegun, hj, hidle]
        rfl
      simp [hj, hj ▸ hrest]
    · simp [hj]

theorem reply {r : Reply} (hr : l.reply? k = some (r, l')) : ∃ e, errand k = some e ∧
    Answers l₀.traffic.relay.closed l₀.traffic.relay.nextId e r tenure ∧
      l'.traffic.relay = l.traffic.relay ∧
        Hosts cluster l₀ H₀ H tenure (Function.update errand k none) said l' := by
  obtain ⟨result, hc, rfl, rfl⟩ := Line.reply?_eq_some_iff.1 hr
  have hcall (j : Nat) : (l.traffic.dropCall k).call? j =
      if j = k then none else l.traffic.call? j := Traffic.call?_dropCall
  cases hk : errand k with
  | none =>
    rw [hs.calling.rest k hk] at hc
    cases hc
  | some e =>
    obtain ⟨c, hc', he⟩ := hs.calling.call k e hk
    rw [hc, Option.some.injEq] at hc'
    subst hc'
    have hstep : l.traffic.step (.collect k) = some (l.traffic.dropCall k) := by
      simp [Traffic.step, Traffic.collect, hc]
    refine ⟨e, rfl, he.answers, rfl, ?_⟩
    refine hs.of_step (b := .collect k) hstep (fun _ => by simp) hs.owned rfl hs.tenant ?_
      (fun j => ?_) (.inl ⟨rfl, rfl⟩)
    · refine hs.calling.update hcall (fun _ => rfl) (fun _ h => by cases h) (.inl rfl) ?_
      rcases hs.calling.apart with hall | hothers
      · refine .inl fun j e' hj => ?_
        by_cases hjk : j = k
        · rw [hjk, Function.update_self] at hj
          cases hj
        · rw [Function.update_of_ne hjk] at hj
          exact hall j e' hj
      · refine .inr fun j hj => ?_
        by_cases hjk : j = k
        · rw [hjk, Function.update_self]
        · rw [Function.update_of_ne hjk]
          exact hothers j hj
    · have hbegun := hs.begun j
      rw [show l.traffic.events (.collect k) ++ H = H from rfl, ← hbegun, unbegun_update hcall]
      by_cases hj : j = k
      · rw [if_pos hj, Traffic.unbegun, hj, hc]
        rfl
      · rw [if_neg hj]

/-- No call that is under way on a line dies. -/
theorem not_died : l.reply? k ≠ some (.died, l') := by
  intro hr
  obtain ⟨e, -, ha, -⟩ := hs.reply hr
  cases ha

/-- What a handler does leaves the service and the calls alone. -/
theorem rest {b : Traffic.Label} (hstep : l.traffic.step b = some { l.traffic with relay })
    (hno : ∀ id, b ≠ .finish id true) (hevents : l.traffic.events b = [])
    (hnext : relay.nextId = l.traffic.relay.nextId)
    (hopen : ∀ id, relay.isClosed id = l.traffic.relay.isClosed id)
    (hclosed : relay.closed = l.traffic.relay.closed) :
    Hosts cluster l₀ H₀ H tenure errand said { l with traffic := { l.traffic with relay } } := by
  have hH : l.traffic.events b ++ H = H := by rw [hevents, List.nil_append]
  rw [← hH]
  refine hs.of_step hstep hno (hH.symm ▸ hs.owned) hclosed ?_
    ⟨hs.calling.rest, hs.calling.call, hs.calling.apart⟩ (fun j => ?_) (.inl ⟨rfl, rfl⟩)
  · refine hs.tenant.calm ?_ hnext fun _ => hopen _
    rw [hevents]
    exact List.forall_mem_nil _
  · rw [hH]
    exact hs.begun j

/-- Nobody has the handler of a service that is no member yet. -/
theorem lookup_eq_none (hearly : tenure.isEarly = true) (hnot : tenure.isOwned = false) :
    l.owners.lookup l₀.traffic.relay.nextId = none := by
  cases hlookup : l.owners.lookup l₀.traffic.relay.nextId with
  | none => rfl
  | some p =>
    rcases hs.owners _ p hlookup with ⟨other, hgone, -⟩ | ⟨-, -, howned⟩
    · exact absurd hgone.1 (hs.tenant.unborn hearly other)
    · rw [hnot] at howned
      cases howned

/-- The service changes its tenure only while it comes or goes. -/
theorem move (hc : l.traffic.call? k = some c) (hm : l.traffic.Moves k c a es relay c')
    (hinit : ∀ cause, a ≠ .initialised k (some cause)) : ∃ H' tenure',
      Hosts cluster l₀ H₀ H' tenure' errand said
        { traffic := { l.traffic with relay }.setCall k c', owners := l.owners ++ Line.owned k c } ∧
      (tenure' = tenure ∨ ∃ j e, errand j = some e ∧ e.changes = true) := by
  cases hk : errand k with
  | none =>
    rw [hs.calling.rest k hk] at hc
    cases hc
  | some e =>
    obtain ⟨c₀, hc₀, he⟩ := hs.calling.call k e hk
    rw [hc, Option.some.injEq] at hc₀
    subst hc₀
    obtain ⟨tenure', hadvance⟩ := he.move hm hinit hs.closed_eq hs.tenant
    have hcall (j : Nat) : ({ l.traffic with relay }.setCall k c').call? j =
        if j = k then some c' else l.traffic.call? j := Traffic.call?_setCall (by exact hc)
    have hno (id : Nat) : a ≠ .finish id true := by
      rintro rfl
      cases hm.caller?
    have howned : (es ++ H).Owned := by
      cases hm <;> exact hs.owned
    -- whoever takes the service to another tenure is alone on an errand
    have hothers : tenure' = tenure ∨ ∀ j, j ≠ k → errand j = none := by
      rcases hadvance.same with heq | hchanges
      · exact .inl heq
      · exact .inr (hs.calling.others hk hchanges).2
    have hself : Function.update errand k (some e) = errand := by
      rw [← hk, Function.update_eq_self]
    have hcalling := hs.calling.update (y := some e) hcall nofun
      (fun e' he' => ⟨c', rfl, Option.some.inj he' ▸ hadvance.stands⟩) hothers
      (hself.symm ▸ hs.calling.apart)
    rw [hself] at hcalling
    obtain rfl := hm.events_eq hc
    refine ⟨_, tenure', hs.of_step (hm.step_eq hc) hno howned (hm.closed_eq he.not_shutdown)
      hadvance.tenant hcalling (fun j => ?_) ?_, hadvance.same.imp_right fun h => ⟨k, e, hk, h⟩⟩
    · have hbegun := hs.begun j
      have hadded := hadvance.begun j
      rw [unbegun_update hcall, ← hbegun]
      by_cases hj : j = k
      · rw [if_pos hj, if_pos hj] at hadded
        rw [if_pos hj, Traffic.unbegun, hj, hc]
        exact hj ▸ hadded
      · rw [if_neg hj, if_neg hj, List.append_nil, List.append_nil] at hadded
        rw [if_neg hj, hadded]
    · rcases hadvance.owned with ⟨hnone, htenure⟩ | ⟨rfl, rfl, rfl⟩
      · rw [hnone, List.append_nil]
        exact .inl ⟨rfl, htenure⟩
      · have hchanges : e.changes = true := by
          cases he
          rfl
        obtain rfl := (hs.calling.others hk hchanges).1
        exact .inr ⟨rfl, rfl, hs.lookup_eq_none rfl rfl⟩

theorem steps (hstep : l.Steps a l' handover) : ∃ H' tenure',
    Hosts cluster l₀ H₀ H' tenure' errand said l' ∧
      (tenure' = tenure ∨ ∃ j e, errand j = some e ∧ e.changes = true) := by
  cases hstep with
  | @take id m relay ht =>
    obtain ⟨e, queue, he, -, -, -, rfl⟩ := take_eq_some_iff.1 ht
    refine ⟨H, tenure, hs.rest (b := .take id) ?_ (fun _ h => by cases h) rfl List.length_set
      (fun _ => isClosed_set he rfl) rfl, .inl rfl⟩
    rw [Traffic.step, ht, Option.map_some]
  | @finish id relay hf =>
    obtain ⟨e, he, -, rfl⟩ := finish_eq_some_iff.1 hf
    refine ⟨H, tenure, hs.rest (b := .finish id false) ?_ (fun _ h => by cases h) rfl List.length_set
      (fun _ => isClosed_set he rfl) rfl, .inl rfl⟩
    rw [Traffic.step, hf, Option.map_some]
  | move hc hm hinit => exact hs.move hc hm hinit

/-! ## What is handed over -/

/-- Of the handlers that are given something only that of the service has an owner. -/
theorem lookup_of_take (ht : l.traffic.relay.take id = some (m, relay)) :
    l.owners.lookup id = if id = l₀.traffic.relay.nextId then some 0 else none := by
  obtain ⟨e, queue, he, -, halive, hpop, -⟩ := take_eq_some_iff.1 ht
  have hqueue := Queue.toList_eq_of_pop? hpop
  by_cases hid : id = l₀.traffic.relay.nextId
  · rw [if_pos hid, hid]
    refine hs.owner ?_
    by_contra howned
    have hearly : tenure.isEarly = true := by
      cases tenure <;> first | rfl | exact absurd rfl howned
    have hall := ((hs.recorded.record he).alive halive).1
    rw [hs.recorded.arrived_eq_nil (hid ▸ hs.tenant.unborn hearly), hqueue] at hall
    simp at hall
  · rw [if_neg hid]
    cases howner : l.owners.lookup id with
    | none => rfl
    | some p =>
      rcases hs.owners id p howner with ⟨other, -, hidle⟩ | ⟨heq, -⟩
      · rcases hidle e he with hd | ⟨hnil, -⟩
        · rw [halive] at hd
          cases hd
        · rw [hqueue] at hnil
          cases hnil
      · exact absurd heq hid

theorem given_of_absent (htenure : tenure = .absent) :
    l.traffic.relay.given l₀.traffic.relay.nextId = [] := by
  subst htenure
  have hnext : l.traffic.relay.nextId = l₀.traffic.relay.nextId := hs.tenant.nextId
  exact Scenario.given_of_le (Nat.le_of_eq hnext)

/-- An empty queue is what the service that has no number yet needs. -/
theorem holds_of_absent (htenure : tenure = .absent) (capacity : Nat) :
    Inbox.Holds capacity (l.traffic.relay.given l₀.traffic.relay.nextId) 0 { room := capacity } := by
  rw [hs.given_of_absent htenure]
  exact Inbox.holds_empty capacity

/-- What is handed over is what the handler of the service is given. -/
theorem given_eq (hstep : l.Steps a l' handover) :
    l'.traffic.relay.given l₀.traffic.relay.nextId =
      l.traffic.relay.given l₀.traffic.relay.nextId ++ (handover.map (·.m)).toList := by
  rw [hstep.given_eq]
  congr 2
  cases hstep with
  | @take id m relay ht =>
    rw [Line.handover, hs.lookup_of_take ht, taken?]
    by_cases hid : id = l₀.traffic.relay.nextId
    · rw [if_pos hid, if_pos hid, ht]
      rfl
    · rw [if_neg hid, if_neg hid]
      rfl
  | move _ hm => cases hm <;> rfl
  | finish => rfl

/-! ## How long it takes -/

theorem measured : (line cluster).Measured (Line.work (l₀.traffic.relay.nextId + 1))
    (3 * (l₀.traffic.relay.nextId + 1) + 4) l where
  ask _ _ := Line.work_ask_le _ _ _ _ _
  reply _ _ _ hr := Line.work_reply_le hr
  step _ _ _ hstep := by
    refine (Line.steps_of_step hstep).work_lt hs.recorded fun other => ?_
    refine Nat.le_trans (hs.recorded.length_members_le other) ?_
    rw [hs.tenant.nextId]
    cases tenure <;> simp [Tenure.numbers]

/-- Where the relay takes no step by itself, it has answered. -/
theorem answers (hhalted : ∀ b, l.step b = none) (hk : errand k = some e) :
    ∃ r l', l.reply? k = some (r, l') := by
  obtain ⟨c, hc, -⟩ := hs.calling.call k e hk
  obtain ⟨result, rfl⟩ := Line.over_of_halted hhalted hs.recorded hc
  exact ⟨_, _, Line.reply?_eq_some_iff.2 ⟨result, hc, rfl, rfl⟩⟩

/-! ## Where no call is under way -/

section
variable (hnone : ∀ k, errand k = none)
include hnone

theorem awaited_eq_nil (other : String) (id : Nat) : l.traffic.awaited other id k = [] := by
  rw [Traffic.awaited, hs.calling.rest k (hnone k)]
  rfl

/-- All that was said was sent to the service. -/
theorem sent_eq (k : Nat) : (H.sent cluster l₀.traffic.relay.nextId).filter (·.1 == k) =
    said.filter (·.1 == k) := by
  rw [← hs.begun k, Traffic.unbegun, hs.calling.rest k (hnone k)]
  exact (List.append_nil _).symm

/-- The line is as idle as it was. -/
theorem idle (htenure : tenure = .absent ∨ tenure = .gone) : Idle H l where
  recorded := hs.recorded
  owned := hs.owned
  calls := by
    rw [List.eq_nil_iff_forall_not_mem]
    rintro ⟨p, call⟩ hm
    have hc := lookup_eq_some_of_mem hs.recorded.nodup_callers hm
    have hrest := hs.calling.rest p (hnone p)
    rw [Traffic.call?, hc] at hrest
    cases hrest
  owners id p howner := by
    rcases hs.owners id p howner with hsettled | ⟨rfl, -, howned⟩
    · exact hsettled
    · rcases htenure with rfl | rfl
      · cases howned
      · exact hs.recorded.settled hs.owned (hs.tenant.left rfl)

section
variable (hi : Idle H₀ l₀)
include hi

/-- Where nothing is left to be done, the service was handed all that was said. -/
theorem length_given (hhalted : ∀ b, l.step b = none) (htenure : tenure = .member) :
    (l.traffic.relay.given l₀.traffic.relay.nextId).length = said.length := by
  subst htenure
  have hin := History.inserted_of_mem_roster hs.tenant.mem_roster
  obtain ⟨e, he⟩ := hs.recorded.exists_endpoint hin
  obtain ⟨E, hE, hno⟩ := hs.added
  have halive : e.dead = false := by
    refine hs.recorded.alive he fun m hm => ?_
    rw [hE] at hm
    exact (List.mem_append.1 hm).elim (hno _ m) ((hi.recorded.unborn _ (Nat.le_refl _)).2 m)
  have hempty : e.queue.toList = [] := by
    rcases (isDrained_iff he).1 (Line.isDrained_of_halted hhalted _) with hd | ⟨hnil, -⟩
    · rw [halive] at hd
      cases hd
    · exact hnil
  have hall := ((hs.recorded.record he).alive halive).1
  rw [hempty, List.append_nil] at hall
  have hperm : (H.arrived l₀.traffic.relay.nextId).Perm said := by
    refine perm_of_filter_eq fun k => ?_
    have horder := hs.recorded.inOrder hin k
    rwa [InOrder, hs.awaited_eq_nil hnone, List.append_nil, hs.sent_eq hnone] at horder
  rw [given_of_endpoint he, hall, List.length_map, hperm.length_eq]

/-- A member has been handed what was said, the messages of each caller in their order, and who is not
a member has been handed nothing. -/
theorem recorded_eq {endpoint : Endpoint} (he : l₀.traffic.relay.endpoints[id]? = some endpoint)
    (halive : endpoint.dead = false) : ∃ new : List (Nat × Payload),
      (∀ k, new.filter (·.1 == k) =
        (if id ∈ H₀.roster cluster then said else []).filter (·.1 == k)) ∧
      l.traffic.relay.recorded id = l₀.traffic.relay.recorded id ++ new.map (·.2) := by
  have hlt : id < l₀.traffic.relay.nextId := (List.getElem?_eq_some_iff.1 he).1
  have hne : id ≠ l₀.traffic.relay.nextId := Nat.ne_of_lt hlt
  obtain ⟨e', he'⟩ : ∃ e', l.traffic.relay.endpoints[id]? = some e' := by
    refine ⟨_, List.getElem?_eq_getElem (Nat.lt_of_lt_of_le hlt ?_)⟩
    exact Nat.le_of_add_right_le (Nat.le_of_eq hs.tenant.nextId.symm)
  obtain ⟨E, rfl, hno⟩ := hs.added
  have halive' : e'.dead = false := by
    refine hs.recorded.alive he' fun m hp => ?_
    exact (List.mem_append.1 hp).elim (hno id m) (((hi.recorded.record he).alive halive).2 m)
  refine ⟨History.arrived id E, fun k => ?_, ?_⟩
  · by_cases hin₀ : ∃ other, .inserted other id ∈ H₀
    · obtain ⟨other, hin₀⟩ := hin₀
      have hidle : l₀.traffic.awaited other id k = [] := by
        rw [Traffic.awaited, Traffic.call?, hi.calls]
        rfl
      have hbefore := hi.recorded.inOrder hin₀ k
      have hafter := hs.recorded.inOrder (List.mem_append_right E hin₀) k
      rw [InOrder, hidle, List.append_nil] at hbefore
      rw [InOrder, hs.awaited_eq_nil hnone, List.append_nil, History.arrived_append,
        List.filter_append, hbefore, hs.tenant.sent other id hne, List.filter_append] at hafter
      rw [List.append_cancel_left hafter]
      by_cases hm : id ∈ H₀.roster cluster
      · -- a service is in one cluster
        have hother := (hi.recorded.ledger.inserted hin₀).2 cluster
          (History.inserted_of_mem_roster hm)
        rw [if_pos ⟨hother.symm, hm⟩, if_pos hm, hs.sent_eq hnone]
      · rw [if_neg fun h => hm h.2, if_neg hm]
    · have hnot : id ∉ H₀.roster cluster := fun hm =>
        hin₀ ⟨cluster, History.inserted_of_mem_roster hm⟩
      have hnil := hs.recorded.arrived_eq_nil fun other hin =>
        hin₀ ⟨other, hs.tenant.born other id hin hne⟩
      rw [History.arrived_append] at hnil
      rw [if_neg hnot, (List.append_eq_nil_iff.1 hnil).2]
  · rw [Scenario.recorded_eq_arrived hs.recorded he' halive',
      Scenario.recorded_eq_arrived hi.recorded he halive, History.arrived_append, List.map_append]

end

end

end Hosts

/-! ## Before and after -/

/-- A line on which the service is gone is the one that it was, for all others. -/
structure Restored (l₀ l : Line) : Prop where
  closed : l.traffic.relay.closed = l₀.traffic.relay.closed
  members : ∀ cluster, l.traffic.relay.members cluster = l₀.traffic.relay.members cluster
  /-- Nobody whose number is new is a member. -/
  new : ∀ cluster id, l₀.traffic.relay.nextId ≤ id → id ∉ l.traffic.relay.members cluster
  /-- Nobody has a call under way, and what comes next finds the line as this found it. -/
  idle : ∃ H, Idle H l
  /-- Where nothing is left to be done, the handlers were given all that was handed over. -/
  given : (∀ b, l.step b = none) → ∀ id, l.traffic.relay.given id = l.traffic.relay.recorded id

/-- Of the services whose handlers have not panicked each member of the cluster is handed messages with
the property, and who is not a member is handed none. -/
def Handed (cluster : String) (l₀ l : Line) (P : List Payload → Prop) : Prop :=
  ∀ id e, l₀.traffic.relay.endpoints[id]? = some e → e.dead = false → ∃ new,
    l.traffic.relay.recorded id = l₀.traffic.relay.recorded id ++ new ∧
      if id ∈ l₀.traffic.relay.members cluster then P new else new = []

theorem Hosts.restored (hs : Hosts cluster l₀ H₀ H tenure errand said l)
    (hnone : ∀ k, errand k = none) (hi : Idle H₀ l₀) (htenure : tenure = .absent ∨ tenure = .gone) :
    Restored l₀ l := by
  have hidle := hs.idle hnone htenure
  have hmembers (other : String) :
      l.traffic.relay.members other = l₀.traffic.relay.members other := by
    rw [hs.recorded.ledger.members, hi.recorded.ledger.members, hs.tenant.roster]
    rcases htenure with rfl | rfl <;> simp [Tenure.members]
  refine ⟨hs.closed_eq, hmembers, fun other id hle hm => ?_, ⟨H, hidle⟩, hidle.given_eq⟩
  rw [hmembers, hi.recorded.ledger.members] at hm
  exact absurd (hi.recorded.ledger.inserted (History.inserted_of_mem_roster hm)).1
    (Nat.not_lt.2 hle)

theorem Hosts.handed (hs : Hosts cluster l₀ H₀ H tenure errand said l)
    (hnone : ∀ k, errand k = none) (hi : Idle H₀ l₀) {P : List Payload → Prop}
    (hP : ∀ new : List (Nat × Payload),
      (∀ k, new.filter (·.1 == k) = said.filter (·.1 == k)) → P (new.map (·.2))) :
    Handed cluster l₀ l P := by
  intro id e he halive
  obtain ⟨new, hall, hrecorded⟩ := hs.recorded_eq hnone hi he halive
  refine ⟨_, hrecorded, ?_⟩
  rw [hi.recorded.ledger.members]
  by_cases hm : id ∈ H₀.roster cluster
  · rw [if_pos hm] at hall ⊢
    exact hP new hall
  · rw [if_neg hm] at hall ⊢
    rw [(perm_of_filter_eq hall).eq_nil, List.map_nil]

/-- An idle line, before the service is registered. -/
theorem hosts_of_idle (hi : Idle H₀ l₀) (cluster : String) :
    Hosts cluster l₀ H₀ H₀ .absent (fun _ => none) [] l₀ where
  recorded := hi.recorded
  owned := hi.owned
  closed_eq := rfl
  added := ⟨[], rfl, fun _ _ => List.not_mem_nil⟩
  tenant := {
    nextId := rfl
    roster := fun other => by simp [Tenure.members]
    opened := nofun
    unborn := fun _ other hin => absurd (hi.recorded.ledger.inserted hin).1 (Nat.lt_irrefl _)
    born := fun _ _ hin _ => hin
    sent := fun other id _ => by
      have hnone : H₀.sent cluster l₀.traffic.relay.nextId = [] :=
        History.sent_eq_nil fun hin => absurd (hi.recorded.ledger.inserted hin).1 (Nat.lt_irrefl _)
      rw [hnone, ite_self, List.append_nil]
    left := nofun }
  calling := {
    rest := fun k _ => by
      rw [Traffic.call?, hi.calls]
      rfl
    call := nofun
    apart := .inl nofun }
  begun k := by
    have hnone : H₀.sent cluster l₀.traffic.relay.nextId = [] :=
      History.sent_eq_nil fun hin => absurd (hi.recorded.ledger.inserted hin).1 (Nat.lt_irrefl _)
    rw [hnone, Traffic.unbegun, Traffic.call?, hi.calls]
    rfl
  owners id p howner := .inl (hi.owners id p howner)
  owner := nofun

end Lockstep.Relay
