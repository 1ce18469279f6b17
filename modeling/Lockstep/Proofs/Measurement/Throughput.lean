import Lockstep.Proofs.Measurement.Latency

/-!
# Measuring throughput on a relay

`Throughput.Hosted` says that a measurement of throughput is on a line that hosts its service: the
owner joins and leaves as caller 0, and the workers broadcast as the callers after it. Every step keeps
it (`Hosted.step`), time-outs and a failed start of the pool included. Where the workers have broadcast
all messages and the relay has nothing left to do, all have been handed to the service
(`Hosted.not_stuck`), so a time-out is never due (`Begun.not_due`).
-/

set_option autoImplicit false

namespace Lockstep.Throughput

open Medium
open Relay (Line Hosts Tenure Errand Apart Restored Handed)
open Scenario (Idle)

variable {S I : Type} {M : Medium S I} {threads messages : Nat}

/-! ## Time-outs -/

/-- A receive does not time out while a message comes for it however the others go on. -/
abbrev Due (M : Medium S I) (messages : Nat) : State S → Label I → Prop :=
  (machine M messages).Due .expire State.stage

def Ending.isLate : Ending → Bool
  | .timedOut _ => true
  | .enough | .startFailed _ => false

/-- A receive has timed out. -/
def Stage.isLate : Stage → Bool
  | .terminating ending | .stop ending | .stopping ending => ending.isLate
  | .over result => isTimeout result
  | _ => false

theorem isLate_of_verdict {failures : List RelayError} {ending : Ending}
    (hlate : isTimeout (verdict messages failures ending) = true) : ending.isLate = true := by
  cases ending with
  | timedOut => rfl
  | enough => cases failures <;> cases hlate
  | startFailed => cases hlate

theorem late_of_effect {s t : State S} {a : Label I} (he : Effect M messages s a t)
    (hlate : t.stage.isLate = true) : s.stage.isLate = true ∨ a = .expire := by
  cases he with
  | order ho =>
    cases ho with
    | expire => exact .inr rfl
    | close hstage | «return» hstage =>
      rw [hstage]
      exact .inl hlate
    | schedule | start | startShort | enough | abandon => cases hlate
  | stop hstage =>
    rw [hstage]
    exact .inl hlate
  | returned hstage =>
    rw [hstage]
    exact .inl (isLate_of_verdict hlate)
  | turn | broadcast | finish | pass => exact .inl hlate
  | noRoom | register | registered | refused | died | receive => cases hlate

/-! ## The run that is performed -/

theorem runWhere_due (hmoves : ∀ m i, i ∉ M.moves m → M.step m i = none) (fuel : Nat) (m : S) :
    ∃ as, (machine M messages).RunWhere (Due M messages) (start threads m) as
      (run M messages fuel threads m) := by
  obtain ⟨as, hr⟩ := reaches_run hmoves fuel m
  refine ⟨as, hr.runWhere_due fun a ha => ?_⟩
  cases a <;> first | rfl | exact absurd rfl ha

/-! ## The measurement on a line -/

/-- What the owner is about. -/
def Stage.errand? : Stage → Option Errand
  | .registering => some .joining
  | .stopping _ => some .leaving
  | _ => none

/-- Worker `w` is caller `w + 1`. -/
def errands (s : State S) : Nat → Option Errand
  | 0 => s.stage.errand?
  | w + 1 => if w ∈ s.asked then some .broadcasting else none

/-- What is returned where the service could be registered. -/
inductive Ends (messages : Nat) (tasks : List Nat) : Except MeasureError Nat → Prop
  | enough : tasks.Perm (List.range messages) → Ends messages tasks (.ok messages)
  | timedOut {r} : Ends messages tasks (.error (.receiveTimeout r))
  | startFailed {e} : Ends messages tasks (.error (.pool e))

/-- The service `n` is a member, and the owner knows it by its number. -/
structure Joined (closed : Bool) (n : Nat) (tenure : Tenure) (conn : Nat) : Prop where
  isOpen : closed = false
  member : tenure = .member
  conn : conn = n

/-- What is known where the owner stands, of a service `n` with this tenure. -/
def Suits (closed : Bool) (n messages : Nat) (tenure : Tenure) (tasks : List Nat)
    (given : List Payload) (conn : Nat) (inbox : Inbox Payload) : Stage → Prop
  | .register => tenure = .absent ∧ tasks = []
  | .registering => tasks = [] ∧ Inbox.Holds (max messages 1) given 0 inbox
  | .schedule _ => Joined closed n tenure conn ∧ Inbox.Holds (max messages 1) given 0 inbox
  | .receive r => Joined closed n tenure conn ∧ Inbox.Holds (max messages 1) given r inbox
  | .abandoned _ | .terminating _ | .stop _ => Joined closed n tenure conn
  | .stopping _ => closed = false
  | .over result =>
    closed = true ∧ tenure = .absent ∧ tasks = [] ∧ result = .error (.relay .relayClosed) ∨
      closed = false ∧ tenure = .gone ∧ Ends messages tasks result
  | .faulted _ | .dead => False

/-- The measurement is on a line that hosts its service, and has broadcast the messages `tasks`. -/
structure Hosted (cluster : String) (l₀ : Line) (H₀ H : Relay.History) (tenure : Tenure)
    (said : List (Nat × Payload)) (threads messages : Nat) (h : Pool.History Nat) (tasks : List Nat)
    (s : State Line) : Prop where
  working : Working threads messages h tasks s
  hosts : Hosts cluster l₀ H₀ H tenure (errands s) said s.medium
  said : said.map (·.2) = tasks.map probe
  failures : s.failures = []
  fits : Suits l₀.traffic.relay.closed l₀.traffic.relay.nextId messages tenure tasks
    (s.medium.traffic.relay.given l₀.traffic.relay.nextId) s.conn s.inbox s.stage

variable {cluster : String} {l₀ : Line} {H₀ H : Relay.History} {tenure tenure' : Tenure}
  {said : List (Nat × Payload)} {h h' : Pool.History Nat} {tasks tasks' : List Nat}
  {s t : State Line} {a : Label Relay.Traffic.Label} {given : List Payload} {closed : Bool}
  {n conn r w i : Nat} {inbox : Inbox Payload} {stage : Stage}

theorem hosted_start (hi : Idle H₀ l₀) (cluster : String) (threads messages : Nat) :
    Hosted cluster l₀ H₀ H₀ .absent [] threads messages [] [] (start threads l₀) where
  working := working_start threads messages l₀
  hosts := by
    have hnone : errands (start threads l₀) = fun _ => none := by
      funext k
      cases k <;> rfl
    rw [hnone]
    exact Relay.hosts_of_idle hi cluster
  said := rfl
  failures := rfl
  fits := ⟨rfl, rfl⟩

/-! ## Errands -/

theorem errands_congr {s t : State S} (hstage : t.stage.errand? = s.stage.errand?)
    (hasked : t.asked = s.asked) : errands t = errands s := by
  funext k
  cases k with
  | zero => exact hstage
  | succ w => simp only [errands, hasked]

theorem update_owner {s t : State S} (hasked : t.asked = s.asked) :
    Function.update (errands s) 0 t.stage.errand? = errands t := by
  funext k
  cases k with
  | zero => exact Function.update_self _ _ _
  | succ w =>
    rw [Function.update_of_ne (Nat.succ_ne_zero w)]
    simp only [errands, hasked]

theorem update_worker {s t : State S} (hstage : t.stage = s.stage)
    (hasked : ∀ v, v ≠ w → (v ∈ t.asked ↔ v ∈ s.asked)) :
    Function.update (errands s) (w + 1) (errands t (w + 1)) = errands t := by
  funext k
  cases k with
  | zero =>
    rw [Function.update_of_ne (Nat.succ_ne_zero w).symm]
    simp only [errands, hstage]
  | succ v =>
    by_cases hv : v = w
    · subst hv
      exact Function.update_self _ _ _
    · rw [Function.update_of_ne (mt Nat.succ.inj hv)]
      simp only [errands, hasked v hv]

/-- Where the owner is on no errand, all that are on one broadcast. -/
theorem apart_of_workers {s : State S} (hnone : s.stage.errand? = none) : Apart (errands s) := by
  refine .inl fun k e hk => ?_
  cases k with
  | zero =>
    rw [show errands s 0 = none from hnone] at hk
    cases hk
  | succ w =>
    obtain ⟨-, heq⟩ := Option.ite_none_right_eq_some.1 hk
    exact (Option.some.inj heq).symm

/-- Where no worker broadcasts, only the owner can be on an errand. -/
theorem apart_of_owner {s : State S} (hnone : s.asked = []) : Apart (errands s) := by
  refine .inr fun k hk => ?_
  cases k with
  | zero => exact absurd rfl hk
  | succ w => simp only [errands, hnone, List.not_mem_nil, if_false]

/-! ## Steps -/

/-- A step of the relay itself. -/
theorem Suits.pass (hfits : Suits closed n messages tenure tasks given conn inbox stage)
    (hsame : tenure' = tenure ∨ ∃ e, stage.errand? = some e ∧ e.changes = true)
    (handover : Option Handover) :
    Suits closed n messages tenure' tasks (given ++ (handover.map (·.m)).toList) conn
      (inbox.put handover) stage := by
  cases stage with
  | registering => exact ⟨hfits.1, hfits.2.put handover⟩
  | stopping | faulted | dead => exact hfits
  | register | abandoned | terminating | stop | «over» =>
    obtain rfl := hsame.resolve_right (by rintro ⟨e, h, -⟩; cases h)
    exact hfits
  | schedule | receive =>
    obtain rfl := hsame.resolve_right (by rintro ⟨e, h, -⟩; cases h)
    exact ⟨hfits.1, hfits.2.put handover⟩

/-- While there are workers the owner stands where it does not matter what they have broadcast. -/
theorem Suits.workers (hfits : Suits closed n messages tenure tasks given conn inbox stage)
    (hstage : (∃ r, stage = .receive r) ∨ (∃ e, stage = .abandoned e) ∨
      ∃ ending, stage = .terminating ending) (tasks' : List Nat) :
    Suits closed n messages tenure tasks' given conn inbox stage ∧ Joined closed n tenure conn ∧
      stage.errand? = none := by
  rcases hstage with ⟨r, rfl⟩ | ⟨e, rfl⟩ | ⟨ending, rfl⟩
  · exact ⟨hfits, hfits.1, rfl⟩
  · exact ⟨hfits, hfits, rfl⟩
  · exact ⟨hfits, hfits, rfl⟩

namespace Hosted

variable (hs : Hosted cluster l₀ H₀ H tenure said threads messages h tasks s)
include hs

/-- Neither the relay nor an errand is touched. -/
theorem of_same (hw : Working threads messages h' tasks t) (hmedium : t.medium = s.medium)
    (herrand : t.stage.errand? = s.stage.errand?) (hasked : t.asked = s.asked)
    (hfailures : t.failures = s.failures)
    (hfits : Suits l₀.traffic.relay.closed l₀.traffic.relay.nextId messages tenure tasks
      (s.medium.traffic.relay.given l₀.traffic.relay.nextId) t.conn t.inbox t.stage) :
    Hosted cluster l₀ H₀ H tenure said threads messages h' tasks t where
  working := hw
  hosts := by
    rw [errands_congr herrand hasked, hmedium]
    exact hs.hosts
  said := hs.said
  failures := hfailures.trans hs.failures
  fits := hmedium ▸ hfits

/-- The owner asks the relay for something while no worker broadcasts. -/
theorem ask {next : Stage} {q : Request} {e : Errand}
    (hw : Working threads messages h' tasks
      (Throughput.ask (Relay.line cluster) { s with inbox } q next))
    (hnone : s.stage.errand? = none) (hasked : s.asked = []) (hnext : next.errand? = some e)
    (ha : Relay.Asks l₀.traffic.relay.closed l₀.traffic.relay.nextId 0 q e tenure [])
    (hfits : Suits l₀.traffic.relay.closed l₀.traffic.relay.nextId messages tenure tasks
      (s.medium.traffic.relay.given l₀.traffic.relay.nextId) s.conn inbox next) :
    ∃ H', Hosted cluster l₀ H₀ H' tenure said threads messages h' tasks
      (Throughput.ask (Relay.line cluster) { s with inbox } q next) := by
  have hupdate : Function.update (errands s) 0 (some e) =
      errands (Throughput.ask (Relay.line cluster) { s with inbox } q next) := by
    rw [← hnext]
    exact update_owner (t := Throughput.ask (Relay.line cluster) { s with inbox } q next) rfl
  have hapart : Apart (errands (Throughput.ask (Relay.line cluster) { s with inbox } q next)) :=
    apart_of_owner hasked
  obtain ⟨H', hhosts⟩ := hs.hosts.ask ha hnone (hupdate ▸ hapart)
  rw [hupdate, List.append_nil] at hhosts
  exact ⟨H', hw, hhosts, hs.said, hs.failures, hfits⟩

/-- The owner hears from the relay how its errand ended. -/
theorem reply {next : Stage} {r : Reply} {l : Line} {e : Errand} (he : s.stage.errand? = some e)
    (hr : s.medium.reply? 0 = some (r, l))
    (hw : Working threads messages h' tasks { s with medium := l, conn, stage := next })
    (hnext : next.errand? = none)
    (hfits : Relay.Answers l₀.traffic.relay.closed l₀.traffic.relay.nextId e r tenure →
      Suits l₀.traffic.relay.closed l₀.traffic.relay.nextId messages tenure tasks
        (s.medium.traffic.relay.given l₀.traffic.relay.nextId) conn s.inbox next) :
    Hosted cluster l₀ H₀ H tenure said threads messages h' tasks
      { s with medium := l, conn, stage := next } := by
  obtain ⟨e', he', ha, hrelay, hhosts⟩ := hs.hosts.reply hr
  obtain rfl : e = e' := Option.some.inj (he.symm.trans he')
  have hupdate : Function.update (errands s) 0 none =
      errands { s with medium := l, conn, stage := next } := by
    rw [← hnext]
    exact update_owner (t := { s with medium := l, conn, stage := next }) rfl
  rw [hupdate] at hhosts
  refine ⟨hw, hhosts, hs.said, hs.failures, ?_⟩
  rw [hrelay]
  exact hfits ha

/-- What the owner orders leaves the relay and the messages alone. -/
theorem fits_of_order {l : Pool.Label Nat} {next : Stage} (ho : Orders messages s a l next) :
    next.errand? = s.stage.errand? ∧
      Suits l₀.traffic.relay.closed l₀.traffic.relay.nextId messages tenure tasks
        (s.medium.traffic.relay.given l₀.traffic.relay.nextId) s.conn s.inbox next := by
  have hfits := hs.fits
  cases ho with
  | schedule hstage | start hstage =>
    rw [hstage] at hfits ⊢
    exact ⟨rfl, hfits⟩
  | startShort hstage | enough hstage | expire hstage =>
    rw [hstage] at hfits ⊢
    exact ⟨rfl, hfits.1⟩
  | abandon hstage | close hstage | «return» hstage =>
    rw [hstage] at hfits ⊢
    exact ⟨rfl, hfits⟩

/-- Who has workers is on no errand of its own. -/
theorem of_workers (hsome : s.pool.workers ≠ []) (tasks' : List Nat) :
    Suits l₀.traffic.relay.closed l₀.traffic.relay.nextId messages tenure tasks'
        (s.medium.traffic.relay.given l₀.traffic.relay.nextId) s.conn s.inbox s.stage ∧
      Joined l₀.traffic.relay.closed l₀.traffic.relay.nextId tenure s.conn ∧
      s.stage.errand? = none :=
  hs.fits.workers (hs.working.stage_of_workers hsome) tasks'

/-- A worker begins to broadcast. -/
theorem broadcast (hw : Working threads messages h' (tasks ++ [i]) t)
    (hsome : s.pool.workers ≠ []) (hfree : w ∉ s.asked)
    (ht : t = { s with
      medium := s.medium.ask cluster (w + 1) (.broadcast s.conn (probe i))
      asked := w :: s.asked }) :
    ∃ H' said', Hosted cluster l₀ H₀ H' tenure said' threads messages h' (tasks ++ [i]) t := by
  subst ht
  obtain ⟨hfits, hjoined, hnone⟩ := hs.of_workers hsome (tasks ++ [i])
  obtain ⟨hopen, rfl, hconn⟩ := hjoined
  have ha : Relay.Asks l₀.traffic.relay.closed l₀.traffic.relay.nextId (w + 1)
      (.broadcast s.conn (probe i)) .broadcasting .member [(w + 1, probe i)] := by
    rw [hconn]
    exact .broadcast hopen
  have hnew : errands { s with asked := w :: s.asked } (w + 1) = some .broadcasting :=
    if_pos List.mem_cons_self
  have hupdate : Function.update (errands s) (w + 1) (some .broadcasting) =
      errands { s with asked := w :: s.asked } := by
    rw [← hnew]
    refine update_worker rfl fun v hv => ?_
    simp [hv]
  obtain ⟨H', hhosts⟩ := hs.hosts.ask ha (if_neg hfree) (hupdate ▸ apart_of_workers hnone)
  rw [hupdate] at hhosts
  refine ⟨H', _, hw, hhosts, ?_, hs.failures, hfits⟩
  rw [List.map_append, List.map_append, hs.said]
  rfl

/-- A worker hears of its broadcast, which does not fail. -/
theorem finish {r : Reply} {l : Line} {pool : Pool Nat} (hmem : w ∈ s.asked)
    (hr : s.medium.reply? (w + 1) = some (r, l))
    (hw : Working threads messages h' tasks { s with
      medium := l, pool
      asked := s.asked.erase w
      failures := s.failures ++ r.error?.toList }) :
    Hosted cluster l₀ H₀ H tenure said threads messages h' tasks { s with
      medium := l, pool
      asked := s.asked.erase w
      failures := s.failures ++ r.error?.toList } := by
  obtain ⟨e, he, ha, hrelay, hhosts⟩ := hs.hosts.reply hr
  have hbroadcasting : errands s (w + 1) = some .broadcasting := if_pos hmem
  rw [hbroadcasting] at he
  cases he
  -- the service is a member of an open relay, so the answer is no error
  cases ha
  have hgone : errands { s with asked := s.asked.erase w } (w + 1) = none :=
    if_neg fun hin => (hs.working.apart.mem_erase_iff.1 hin).1 rfl
  have hupdate : Function.update (errands s) (w + 1) none =
      errands { s with asked := s.asked.erase w } := by
    rw [← hgone]
    refine update_worker rfl fun v hv => ?_
    exact List.mem_erase_of_ne hv
  rw [hupdate] at hhosts
  refine ⟨hw, hhosts, hs.said, ?_, ?_⟩
  · rw [hs.failures]
    rfl
  · rw [hrelay]
    exact hs.fits

/-- The relay goes on by itself. -/
theorem pass {b : Relay.Traffic.Label} {l : Line} {handover : Option Handover}
    (hw : Working threads messages h' tasks
      { s with medium := l, inbox := s.inbox.put handover })
    (hstep : s.medium.step b = some (l, handover)) : ∃ H' tenure',
      Hosted cluster l₀ H₀ H' tenure' said threads messages h' tasks
        { s with medium := l, inbox := s.inbox.put handover } := by
  have hsteps := Relay.Line.steps_of_step hstep
  obtain ⟨H', tenure', hhosts, hchange⟩ := hs.hosts.steps hsteps
  refine ⟨H', tenure', hw, hhosts, hs.said, hs.failures, ?_⟩
  rw [hs.hosts.given_eq hsteps]
  refine hs.fits.pass (hchange.imp_right ?_) _
  rintro ⟨k, e, hk, hchanges⟩
  cases k with
  | zero => exact ⟨e, hk, hchanges⟩
  | succ w =>
    -- a worker only broadcasts
    obtain ⟨-, heq⟩ := Option.ite_none_right_eq_some.1 hk
    cases heq
    cases hchanges

theorem step (hthreads : 0 < threads) (hroom : (probeInbox messages).isOk = true)
    (he : Effect (Relay.line cluster) messages s a t) :
    ∃ h' H' tenure' said' tasks',
      Hosted cluster l₀ H₀ H' tenure' said' threads messages h' tasks' t := by
  obtain ⟨h', hw⟩ := hs.working.step hthreads he
  have hfits := hs.fits
  have hstands := hs.working.stands
  have hsame (hnone : begins s a = []) : Working threads messages h' tasks t := by
    rwa [hnone, List.append_nil] at hw
  cases he with
  | noRoom _ hinbox =>
    rw [hinbox] at hroom
    cases hroom
  | register hstage hinbox =>
    rw [hstage] at hfits hstands
    obtain ⟨rfl, rfl⟩ := hfits
    obtain ⟨-, rfl⟩ := Inbox.ofCapacity_eq_ok_iff.1 hinbox
    have hasked := hs.working.asked_eq_nil (Collecting.workers_eq hstands hs.working.course.sound)
    obtain ⟨H', hs'⟩ := hs.ask (hsame rfl) (by rw [hstage]; rfl) hasked
      (show Stage.errand? .registering = _ from rfl) .register
      ⟨rfl, hs.hosts.holds_of_absent rfl _⟩
    exact ⟨_, H', _, _, _, hs'⟩
  | registered hstage hr =>
    rw [hstage] at hfits
    refine ⟨_, _, _, _, _, hs.reply (congrArg Stage.errand? hstage) hr (hsame rfl) rfl fun ha => ?_⟩
    cases ha with
    | joined hopen => exact ⟨⟨hopen, rfl, rfl⟩, hfits.2⟩
  | refused hstage hr =>
    rw [hstage] at hfits
    refine ⟨_, _, _, _, _, hs.reply (congrArg Stage.errand? hstage) hr (hsame rfl) rfl fun ha => ?_⟩
    cases ha with
    | refused hclosed => exact .inl ⟨hclosed, rfl, hfits.1, rfl⟩
  | died _ hr => exact absurd hr hs.hosts.not_died
  | order ho =>
    obtain ⟨herrand, hfits'⟩ := hs.fits_of_order ho
    exact ⟨_, _, _, _, _, hs.of_same (hsame (by cases ho <;> rfl)) rfl herrand rfl rfl hfits'⟩
  | receive hstage hlt hreceive =>
    rw [hstage] at hfits
    refine ⟨_, _, _, _, _, hs.of_same (hsame rfl) rfl (by rw [hstage]; rfl) rfl rfl ⟨hfits.1, ?_⟩⟩
    exact hfits.2.receive (Nat.lt_of_lt_of_le hlt (Nat.le_max_left _ _)) hreceive
  | @stop ending hstage =>
    rw [hstage] at hfits hstands
    obtain ⟨hopen, rfl, hconn⟩ := hfits
    have ha : Relay.Asks l₀.traffic.relay.closed l₀.traffic.relay.nextId 0 (ending.farewell s.conn)
        .leaving .member [] := by
      rw [hconn]
      cases ending with
      | enough => exact .unregister hopen
      | timedOut | startFailed => exact .drop hopen
    have hasked := hs.working.asked_eq_nil hstands.2.1
    obtain ⟨H', hs'⟩ := hs.ask (hsame rfl) (by rw [hstage]; rfl) hasked
      (show (Stage.stopping ending).errand? = _ from rfl) ha hopen
    exact ⟨_, H', _, _, _, hs'⟩
  | @returned ending reply medium hstage hr =>
    rw [hstage] at hfits
    have hends : Ends messages tasks (verdict messages s.failures ending) := by
      rw [hs.failures]
      cases ending with
      | enough => exact .enough (hs.working.perm_of_drained (.inr hstage))
      | timedOut => exact .timedOut
      | startFailed => exact .startFailed
    refine ⟨_, _, _, _, _, hs.reply (congrArg Stage.errand? hstage) hr (hsame rfl) rfl fun ha => ?_⟩
    cases ha with
    | left => exact .inr ⟨hfits, rfl, hends⟩
  | turn hl hstep =>
    exact ⟨_, _, _, _, _, hs.of_same (hsame (begins_of_turn hl hstep)) rfl rfl rfl rfl hfits⟩
  | @broadcast w i hrunning hfree =>
    have hi := Pool.task?_eq_some_iff.2 hrunning
    have hsome : s.pool.workers ≠ [] := List.ne_nil_of_mem (List.mem_of_getElem? hrunning)
    simp only [begins, if_neg hfree, hi, Option.toList_some] at hw
    obtain ⟨H', said', hs'⟩ := hs.broadcast hw hsome hfree rfl
    exact ⟨_, H', _, said', _, hs'⟩
  | finish hrunning hmem hr => exact ⟨_, _, _, _, _, hs.finish hmem hr (hsame (if_pos hmem))⟩
  | pass hstep =>
    obtain ⟨H', tenure', hs'⟩ := hs.pass (hsame rfl) hstep
    exact ⟨_, H', tenure', _, _, hs'⟩

/-- Where the relay and the workers have nothing left to do, there is a message to receive. -/
theorem not_stuck (hi : Idle H₀ l₀) (hstage : s.stage = .receive r) (hlt : r < messages)
    (hempty : s.inbox.items.toList = []) (hhalted : ∀ b, s.medium.step b = none)
    (hexhausted : Exhausted s.pool) : False := by
  have hfits := hs.fits
  rw [hstage] at hfits
  obtain ⟨⟨-, hmember, -⟩, hholds⟩ := hfits
  have hasked : s.asked = [] := by
    have hle := hs.working.length_asked_le
    rw [hexhausted.held_eq_nil.2] at hle
    exact List.eq_nil_of_length_eq_zero (Nat.le_zero.1 hle)
  have hnone (k : Nat) : errands s k = none := by
    cases k with
    | zero =>
      show s.stage.errand? = none
      rw [hstage]
      rfl
    | succ => exact if_neg (hasked ▸ List.not_mem_nil)
  -- what the handler was given is received, and it was given one message for each task
  have hall := hholds.length_eq_of_empty (Nat.lt_of_lt_of_le hlt (Nat.le_max_left _ _)) hempty
  have hgiven := hs.hosts.length_given hnone hi hhalted hmember
  have hsaid := congrArg List.length hs.said
  have htasks := (hs.working.perm_of_exhausted hstage hexhausted).length_eq
  rw [List.length_map, List.length_map] at hsaid
  rw [List.length_range] at htasks
  omega

end Hosted

/-! ## Runs -/

/-- A state of a measurement that began on the line `l₀`. -/
def Begun (cluster : String) (l₀ : Line) (H₀ : Relay.History) (threads messages : Nat)
    (s : State Line) : Prop :=
  ∃ h H tenure said tasks, Hosted cluster l₀ H₀ H tenure said threads messages h tasks s

theorem begun_start (hi : Idle H₀ l₀) (cluster : String) (threads messages : Nat) :
    Begun cluster l₀ H₀ threads messages (start threads l₀) :=
  ⟨_, _, _, _, _, hosted_start hi cluster threads messages⟩

section
variable {ok : State Line → Label Relay.Traffic.Label → Prop}
  {as : List (Label Relay.Traffic.Label)} {result : Except MeasureError Nat}
  (hi : Idle H₀ l₀) (hthreads : 0 < threads) (hroom : (probeInbox messages).isOk = true)
include hthreads hroom

theorem Begun.step (hb : Begun cluster l₀ H₀ threads messages s)
    (hstep : (machine (Relay.line cluster) messages).step s a = some t) :
    Begun cluster l₀ H₀ threads messages t := by
  obtain ⟨h, H, tenure, said, tasks, hs⟩ := hb
  exact hs.step hthreads hroom (effect_of_step hstep)

include hi

/-- The relay answers in the end, and nothing needs to time out. -/
theorem steady_on_line (cluster : String) (hok : ∀ s a, a ≠ .expire → ok s a) :
    Steady (Relay.line cluster) threads messages (Line.work (l₀.traffic.relay.nextId + 1))
      (3 * (l₀.traffic.relay.nextId + 1) + 4) ok (Begun cluster l₀ H₀ threads messages) where
  working := by
    rintro s ⟨h, H, tenure, said, tasks, hs⟩
    exact ⟨h, tasks, hs.working⟩
  step _ _ _ hb _ hstep := Begun.step hthreads hroom hb hstep
  measured := by
    rintro s ⟨h, H, tenure, said, tasks, hs⟩
    exact hs.hosts.measured
  alive := by
    rintro s ⟨h, H, tenure, said, tasks, hs⟩
    have hfits := hs.fits
    constructor
    · intro hstage
      rw [hstage] at hfits
      exact hfits
    · intro f hstage
      rw [hstage] at hfits
      exact hfits
  unhurried := hok
  answers := by
    rintro s ⟨h, H, tenure, said, tasks, hs⟩ hhalted
    refine ⟨fun w hmem => hs.hosts.answers (k := w + 1) hhalted (if_pos hmem), fun hawaits => ?_⟩
    have hsome : ∃ e, s.stage.errand? = some e := by
      cases hstage : s.stage with
      | registering => exact ⟨_, rfl⟩
      | stopping => exact ⟨_, rfl⟩
      | _ =>
        rw [hstage] at hawaits
        cases hawaits
    obtain ⟨e, he⟩ := hsome
    exact hs.hosts.answers (k := 0) hhalted he
  patient := by
    rintro s r ⟨h, H, tenure, said, tasks, hs⟩ hhalted hstage hlt hempty hexhausted
    exact (hs.not_stuck hi hstage hlt hempty hhalted hexhausted).elim

/-- **No time-out is due**: the message that is to be received comes, whatever is done first. -/
theorem Begun.not_due (hb : Begun cluster l₀ H₀ threads messages s) (hstage : s.stage = .receive r) :
    ¬ Due (Relay.line cluster) messages s .expire := by
  refine Machine.not_due (fun s a t hb hstep => Begun.step hthreads hroom hb hstep) hb ?_
  intro t ht hquiet hsame
  have hsteady : Steady (Relay.line cluster) threads messages _ _ (fun _ a => a ≠ .expire)
      (Begun cluster l₀ H₀ threads messages) :=
    steady_on_line hi hthreads hroom cluster fun _ _ ha => ha
  obtain ⟨result, hresult⟩ := hsteady.returned_of_quiet hthreads ht hquiet
  have hover := stage_of_result hresult
  rw [hsame, hstage] at hover
  cases hover

/-- In a run without undue time-outs nothing times out. -/
theorem Begun.isLate_eq_false (hb : Begun cluster l₀ H₀ threads messages s)
    (hlate : s.stage.isLate = false)
    (hr : (machine (Relay.line cluster) messages).RunWhere (Due (Relay.line cluster) messages) s as
      t) : t.stage.isLate = false := by
  refine Bool.eq_false_iff.2 (hr.not_late (fun s a t hb hstep => Begun.step hthreads hroom hb hstep) hb
    (fun s t hb hstep => ?_) (fun s a t hstep => late_of_effect (effect_of_step hstep))
    (Bool.eq_false_iff.1 hlate))
  have he : Effect (Relay.line cluster) messages s .expire t := effect_of_step hstep
  cases he with
  | order ho =>
    cases ho with
    | expire hstage => exact hb.not_due hi hthreads hroom hstage

end

/-! ## What it returns -/

namespace Hosted

variable (hs : Hosted cluster l₀ H₀ H tenure said threads messages h tasks s) (hi : Idle H₀ l₀)
  {result : Except MeasureError Nat} (hstage : s.stage = .over result)
include hs hstage

theorem errands_of_over (k : Nat) : errands s k = none := by
  have hstands := hs.working.stands
  rw [hstage] at hstands
  cases k with
  | zero =>
    show s.stage.errand? = none
    rw [hstage]
    rfl
  | succ w => exact if_neg (hs.working.asked_eq_nil hstands.2 ▸ List.not_mem_nil)

include hi

theorem restored : Restored l₀ s.medium := by
  have hfits := hs.fits
  rw [hstage] at hfits
  refine hs.hosts.restored (hs.errands_of_over hstage) hi ?_
  rcases hfits with ⟨-, htenure, -⟩ | ⟨-, htenure, -⟩
  · exact .inl htenure
  · exact .inr htenure

theorem returns (hlate : s.stage.isLate = false) :
    Measurement.Returns cluster messages (·.Perm (probes messages)) l₀ s.medium result ∨
      l₀.traffic.relay.closed = false ∧ ∃ e, result = .error (.pool e) := by
  have hfits := hs.fits
  rw [hstage] at hfits hlate
  have hnone := hs.errands_of_over hstage
  have hheard (new : List (Nat × Payload))
      (hall : ∀ k, new.filter (·.1 == k) = said.filter (·.1 == k)) :
      (new.map (·.2)).Perm (tasks.map probe) :=
    hs.said ▸ (Relay.perm_of_filter_eq hall).map (·.2)
  rcases hfits with ⟨hclosed, -, rfl, rfl⟩ | ⟨hopen, -, hends⟩
  · exact .inl (.refused hclosed (hs.hosts.handed hnone hi fun new hall => (hheard new hall).eq_nil))
  · cases hends with
    | enough htasks =>
      refine .inl (.ok hopen (hs.hosts.handed hnone hi fun new hall => ?_))
      exact (hheard new hall).trans (htasks.map probe)
    | timedOut => cases hlate
    | startFailed => exact .inr ⟨hopen, _, rfl⟩

end Hosted

section
variable (hi : Idle H₀ l₀) (hthreads : 0 < threads) (hroom : (probeInbox messages).isOk = true)
include hi hthreads hroom

/-- A measurement of throughput comes to an end, and needs no time-out for it. -/
theorem settles_on_line (cluster : String) {ok : State Line → Label Relay.Traffic.Label → Prop}
    (hok : ∀ s a, a ≠ .expire → ok s a) :
    (machine (Relay.line cluster) messages).Settles ok Returned (start threads l₀) :=
  (steady_on_line hi hthreads hroom cluster hok).settles hthreads
    (begun_start hi cluster threads messages)

theorem restored_after {as : List (Label Relay.Traffic.Label)} {result : Except MeasureError Nat}
    (hr : (machine (Relay.line cluster) messages).RunWhere (fun _ _ => True) (start threads l₀) as t)
    (hresult : result? t = .ok (some result)) : Restored l₀ t.medium := by
  have hsteady : Steady (Relay.line cluster) threads messages _ _ (fun _ _ => True)
      (Begun cluster l₀ H₀ threads messages) :=
    steady_on_line hi hthreads hroom cluster fun _ _ _ => trivial
  obtain ⟨⟨h, H, tenure, said, tasks, hs⟩, -⟩ :=
    hsteady.of_runWhere hr (begun_start hi cluster threads messages) rfl
  exact hs.restored hi (stage_of_result hresult)

theorem returns_after {as : List (Label Relay.Traffic.Label)} {result : Except MeasureError Nat}
    (hr : (machine (Relay.line cluster) messages).RunWhere (Due (Relay.line cluster) messages)
      (start threads l₀) as t) (hresult : result? t = .ok (some result)) :
    Measurement.Returns cluster messages (·.Perm (probes messages)) l₀ t.medium result ∨
      l₀.traffic.relay.closed = false ∧
        ∃ made reason, .startShort made reason ∈ as ∧ result = .error (.pool (.spawn reason)) := by
  have hbegin := begun_start hi cluster threads messages
  have hsteady : Steady (Relay.line cluster) threads messages _ _
      (Due (Relay.line cluster) messages) (Begun cluster l₀ H₀ threads messages) :=
    steady_on_line hi hthreads hroom cluster fun s a => Machine.due_of_ne
  obtain ⟨⟨h, H, tenure, said, tasks, hs⟩, hshort⟩ := hsteady.of_runWhere hr hbegin rfl
  have hstage := stage_of_result hresult
  refine (hs.returns hi hstage (hbegin.isLate_eq_false hi hthreads hroom rfl hr)).imp_right ?_
  rintro ⟨hopen, e, rfl⟩
  obtain ⟨made, reason, hmem, rfl⟩ := hshort e (by rw [hstage]; rfl)
  exact ⟨hopen, made, reason, hmem, rfl⟩

end

end Lockstep.Throughput
