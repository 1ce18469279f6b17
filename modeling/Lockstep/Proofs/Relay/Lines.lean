import Mathlib.Algebra.Order.BigOperators.Group.List
import Mathlib.Algebra.Order.Group.Nat
import Mathlib.Data.List.Perm.Subperm
import Lockstep.Proofs.Relay.Handling
import Lockstep.Proofs.Sums
import Lockstep.Relay.Line

/-!
# A relay as a medium

Whatever is asked of a `Line` and whatever step it takes is a step of its traffic
(`Line.step_of_ask`, `Line.reply?_eq_some_iff`, `Line.Steps`). The calls that have been asked for are
never stuck: `Line.over_of_halted` says that where a line takes no step by itself all of them are
over. `Line.work` counts the steps that a line can take by itself, and `Line.moves` names them
(`Line.step_eq_none_of_not_mem`).

`Relay.given` is what the handler of a service was given so far. Only a step that takes a message from
its queue adds to it (`Line.Steps.given_eq`).
-/

set_option autoImplicit false

namespace Lockstep

/-- The steps that the messages of a service take to be handled. -/
def Endpoint.work (e : Endpoint) : Nat := 2 * e.queue.toList.length + if e.busy then 1 else 0

namespace Relay

/-- The steps of the call that are left, with a broadcast to `n` members at most, and those that its
messages take to be handled. -/
def Call.work (n : Nat) : Call → Nat
  | .ask (some _) => 4
  | .ask none => 2
  | .takeId (some _) => 3
  | .takeId none => 1
  | .initialise _ _ => 2
  | .insert _ _ => 1
  | .broadcast _ _ _ => 3 * n + 4
  | .askBroadcast _ _ => 3 * n + 3
  | .lock _ _ => 3 * n + 2
  | .walk _ _ left => 3 * left.length + 1
  | .close _ => 1
  | .remove _ _ => 4
  | .sweep _ _ => 3
  | .hangUp _ => 2
  | .join _ => 1
  | .shutdown => 2
  | .clear => 1
  | .over _ => 0

namespace Line

open Medium

/-- The request to the relay that a request to the line is. -/
def request (cluster : String) : Medium.Request → Relay.Request
  | .connect => .connect
  | .register => .register cluster
  | .broadcast conn m => .broadcast conn cluster m
  | .close conn => .close conn
  | .unregister conn | .drop conn => .unregister cluster conn

def replyOf : Except RelayError (Option Nat) → Reply
  | .ok conn => .ok (conn.getD 0)
  | .error e => .failed e

/-- The service whose handler is noted in the next step of the call. -/
def owned (k : Nat) : Call → List (Nat × Nat)
  | .initialise _ id => [(id, k)]
  | _ => []

/-- What a line does by itself, and what it hands over. -/
inductive Steps (l : Line) : Traffic.Label → Line → Option Handover → Prop
  | take {id m relay} : l.traffic.relay.take id = some (m, relay) →
      Steps l (.take id) { l with traffic := { l.traffic with relay } } (l.handover id m)
  | move {k c a es relay c'} : l.traffic.call? k = some c → l.traffic.Moves k c a es relay c' →
      (∀ cause, a ≠ .initialised k (some cause)) →
      Steps l a { traffic := { l.traffic with relay }.setCall k c', owners := l.owners ++ owned k c }
        none
  | finish {id relay} : l.traffic.relay.finish id false = some relay →
      Steps l (.finish id false) { l with traffic := { l.traffic with relay } } none

variable {cluster : String} {l l' : Line} {p id : Nat} {q : Medium.Request} {reply : Reply}
  {a : Traffic.Label} {handover : Option Handover}

theorem call_eq (cluster : String) (q : Medium.Request) :
    call cluster q = (request cluster q).call := by
  cases q <;> rfl

theorem step_of_ask (hc : l.traffic.call? p = none) :
    l.traffic.step (.start p (request cluster q)) = some (l.ask cluster p q).traffic := by
  simp [Traffic.step, hc, ask, call_eq]

theorem reply?_eq_some_iff : l.reply? p = some (reply, l') ↔
    ∃ result, l.traffic.call? p = some (.over result) ∧ reply = replyOf result ∧
      l' = { l with traffic := l.traffic.dropCall p } := by
  simp only [reply?, Traffic.collect]
  cases hc : l.traffic.call? p with
  | none => simp
  | some c =>
    cases c with
    | «over» result =>
      cases result with
      | ok conn => simp [replyOf, eq_comm]
      | error e => simp [replyOf, eq_comm]
    | _ => simp

theorem own_traffic : (l.own p).traffic = l.traffic := by
  rw [own]
  split <;> rfl

theorem steps_of_step (h : l.step a = some (l', handover)) : l.Steps a l' handover := by
  have hsilent {l : Line} (hs : l.silent a = some (l', handover)) :
      ∃ traffic, l.traffic.step a = some traffic ∧ l' = { l with traffic } ∧ handover = none := by
    obtain ⟨traffic, hstep, heq⟩ := Option.map_eq_some_iff.1 hs
    cases heq
    exact ⟨traffic, hstep, rfl, rfl⟩
  cases a with
  | take id =>
    obtain ⟨⟨m, relay⟩, ht, heq⟩ := Option.map_eq_some_iff.1 h
    cases heq
    exact .take ht
  | finish id panicked =>
    cases panicked with
    | true => cases h
    | false =>
      obtain ⟨traffic, hs, rfl, rfl⟩ := hsilent h
      obtain ⟨relay, hf, rfl⟩ := Option.map_eq_some_iff.1 hs
      exact .finish hf
  | advance p =>
    obtain ⟨traffic, hs, rfl, rfl⟩ := hsilent h
    have he := Traffic.effect_of_step hs
    generalize l.traffic.events (.advance p) = es at he
    cases he with
    | @move k c _ _ _ _ hc hm =>
      -- the handler is initialised in a step of its own
      have hnone : owned k c = [] := by
        cases hm with
        | refuse hr => cases hr <;> rfl
        | _ => rfl
      rw [← List.append_nil l.owners, ← hnone]
      exact .move hc hm nofun
  | enqueue p id =>
    obtain ⟨traffic, hs, rfl, rfl⟩ := hsilent h
    have he := Traffic.effect_of_step hs
    generalize l.traffic.events (.enqueue p id) = es at he
    cases he with
    | move hc hm =>
      cases hm with
      | enqueue hid =>
        rw [← List.append_nil l.owners]
        exact .move hc (.enqueue hid) nofun
  | initialised p failure =>
    cases failure with
    | some => cases h
    | none =>
      obtain ⟨traffic, hs, rfl, rfl⟩ := hsilent h
      rw [own_traffic] at hs
      have he := Traffic.effect_of_step hs
      generalize l.traffic.events (.initialised p none) = es at he
      cases he with
      | move hc hm =>
        cases hm with
        | @initialise cluster id =>
          have hown : l.own p = { l with owners := l.owners ++ [(id, p)] } := by rw [own, hc]
          rw [hown]
          exact .move hc .initialise nofun
  | start | collect => cases h

theorem Steps.step (hs : l.Steps a l' handover) : l.traffic.step a = some l'.traffic := by
  cases hs with
  | take ht => simp [Traffic.step, ht]
  | move hc hm => exact hm.step_eq hc
  | finish hf => simp [Traffic.step, hf]

theorem mem_endpointMoves_take {e : Endpoint} (hbusy : e.busy = false)
    (hqueue : e.queue.toList ≠ []) : .take id ∈ endpointMoves e id := by
  have hempty : e.queue.isEmpty = false := by
    rw [Bool.eq_false_iff]
    exact mt Queue.isEmpty_iff.1 hqueue
  simp [endpointMoves, hbusy, hempty]

/-- A line names all steps that it can take. -/
theorem Steps.mem_moves (hs : l.Steps a l' handover) : a ∈ l.moves := by
  have hendpoint {id : Nat} {e : Endpoint} (he : l.traffic.relay.endpoints[id]? = some e)
      (ha : a ∈ endpointMoves e id) : a ∈ l.moves :=
    List.mem_append_left _ (List.mem_flatMap.2 ⟨(e, id), List.mem_zipIdx_iff_getElem?.2 he, ha⟩)
  cases hs with
  | take ht =>
    obtain ⟨e, queue, he, hbusy, -, hpop, -⟩ := take_eq_some_iff.1 ht
    refine hendpoint he (mem_endpointMoves_take hbusy ?_)
    rw [Queue.toList_eq_of_pop? hpop]
    nofun
  | finish hf =>
    obtain ⟨e, he, hbusy, -⟩ := finish_eq_some_iff.1 hf
    exact hendpoint he (by simp [endpointMoves, hbusy])
  | @move k c _ _ _ _ hc hm hinit =>
    obtain ⟨before, after, hcalls, -⟩ := List.lookup_eq_some_iff.1 hc
    refine List.mem_append_right _ (List.mem_flatMap.2 ⟨(k, c), by simp [hcalls], ?_⟩)
    cases hm with
    | @enqueue cluster m left id hid =>
      cases left with
      | nil => cases hid
      | cons => exact List.mem_map_of_mem hid
    | fail => exact absurd rfl (hinit _)
    | refuse hr => cases hr <;> exact List.mem_singleton_self _
    | _ => exact List.mem_singleton_self _

theorem step_eq_none_of_not_mem (ha : a ∉ l.moves) : l.step a = none := by
  rw [Option.eq_none_iff_forall_ne_some]
  rintro ⟨l', handover⟩ hs
  exact ha (steps_of_step hs).mem_moves

/-- The steps that the line can take, with clusters of `n` members at most. -/
def work (n : Nat) (l : Line) : Nat :=
  (l.traffic.calls.map fun entry => entry.2.work n).sum +
    (l.traffic.relay.endpoints.map Endpoint.work).sum

end Line

/-! ## How many steps are left -/

variable {h : History} {t u : Traffic} {k id n : Nat} {c c' : Call} {a : Traffic.Label}
  {es : History} {r relay : Relay} {m : Payload}

theorem map_setCall_callers : ((t.setCall k c).calls.map (·.1)) = t.calls.map (·.1) := by
  rw [Traffic.setCall, List.map_map]
  refine List.map_congr_left fun entry _ => ?_
  simp only [Function.comp_apply]
  split <;> rfl

/-- A caller has one call under way at most. -/
theorem Recorded.nodup_callers (hr : Recorded h t) : (t.calls.map (·.1)).Nodup := by
  refine hr.invariant (P := fun _ t => (t.calls.map (·.1)).Nodup) List.nodup_nil ?_
  rintro h t a es u - - hnodup he
  cases he with
  | @start k request hc =>
    rw [Traffic.start, List.map_append, List.nodup_append]
    refine ⟨hnodup, List.nodup_singleton _, ?_⟩
    rintro j hj _ hm rfl
    obtain ⟨entry, hentry, rfl⟩ := List.mem_map.1 hj
    obtain rfl := List.mem_singleton.1 hm
    simpa using List.lookup_eq_none_iff.1 hc entry hentry
  | move =>
    rw [map_setCall_callers]
    exact hnodup
  | collect => exact hnodup.sublist (List.filter_sublist.map _)
  | take | finish => exact hnodup

/-- Each member has a number of its own. -/
theorem Recorded.length_members_le (hr : Recorded h t) (cluster : String) :
    (t.relay.members cluster).length ≤ t.relay.nextId := by
  have hl := hr.ledger
  rw [hl.members]
  have hsub : h.roster cluster ⊆ List.range t.relay.nextId := fun id hm =>
    List.mem_range.2 (hl.inserted (History.inserted_of_mem_roster hm)).1
  have hle := (List.subperm_of_subset (History.nodup_roster cluster h) hsub).length_le
  rwa [List.length_range] at hle

theorem sum_work_modify {f : Endpoint → Endpoint} (hf : ∀ e, (f e).work ≤ e.work + k) :
    ((r.modifyEndpoint id f).endpoints.map Endpoint.work).sum ≤
      (r.endpoints.map Endpoint.work).sum + k := by
  rw [modifyEndpoint, List.modify_eq_set_getElem?]
  cases he : r.endpoints[id]? with
  | none => exact Nat.le_add_right _ _
  | some e =>
    have hset := sum_map_set (y := f e) Endpoint.work he
    have hle := hf e
    simp only [Option.map_eq_map, Option.map_some, Option.getD_some]
    omega

theorem sum_work_enqueue (r : Relay) (m : Payload) (id : Nat) :
    ((r.enqueue m id).endpoints.map Endpoint.work).sum ≤
    (r.endpoints.map Endpoint.work).sum + 2 := by
  refine sum_work_modify fun e => ?_
  split
  · exact Nat.le_add_right _ _
  · simp [Endpoint.work]
    omega

theorem sum_work_close (r : Relay) (id : Nat) :
    ((r.close id).endpoints.map Endpoint.work).sum ≤
    (r.endpoints.map Endpoint.work).sum :=
  sum_work_modify (k := 0) fun _ => Nat.le_refl _

theorem Traffic.Moves.work_lt (hm : t.Moves k c a es relay c')
    (hn : ∀ cluster, (t.relay.members cluster).length ≤ n) :
    c'.work n + (relay.endpoints.map Endpoint.work).sum <
      c.work n + (t.relay.endpoints.map Endpoint.work).sum := by
  cases hm with
  | connect | takeId => simp [newEndpoint, Call.work, Endpoint.work]
  | insert => simp [Call.work]
  | @lock cluster =>
    have hle := hn cluster
    simp only [Call.work]
    omega
  | @enqueue cluster m left id hid =>
    have hlt := List.length_erase_of_mem hid
    have hpos := List.length_pos_of_mem hid
    have hle := sum_work_enqueue t.relay m id
    simp only [Call.work]
    omega
  | @close conn | @hangUp conn =>
    have hle := sum_work_close t.relay conn
    simp only [Call.work]
    omega
  | remove | removeLast | sweep | clear | shutdown =>
    exact Nat.add_lt_add_right (by simp [Call.work]) _
  | refuse hr =>
    cases hr with
    | @ask cluster => cases cluster <;> simp [Call.work]
    | broadcast | askBroadcast => simp [Call.work]
  | @ask cluster => cases cluster <;> simp [Call.work]
  | _ => simp [Call.work]

namespace Line

variable {l l' : Line} {cluster : String} {q : Medium.Request} {reply : Medium.Reply}
  {handover : Option Medium.Handover}

theorem work_ask_le (n : Nat) (l : Line) (cluster : String) (k : Nat) (q : Medium.Request) :
    (l.ask cluster k q).work n ≤ l.work n + (3 * n + 4) := by
  have hcall : (call cluster q).work n ≤ 3 * n + 4 := by
    cases q <;> simp [call, Request.call, Call.work]
  simp only [work, ask, Traffic.start, List.map_append, List.map_cons, List.map_nil,
    List.sum_append, List.sum_singleton]
  omega

theorem work_reply_le (hr : l.reply? k = some (reply, l')) : l'.work n ≤ l.work n := by
  obtain ⟨result, -, -, rfl⟩ := reply?_eq_some_iff.1 hr
  have hsub : ((l.traffic.dropCall k).calls.map fun entry => entry.2.work n).Sublist
      (l.traffic.calls.map fun entry => entry.2.work n) := List.filter_sublist.map _
  exact Nat.add_le_add_right (hsub.sum_le_sum fun _ _ => Nat.zero_le _) _

section
variable (hrecorded : Recorded h l.traffic)
  (hn : ∀ cluster, (l.traffic.relay.members cluster).length ≤ n)
include hrecorded hn

/-- Each step that a line takes by itself is one less to take. -/
theorem Steps.work_lt (hs : l.Steps a l' handover) : l'.work n < l.work n := by
  cases hs with
  | @take id m relay ht =>
    obtain ⟨e, queue, he, hbusy, -, hpop, rfl⟩ := take_eq_some_iff.1 ht
    have hset := sum_map_set (y := { e with queue, handled := e.handled.push m, busy := true })
      Endpoint.work he
    have hlength := congrArg List.length (Queue.toList_eq_of_pop? hpop)
    rw [List.length_cons] at hlength
    simp only [work, Endpoint.work, hbusy, Bool.false_eq_true, if_false, if_true] at hset ⊢
    omega
  | @move _ _ _ _ _ c' hc hm =>
    have hsum := sum_map_update (b := c') (Call.work n) hrecorded.nodup_callers hc
    have hlt := hm.work_lt hn
    simp only [work, Traffic.setCall] at hsum ⊢
    omega
  | finish hf =>
    obtain ⟨e, he, hbusy, rfl⟩ := finish_eq_some_iff.1 hf
    have hset := sum_map_set (y := { e with busy := false, dead := false }) Endpoint.work he
    simp only [work, Endpoint.work, hbusy, Bool.false_eq_true, if_false, if_true] at hset ⊢
    omega

end

/-! ## Where a line takes no step by itself -/

section
variable (hnone : ∀ a, l.step a = none)
include hnone

theorem advanceCall_of_halted (hc : l.traffic.call? k = some c) :
    l.traffic.advanceCall c = none := by
  have hstep := hnone (.advance k)
  rw [Option.eq_none_iff_forall_ne_some]
  rintro ⟨relay, c'⟩ hadvance
  simp [step, silent, Traffic.step, Traffic.advance, hc, hadvance] at hstep

theorem not_walk_of_halted {left : List Nat} :
    l.traffic.call? k ≠ some (.walk cluster m left) := by
  intro hc
  cases left with
  | nil => simpa [Traffic.advanceCall] using advanceCall_of_halted hnone hc
  | cons id left =>
    have hstep := hnone (.enqueue k id)
    simp [step, silent, Traffic.step, Traffic.enqueue, hc] at hstep

theorem not_walk_of_mem (hrecorded : Recorded h l.traffic) {left : List Nat} :
    (k, Call.walk cluster m left) ∉ l.traffic.calls :=
  fun hm => not_walk_of_halted hnone (lookup_eq_some_of_mem hrecorded.nodup_callers hm)

theorem isAnyLocked_of_halted (hrecorded : Recorded h l.traffic) :
    l.traffic.isAnyLocked = false := by
  rw [Traffic.isAnyLocked, List.any_eq_false]
  rintro ⟨k, c⟩ hm
  cases c with
  | walk => exact absurd hm (not_walk_of_mem hnone hrecorded)
  | _ => simp

theorem isDrained_of_halted (id : Nat) : l.traffic.relay.isDrained id = true := by
  cases he : l.traffic.relay.endpoints[id]? with
  | none => simp [isDrained, he]
  | some e =>
    rw [isDrained_iff he]
    cases hd : e.dead with
    | true => exact .inl rfl
    | false =>
      have hbusy : e.busy = false := by
        rw [Bool.eq_false_iff]
        intro hb
        obtain ⟨relay, hs⟩ : ∃ relay, l.traffic.relay.finish id false = some relay :=
          ⟨_, finish_eq_some_iff.2 ⟨e, he, hb, rfl⟩⟩
        have hstep := hnone (.finish id false)
        simp [step, silent, Traffic.step, hs] at hstep
      refine .inr ⟨?_, hbusy⟩
      rw [← Queue.pop?_eq_none_iff, Option.eq_none_iff_forall_ne_some]
      rintro ⟨m, queue⟩ hpop
      obtain ⟨relay, hs⟩ : ∃ relay, l.traffic.relay.take id = some (m, relay) :=
        ⟨_, take_eq_some_iff.2 ⟨e, queue, he, hbusy, hd, hpop, rfl⟩⟩
      have hstep := hnone (.take id)
      simp [step, hs] at hstep

/-- **Where a line takes no step by itself, all calls are over.** -/
theorem over_of_halted (hrecorded : Recorded h l.traffic) (hc : l.traffic.call? k = some c) :
    ∃ result, c = .over result := by
  have hadvance := advanceCall_of_halted hnone hc
  have hany := isAnyLocked_of_halted hnone hrecorded
  have hlocked := Traffic.isLocked_eq_false hany
  cases c with
  | «over» result => exact ⟨result, rfl⟩
  | initialise cluster id =>
    have hstep := hnone (.initialised k none)
    simp [step, silent, Traffic.step, Traffic.initialised, own_traffic, hc] at hstep
  | takeId cluster => cases cluster <;> cases hadvance
  | walk => exact absurd hc (not_walk_of_halted hnone)
  | insert | remove | sweep => simp [Traffic.advanceCall, hlocked] at hadvance
  | join id => simp [Traffic.advanceCall, isDrained_of_halted hnone id] at hadvance
  | clear => simp [Traffic.advanceCall, hany] at hadvance
  | _ => simp [Traffic.advanceCall] at hadvance

end

end Line

/-! ## What the handlers are given -/

/-- What the handler of the service `id` was given. -/
def given (r : Relay) (id : Nat) : List Payload :=
  match r.endpoints[id]? with
  | some e => e.handled.toList
  | none => []

theorem given_of_endpoint {e : Endpoint} (he : r.endpoints[id]? = some e) :
    r.given id = e.handled.toList := by
  rw [given, he]

theorem given_modifyEndpoint {i : Nat} {f : Endpoint → Endpoint}
    (hf : ∀ e, (f e).handled = e.handled) : (r.modifyEndpoint i f).given id = r.given id := by
  rw [given, given, endpoint_modifyEndpoint]
  by_cases hid : i = id
  · rw [if_pos hid]
    cases r.endpoints[id]? with
    | none => rfl
    | some e => exact congrArg Queue.toList (hf e)
  · rw [if_neg hid]

theorem given_newEndpoint : r.newEndpoint.given id = r.given id := by
  rw [given, given, endpoint_newEndpoint]
  by_cases hid : id = r.nextId
  · rw [if_pos hid, List.getElem?_eq_none (Nat.le_of_eq hid.symm)]
    rfl
  · rw [if_neg hid]

theorem given_set {i : Nat} {e e' : Endpoint} (he : r.endpoints[i]? = some e) :
    Relay.given { r with endpoints := r.endpoints.set i e' } id =
      if id = i then e'.handled.toList else r.given id := by
  obtain ⟨hlt, rfl⟩ := List.getElem?_eq_some_iff.1 he
  by_cases hid : id = i
  · subst hid
    simp [given, hlt]
  · simp [given, Ne.symm hid, hid]

/-- The message that the handler of the service `id` is given in the step. -/
def taken? (r : Relay) (id : Nat) : Traffic.Label → Option Payload
  | .take i => if i = id then (r.take i).map (·.1) else none
  | _ => none

theorem taken?_eq_some_iff : r.taken? id a = some m ↔
    a = .take id ∧ ∃ relay, r.take id = some (m, relay) := by
  cases a with
  | take i =>
    by_cases hid : i = id
    · subst hid
      simp [taken?]
    · simp [taken?, hid]
  | _ => simp [taken?]

theorem Traffic.Moves.given_eq (hm : t.Moves k c a es relay c') (id : Nat) :
    relay.given id = t.relay.given id := by
  cases hm with
  | connect | takeId => exact given_newEndpoint
  | insert => rw [given, endpoints_insertMember, given]
  | enqueue =>
    refine given_modifyEndpoint fun e => ?_
    split <;> rfl
  | close | hangUp => exact given_modifyEndpoint fun _ => rfl
  | _ => rfl

/-- Handlers are given messages one at a time. -/
theorem Line.Steps.given_eq {l l' : Line} {handover : Option Medium.Handover}
    (hs : l.Steps a l' handover) (id : Nat) : l'.traffic.relay.given id =
      l.traffic.relay.given id ++ (l.traffic.relay.taken? id a).toList := by
  cases hs with
  | move _ hm =>
    have hnone : l.traffic.relay.taken? id a = none := by cases hm <;> rfl
    rw [hnone, Option.toList_none, List.append_nil]
    exact hm.given_eq id
  | finish hf =>
    obtain ⟨e, he, -, rfl⟩ := finish_eq_some_iff.1 hf
    refine (given_set he).trans ?_
    rw [show l.traffic.relay.taken? id (.finish _ false) = none from rfl, Option.toList_none,
      List.append_nil]
    split
    · rename_i hid
      rw [hid, given_of_endpoint he]
    · rfl
  | @take i m relay ht =>
    obtain ⟨e, queue, he, -, -, -, hrelay⟩ := take_eq_some_iff.1 ht
    subst hrelay
    refine (given_set he).trans ?_
    by_cases hid : i = id
    · subst hid
      rw [if_pos rfl, taken?_eq_some_iff.2 ⟨rfl, _, ht⟩, given_of_endpoint he, Queue.toList_push]
      rfl
    · rw [if_neg (Ne.symm hid), taken?, if_neg hid, Option.toList_none, List.append_nil]

end Relay

end Lockstep
