import Mathlib.Data.Option.Basic
import Lockstep.Proofs.Lookup
import Lockstep.Proofs.Relay.Clusters
import Lockstep.Relay.Traffic

/-!
# What a step of a relay in use does

`Traffic.Moves` lists everything that a call can do in one step, and `Traffic.Effect` everything that
a relay in use can do: a call begins, moves or is collected, or a handler is given a message or is
done with it. `Traffic.events` is what a step adds to the history of the relay.
`Traffic.effect_of_step` says that all steps are of this kind.
-/

set_option autoImplicit false

namespace Lockstep.Relay

/-- What happens to the members of the clusters and to the queues of the services. -/
inductive Event where
  | inserted (cluster : String) (id : Nat)
  | removed (cluster : String) (id : Nat)
  /-- All clusters are removed. -/
  | cleared
  /-- The broadcast of a caller begins to go through the members of the cluster. -/
  | began (caller : Nat) (cluster : String) (m : Payload)
  /-- It hands its message to a member. -/
  | queued (caller : Nat) (id : Nat) (m : Payload)
  /-- It has gone through all members. -/
  | ended (caller : Nat) (cluster : String)
  /-- The handler of the service panicked on the message. -/
  | panicked (id : Nat) (m : Payload)
  /-- A call begins to unregister the service. -/
  | leaving (cluster : String) (id : Nat)
  /-- A call has waited until nothing is left for the handler of the service. -/
  | left (id : Nat)
  deriving Repr, DecidableEq

/-- It changes no members and begins no broadcast. -/
def Event.isQuiet : Event → Bool
  | .inserted _ _ | .removed _ _ | .cleared | .began _ _ _ => false
  | _ => true

/-- What happened so far, the newest event first. -/
abbrev History := List Event

/-- The message that the handler was given last. -/
def lastHandled (r : Relay) (id : Nat) : Option Payload := do
  (← r.endpoints[id]?).handled.toList.getLast?

/-- What the next step of a call adds to the history, where it stands. -/
def Call.events (k : Nat) : Call → History
  | .insert cluster id => [.inserted cluster id]
  | .lock cluster m => [.began k cluster m]
  | .walk cluster _ _ => [.ended k cluster]
  | .remove cluster id => [.removed cluster id]
  | .clear => [.cleared]
  | .join id => [.left id]
  | _ => []

/-- Why the next step of a call ends it. -/
inductive Refuses (r : Relay) : Call → RelayError → Prop
  | ask {cluster} : r.closed = true → Refuses r (.ask cluster) .relayClosed
  | broadcast {conn cluster m} : r.isClosed conn = true →
      Refuses r (.broadcast conn cluster m) .connectionClosed
  | askBroadcast {cluster m} : r.closed = true → Refuses r (.askBroadcast cluster m) .relayClosed

namespace Traffic

/-- What a step adds to the history. -/
def events (t : Traffic) : Label → History
  | .start _ (.unregister cluster id) => [.leaving cluster id]
  | .advance k => ((t.call? k).map (Call.events k)).getD []
  | .enqueue k id =>
    match t.call? k with
    | some (.walk _ m _) => [.queued k id m]
    | _ => []
  | .finish id true => (t.relay.lastHandled id).toList.map (.panicked id)
  | _ => []

/-- What the call of the caller `k` can do in one step. -/
inductive Moves (t : Traffic) (k : Nat) : Call → Label → History → Relay → Call → Prop
  | ask {cluster} : t.relay.closed = false →
      Moves t k (.ask cluster) (.advance k) [] t.relay (.takeId cluster)
  | connect : Moves t k (.takeId none) (.advance k) [] t.relay.newEndpoint
      (.over (.ok (some t.relay.nextId)))
  | takeId {cluster} : Moves t k (.takeId (some cluster)) (.advance k) [] t.relay.newEndpoint
      (.initialise cluster t.relay.nextId)
  | initialise {cluster id} : Moves t k (.initialise cluster id) (.initialised k none) [] t.relay
      (.insert cluster id)
  | fail {cluster id cause} : Moves t k (.initialise cluster id) (.initialised k (some cause)) []
      t.relay (.over (.error (.init cause)))
  | insert {cluster id} : t.isLocked cluster = false →
      Moves t k (.insert cluster id) (.advance k) [.inserted cluster id]
        (t.relay.insertMember cluster id) (.over (.ok (some id)))
  | broadcast {conn cluster m} : t.relay.isClosed conn = false →
      Moves t k (.broadcast conn cluster m) (.advance k) [] t.relay (.askBroadcast cluster m)
  | askBroadcast {cluster m} : t.relay.closed = false →
      Moves t k (.askBroadcast cluster m) (.advance k) [] t.relay (.lock cluster m)
  | lock {cluster m} : Moves t k (.lock cluster m) (.advance k) [.began k cluster m] t.relay
      (.walk cluster m (t.relay.members cluster))
  | enqueue {cluster m left id} : id ∈ left →
      Moves t k (.walk cluster m left) (.enqueue k id) [.queued k id m] (t.relay.enqueue m id)
        (.walk cluster m (left.erase id))
  | unlock {cluster m} : Moves t k (.walk cluster m []) (.advance k) [.ended k cluster] t.relay
      (.over (.ok none))
  | close {conn} : Moves t k (.close conn) (.advance k) [] (t.relay.close conn) (.over (.ok none))
  /-- The last member is removed, which leaves the entry of the cluster to be dropped. -/
  | removeLast {cluster id} : t.isLocked cluster = false →
      (t.relay.removeMember cluster id).isVacant cluster = true →
      Moves t k (.remove cluster id) (.advance k) [.removed cluster id]
        (t.relay.removeMember cluster id) (.sweep cluster id)
  | remove {cluster id} : t.isLocked cluster = false →
      (t.relay.removeMember cluster id).isVacant cluster = false →
      Moves t k (.remove cluster id) (.advance k) [.removed cluster id]
        (t.relay.removeMember cluster id) (.hangUp id)
  | sweep {cluster id} : t.isLocked cluster = false →
      Moves t k (.sweep cluster id) (.advance k) [] (t.relay.sweep cluster) (.hangUp id)
  | hangUp {id} : Moves t k (.hangUp id) (.advance k) [] (t.relay.close id) (.join id)
  | join {id} : t.relay.isDrained id = true →
      Moves t k (.join id) (.advance k) [.left id] t.relay (.over (.ok none))
  | shutdown : Moves t k .shutdown (.advance k) [] t.relay.markClosed .clear
  | clear : t.isAnyLocked = false →
      Moves t k .clear (.advance k) [.cleared] t.relay.clear (.over (.ok none))
  | refuse {c e} : Refuses t.relay c e →
      Moves t k c (.advance k) [] t.relay (.over (.error e))

/-- What a step does. -/
inductive Effect (t : Traffic) : Label → History → Traffic → Prop
  | start {k request} : t.call? k = none →
      Effect t (.start k request) (t.events (.start k request)) (t.start k request.call)
  | move {k c a es relay c'} : t.call? k = some c → Moves t k c a es relay c' →
      Effect t a es ({ t with relay }.setCall k c')
  | collect {k result} : t.call? k = some (.over result) → Effect t (.collect k) [] (t.dropCall k)
  | take {id m relay} : t.relay.take id = some (m, relay) → Effect t (.take id) [] { t with relay }
  | finish {id panicked relay} : t.relay.finish id panicked = some relay →
      Effect t (.finish id panicked) (t.events (.finish id panicked)) { t with relay }

/-- Whose call takes the step. -/
def Label.caller? : Label → Option Nat
  | .start k _ | .advance k | .initialised k _ | .enqueue k _ | .collect k => some k
  | .take _ | .finish _ _ => none

/-- What a step means for the caller `k`, and where its call stands before and after it. -/
inductive Turn (t : Traffic) (k : Nat) : Label → History → Relay → Option Call → Option Call → Prop
  | start {request c} : c = request.call →
      Turn t k (.start k request) (t.events (.start k request)) t.relay none (some c)
  | move {c a es relay c'} : Moves t k c a es relay c' → Turn t k a es relay (some c) (some c')
  | collect {result} : Turn t k (.collect k) [] t.relay (some (.over result)) none
  /-- Others go on. -/
  | rest {a es relay c} : a.caller? ≠ some k → Turn t k a es relay c c

variable {t u : Traffic} {k k' : Nat} {c c' : Call} {a : Label} {es : History} {relay : Relay}

/-! ## The steps are effects -/

theorem moves_of_advanceCall (h : t.advanceCall c = some (relay, c')) :
    Moves t k c (.advance k) (c.events k) relay c' := by
  cases c with
  | ask cluster =>
    cases hclosed : t.relay.closed <;> simp only [advanceCall, hclosed] at h <;> cases h
    · exact .ask hclosed
    · exact .refuse (.ask hclosed)
  | takeId cluster =>
    cases cluster <;> cases h
    · exact .connect
    · exact .takeId
  | insert cluster id =>
    cases hlocked : t.isLocked cluster <;> simp only [advanceCall, hlocked] at h <;> cases h
    exact .insert hlocked
  | broadcast conn cluster m =>
    cases hclosed : t.relay.isClosed conn <;> simp only [advanceCall, hclosed] at h <;> cases h
    · exact .broadcast hclosed
    · exact .refuse (.broadcast hclosed)
  | askBroadcast cluster m =>
    cases hclosed : t.relay.closed <;> simp only [advanceCall, hclosed] at h <;> cases h
    · exact .askBroadcast hclosed
    · exact .refuse (.askBroadcast hclosed)
  | lock cluster m =>
    cases h
    exact .lock
  | walk cluster m left =>
    cases left <;> cases h
    exact .unlock
  | close conn =>
    cases h
    exact .close
  | remove cluster id =>
    cases hlocked : t.isLocked cluster <;> simp only [advanceCall, hlocked] at h <;> cases h
    cases hvacant : (t.relay.removeMember cluster id).isVacant cluster
    · exact .remove hlocked hvacant
    · exact .removeLast hlocked hvacant
  | sweep cluster id =>
    cases hlocked : t.isLocked cluster <;> simp only [advanceCall, hlocked] at h <;> cases h
    exact .sweep hlocked
  | hangUp id =>
    cases h
    exact .hangUp
  | join id =>
    cases hdrained : t.relay.isDrained id <;> simp only [advanceCall, hdrained] at h <;> cases h
    exact .join hdrained
  | shutdown =>
    cases h
    exact .shutdown
  | clear =>
    cases hlocked : t.isAnyLocked <;> simp only [advanceCall, hlocked] at h <;> cases h
    exact .clear hlocked
  | initialise | «over» => cases h

theorem effect_of_step (h : t.step a = some u) : Effect t a (t.events a) u := by
  cases a with
  | start k request =>
    cases hc : t.call? k with
    | some c => simp [step, hc] at h
    | none =>
      simp only [step, hc, Option.isSome_none, Bool.false_eq_true, if_false] at h
      cases h
      exact .start hc
  | advance k =>
    simp only [step, advance, Option.bind_eq_bind, Option.bind_eq_some_iff] at h
    obtain ⟨c, hc, ⟨relay, c'⟩, hadvance, h⟩ := h
    cases h
    rw [show t.events (.advance k) = c.events k by simp [events, hc]]
    exact .move hc (moves_of_advanceCall hadvance)
  | initialised k failure =>
    simp only [step, initialised] at h
    split at h
    · rename_i hc
      cases failure with
      | none =>
        cases h
        exact .move hc .initialise
      | some cause =>
        cases h
        exact .move hc .fail
    · cases h
  | enqueue k id =>
    simp only [step, enqueue] at h
    split at h
    · rename_i cluster m left hc
      split at h
      · rename_i hm
        cases h
        rw [show t.events (.enqueue k id) = [.queued k id m] by simp [events, hc]]
        exact .move hc (.enqueue hm)
      · cases h
    · cases h
  | collect k =>
    simp only [step, collect] at h
    split at h
    · rename_i hc
      cases h
      exact .collect hc
    · cases h
  | take id =>
    obtain ⟨⟨m, relay⟩, ht, rfl⟩ := Option.map_eq_some_iff.1 h
    exact .take ht
  | finish id panicked =>
    obtain ⟨relay, hf, rfl⟩ := Option.map_eq_some_iff.1 h
    exact .finish hf

theorem Moves.events_eq (hm : Moves t k c a es relay c') (hc : t.call? k = some c) :
    es = t.events a := by
  cases hm with
  | refuse hr => cases hr <;> simp [events, hc, Call.events]
  | _ => simp [events, hc, Call.events]

/-- The moves are steps. -/
theorem Moves.step_eq (hm : Moves t k c a es relay c') (hc : t.call? k = some c) :
    t.step a = some ({ t with relay }.setCall k c') := by
  cases hm with
  | refuse hr =>
    cases hr with
    | ask hclosed | broadcast hclosed | askBroadcast hclosed =>
      simp [step, advance, hc, advanceCall, hclosed]
  | ask h | broadcast h | askBroadcast h | insert h | sweep h | join h | clear h =>
    simp [step, advance, hc, advanceCall, h]
  | remove hlocked hvacant | removeLast hlocked hvacant =>
    simp [step, advance, hc, advanceCall, hlocked, hvacant]
  | initialise | fail => simp [step, initialised, hc]
  | enqueue hid => simp [step, Traffic.enqueue, hc, hid]
  | _ => simp [step, advance, hc, advanceCall]

/-! ## The calls under way -/

@[simp] theorem setCall_relay : (t.setCall k c).relay = t.relay := rfl

@[simp] theorem start_relay : (t.start k c).relay = t.relay := rfl

@[simp] theorem dropCall_relay : (t.dropCall k).relay = t.relay := rfl

/-- Whoever starts a call, others have theirs. -/
theorem call?_start_of_ne (hne : k' ≠ k) : (t.start k c).call? k' = t.call? k' := by
  simp only [call?, start, List.lookup_append]
  rw [List.lookup_cons, beq_false_of_ne hne]
  simp

theorem call?_start (hc : t.call? k = none) :
    (t.start k c).call? k' = if k' = k then some c else t.call? k' := by
  split
  · rename_i heq
    subst heq
    simp only [call?, start, List.lookup_append]
    rw [show t.calls.lookup k' = none from hc]
    simp
  · rename_i hne
    exact call?_start_of_ne hne

theorem call?_setCall (hc : t.call? k = some c) :
    (t.setCall k c').call? k' = if k' = k then some c' else t.call? k' := by
  rw [call?, setCall, lookup_map_update]
  split
  · rename_i heq
    subst heq
    rw [show t.calls.lookup k' = some c from hc]
    rfl
  · rfl

theorem call?_dropCall : (t.dropCall k).call? k' = if k' = k then none else t.call? k' :=
  lookup_filter_ne t.calls

/-! ## One caller -/

theorem Moves.caller? (hm : Moves t k c a es relay c') : a.caller? = some k := by
  cases hm <;> rfl

theorem Effect.turn (he : Effect t a es u) (k : Nat) :
    Turn t k a es u.relay (t.call? k) (u.call? k) := by
  cases he with
  | @start k' request hc =>
    rw [call?_start hc]
    split
    · rename_i heq
      subst heq
      rw [hc]
      exact .start rfl
    · rename_i hne
      exact .rest fun heq => hne (Option.some.inj heq).symm
  | @move k' c a es relay c' hc hm =>
    rw [call?_setCall (by exact hc)]
    split
    · rename_i heq
      subst heq
      rw [hc]
      exact .move hm
    · rename_i hne
      exact .rest fun heq => hne (Option.some.inj (heq.symm.trans hm.caller?))
  | @collect k' result hc =>
    rw [call?_dropCall]
    split
    · rename_i heq
      subst heq
      rw [hc]
      exact .collect
    · rename_i hne
      exact .rest fun heq => hne (Option.some.inj heq).symm
  | take | finish => exact .rest nofun

end Traffic

end Lockstep.Relay
