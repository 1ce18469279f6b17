import Lockstep.Proofs.Relay.Endpoints
import Lockstep.Relay.Session

/-!
# What handlers do to a relay

`Acts as s t` says that `t` is what is left of `s` when a handler has gone through the actions `as`, to
whatever depth these register further handlers and however the list ended. `Goes` is the same of calls
and deliveries, which consist of such actions and of services that leave. `goes_step` says that all
calls are of this kind.
-/

set_option autoImplicit false

namespace Lockstep.Relay

theorem connect_eq_ok_iff {r r' : Relay} {id : Nat} :
    r.connect = .ok (id, r') ↔ r.closed = false ∧ id = r.nextId ∧ r' = r.newEndpoint := by
  cases hclosed : r.closed <;> simp [connect, hclosed, eq_comm]

theorem broadcast_eq_ok_iff {r r' : Relay} {conn : Nat} {cluster : String} {m : Payload} :
    r.broadcast conn cluster m = .ok r' ↔ r.isClosed conn = false ∧ r.closed = false ∧
      r' = (r.members cluster).foldl (·.enqueue m) r := by
  unfold broadcast
  cases r.isClosed conn <;> cases r.closed <;> simp [eq_comm]

namespace Session

/-- What the actions of a list do, one after the other. -/
inductive Acts : List Action → Session → Session → Prop
  /-- The list is over, or an action has ended it. -/
  | stop {as s} : Acts as s s
  /-- The action fails, or only looks. -/
  | skip {a as s t} : Acts as s t → Acts (a :: as) s t
  | close {as s t id} : Acts as (s.withRelay (s.relay.close id)) t → Acts (.close :: as) s t
  | shutdown {as s t} : Acts as (s.withRelay s.relay.shutdown) t → Acts (.shutdown :: as) s t
  | connect {as s t} : s.relay.closed = false → Acts as (s.withRelay s.relay.newEndpoint) t →
      Acts (.connect :: as) s t
  | broadcast {a as s t r} : s.relay.Alike r → Acts as (s.withRelay r) t → Acts (a :: as) s t
  /-- The handler is initialised first, and the service concluded after that. -/
  | register {as s t u id cluster init react results ending} : s.relay.closed = false →
      Acts init (s.withRelay s.relay.newEndpoint) t →
      Acts as (t.conclude id cluster react results ending).2 u →
      Acts (.register cluster init react :: as) s u

/-- The connections of `t` are other than those of `s` at most, and its services have got results. -/
structure Quiet (s t : Session) : Prop where
  alike : s.relay.Alike t.relay
  services : ∀ service ∈ t.services, ∃ before ∈ s.services, before.react = service.react

/-- The actions that a call brings along. -/
def Call.actions : Call → List Action
  | .register cluster init react => [.register cluster init react]
  | .shutdown => [.shutdown]
  | _ => []

/-- What calls and deliveries do; `given` are the actions that come with a call. -/
inductive Goes (given : List Action) : Session → Session → Prop
  | refl (s) : Goes given s s
  | quiet {s t u} : Quiet s t → Goes given t u → Goes given s u
  | leave {s t cluster id} : Goes given (s.withRelay (s.relay.leave cluster id)) t → Goes given s t
  | given {s t u} : Acts given s t → Goes given t u → Goes given s u
  | react {s t u service m} : service ∈ s.services → Acts (service.react m) s t →
      Goes given t u → Goes given s u

variable {s t u : Session} {k : Nat} {a : Action} {as given : List Action}

/-! ## Actions -/

theorem acts_broadcast {r : Relay} {conn : Nat} {cluster : String} {sent : Payload}
    (hb : s.relay.broadcast conn cluster sent = .ok r) (h : Acts as (s.withRelay r) t) :
    Acts (a :: as) s t := by
  obtain ⟨-, -, rfl⟩ := broadcast_eq_ok_iff.1 hb
  exact .broadcast (alike_foldl_enqueue _ _ _) h

mutual

theorem acts_perform (own : Nat) (m : Payload) : ∀ (a : Action) (s : Session) {as : List Action}
    {t : Session}, Acts as (perform own m a s).2 t → Acts (a :: as) s t
  | .close, s, as, t, h => .close h
  | .shutdown, s, as, t, h => .shutdown h
  | .connect, s, as, t, h => by
    unfold perform at h
    split at h
    · rename_i hc
      obtain ⟨hopen, -, rfl⟩ := connect_eq_ok_iff.1 hc
      exact .connect hopen h
    · exact .skip h
  | .members _, s, as, t, h => .skip h
  | .echo _, s, as, t, h => by
    unfold perform at h
    split at h
    · rename_i hb
      exact acts_broadcast hb h
    · exact .skip h
  | .send _ _, s, as, t, h => by
    unfold perform at h
    split at h
    · rename_i hb
      exact acts_broadcast hb h
    · exact .skip h
  | .register cluster init react, s, as, t, h => by
    unfold perform at h
    split at h
    · exact .skip h
    · rename_i id r hc
      obtain ⟨hopen, -, rfl⟩ := connect_eq_ok_iff.1 hc
      have hinit := acts_performAll id [] init (s.withRelay s.relay.newEndpoint)
      generalize performAll id [] init (s.withRelay s.relay.newEndpoint) = outcome at h hinit
      obtain ⟨results, ending, s'⟩ := outcome
      have hrest : Acts as (s'.conclude id cluster react results ending).2 t := by
        dsimp only at h
        split at h <;> rename_i hconclude <;> rw [hconclude] <;> exact h
      exact .register hopen hinit hrest
  | .fail _, s, as, t, h => .skip h
  | .panic, s, as, t, h => .skip h

theorem acts_performAll (own : Nat) (m : Payload) : ∀ (as : List Action) (s : Session),
    Acts as s (performAll own m as s).2.2
  | [], s => .stop
  | a :: as, s => by
    refine acts_perform own m a s ?_
    unfold performAll
    split
    · rename_i h
      rw [h]
      exact .stop
    · rename_i h
      rw [h]
      exact acts_performAll own m as _

end

/-- A registration within an action is a registration like any other. -/
theorem perform_register (s : Session) (own : Nat) (m : Payload) (cluster : String)
    (init : List Action) (react : Payload → List Action) :
    perform own m (.register cluster init react) s =
      (match (s.register cluster init react).2.1 with
        | .registered id => .ok (.connected id)
        | .refused e => .ok (.failed e)
        | .panicked => .error .panicked, (s.register cluster init react).2.2) := by
  unfold perform register
  cases s.relay.connect with
  | error e => rfl
  | ok made =>
    dsimp only
    split <;> rename_i hconclude <;> rw [hconclude]

/-! ## Calls -/

theorem quiet_of_relay {r : Relay} (h : s.relay.Alike r) : Quiet s (s.withRelay r) :=
  ⟨h, fun service hs => ⟨service, hs, rfl⟩⟩

theorem reactions_modify {services : List Service} {f : Service → Service}
    (hf : ∀ service, (f service).react = service.react) :
    ∀ service ∈ services.modify k f, ∃ before ∈ services, before.react = service.react := by
  intro service hs
  obtain ⟨n, hn⟩ := List.mem_iff_getElem?.1 hs
  rw [List.getElem?_modify] at hn
  obtain ⟨before, hbefore, rfl⟩ := Option.map_eq_some_iff.1 hn
  refine ⟨before, List.mem_of_getElem? hbefore, ?_⟩
  split
  · exact (hf before).symm
  · rfl

theorem Goes.trans (h : Goes given s t) (h' : Goes given t u) : Goes given s u := by
  induction h with
  | refl => exact h'
  | quiet hq _ ih => exact .quiet hq (ih h')
  | leave _ ih => exact .leave (ih h')
  | given hg _ ih => exact .given hg (ih h')
  | react hs hr _ ih => exact .react hs hr (ih h')

theorem goes_of_quiet (h : Quiet s t) : Goes given s t := .quiet h (.refl t)

theorem goes_deliver? (h : s.deliver? k = some t) : Goes given s t := by
  simp only [deliver?, Option.bind_eq_bind, Option.bind_eq_some_iff] at h
  obtain ⟨service, hservice, ⟨m, r⟩, htake, r', hfinish, h⟩ := h
  have hreact := acts_performAll service.id m (service.react m) (s.withRelay r)
  dsimp only at hfinish h
  generalize performAll service.id m (service.react m) (s.withRelay r) = outcome at hfinish h hreact
  obtain ⟨results, ending, s'⟩ := outcome
  cases h
  have hover : Quiet s' { s' with
      relay := r'
      services := s'.services.modify k fun service =>
        { service with results := service.results.pushAll results } } :=
    ⟨alike_of_finish hfinish, reactions_modify fun _ => rfl⟩
  have hmem := List.mem_of_getElem? hservice
  exact .quiet (quiet_of_relay (alike_of_take htake)) (.react hmem hreact (goes_of_quiet hover))

theorem goes_deliverUpTo (n : Nat) : Goes given s (s.deliverUpTo k n) := by
  induction n generalizing s with
  | zero => exact .refl s
  | succ n ih =>
    unfold deliverUpTo
    split
    · rename_i h
      exact (goes_deliver? h).trans ih
    · exact .refl s

theorem goes_stop (service : Service) : Goes given s (s.stop k service) := by
  have hleave : Goes given s (s.withRelay (s.relay.leave service.cluster service.id)) :=
    .leave (.refl _)
  generalize hs : s.withRelay (s.relay.leave service.cluster service.id) = s' at hleave
  unfold stop
  rw [hs]
  refine (hleave.trans (goes_deliverUpTo _)).trans (goes_of_quiet ⟨⟨rfl, rfl⟩, ?_⟩)
  exact reactions_modify fun _ => rfl

theorem goes_step (s : Session) (c : Call) : Goes c.actions s (s.step c).2 := by
  cases c with
  | connect =>
    simp only [step]
    split
    · rename_i hc
      obtain ⟨-, -, rfl⟩ := connect_eq_ok_iff.1 hc
      exact goes_of_quiet ⟨alike_newEndpoint _, fun service hs => ⟨service, hs, rfl⟩⟩
    · exact .refl s
  | clone =>
    simp only [step]
    split
    · exact goes_of_quiet ⟨⟨rfl, rfl⟩, fun service hs => ⟨service, hs, rfl⟩⟩
    · exact .refl s
  | close =>
    simp only [step]
    split
    · exact goes_of_quiet (quiet_of_relay (alike_close _ _))
    · exact .refl s
  | register cluster init react =>
    have hacts : Acts [.register cluster init react] s _ :=
      acts_perform 0 [] (.register cluster init react) s .stop
    rw [perform_register] at hacts
    exact .given hacts (.refl _)
  | broadcast =>
    simp only [step]
    split
    · split
      · rename_i hb
        obtain ⟨-, -, rfl⟩ := broadcast_eq_ok_iff.1 hb
        exact goes_of_quiet (quiet_of_relay (alike_foldl_enqueue _ _ _))
      · exact .refl s
    · exact .refl s
  | shutdown => exact .given (.shutdown .stop) (.refl _)
  | unregister =>
    simp only [step]
    split
    · exact goes_stop _
    · exact .refl s
  | deliver k =>
    cases h : s.deliver? k with
    | none => simpa [step, h] using .refl s
    | some t => simpa [step, h] using goes_deliver? h
  | inspect | observe =>
    simp only [step]
    split <;> exact .refl s
  | members => exact .refl s

end Session

end Lockstep.Relay
