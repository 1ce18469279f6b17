import Lockstep.Proofs.Relay.Shutdown

/-!
# The operations on a relay

A relay is used by callers and by handlers, which act when they are initialised and when they are given
a message, to whatever depth. `trace s cs` is the list of all operations that the calls `cs` come to, in
the order in which they begin, each with the session that it finds.

`Leads s es t` says that the operations `es` lead from `s` to `t`, whoever it is that has the connections
which they are on. A registration is followed by what its initialisation does, and only then concluded.
What handlers do is of this kind (`leads_perform`), and a number that was handed out is not handed out
again (`Leads.grows`).
-/

set_option autoImplicit false

namespace Lockstep.Relay

/-! ## Numbers and checks -/

theorem nextId_foldl_enqueue (ids : List Nat) (m : Payload) (r : Relay) :
    (ids.foldl (·.enqueue m) r).nextId = r.nextId := by
  induction ids generalizing r with
  | nil => rfl
  | cons id ids ih => exact (ih _).trans nextId_modifyEndpoint

theorem nextId_insertMember (r : Relay) (cluster : String) (id : Nat) :
    (r.insertMember cluster id).nextId = r.nextId := by
  rw [nextId, endpoints_insertMember, nextId]

theorem nextId_leave (r : Relay) (cluster : String) (id : Nat) :
    (r.leave cluster id).nextId = r.nextId := nextId_modifyEndpoint

theorem closed_of_connect_eq_error {r : Relay} {e : RelayError} (h : r.connect = .error e) :
    r.closed = true := by
  cases hclosed : r.closed with
  | true => rfl
  | false => simp [connect, hclosed] at h

namespace Session

inductive Operation where
  | connect
  | register (cluster : String) (init : List Action) (react : Payload → List Action)
  | broadcast (conn : Nat) (cluster : String) (m : Payload)
  | close (conn : Nat)
  /-- The service is unregistered or dropped. -/
  | stop (id : Nat)
  | shutdown

namespace Operation

/-- It looks first whether the relay is open, and takes a number if it is. -/
def asks : Operation → Bool
  | .connect | .register _ _ _ => true
  | _ => false

def isRegister : Operation → Bool
  | .register _ _ _ => true
  | _ => false

def isShutdown : Operation → Bool
  | .shutdown => true
  | _ => false

/-- It closes the connection. -/
def closes (id : Nat) : Operation → Bool
  | .close conn => conn == id
  | .stop service => service == id
  | _ => false

end Operation

/-- Operations, each with the session that it finds. -/
abbrev Trace := List (Session × Operation)

/-! ## The operations of a call -/

mutual

/-- The operations that an action of the handler with the connection `own` comes to. -/
def actionTrace (own : Nat) (m : Payload) : Action → Session → Trace
  | .close, s => [(s, .close own)]
  | .shutdown, s => [(s, .shutdown)]
  | .connect, s => [(s, .connect)]
  | .echo cluster, s => [(s, .broadcast own cluster m)]
  | .send cluster sent, s => [(s, .broadcast own cluster sent)]
  | .register cluster init react, s =>
    (s, .register cluster init react) ::
      match s.relay.connect with
      | .error _ => []
      | .ok (id, r) => actionsTrace id [] init (s.withRelay r)
  | .members _, _ | .fail _, _ | .panic, _ => []

def actionsTrace (own : Nat) (m : Payload) : List Action → Session → Trace
  | [], _ => []
  | a :: as, s =>
    actionTrace own m a s ++
      match perform own m a s with
      | (.error _, _) => []
      | (.ok _, s) => actionsTrace own m as s

end

/-- What the handler of service `k` does with its next message. -/
def deliveryTrace (s : Session) (k : Nat) : Trace :=
  match s.services[k]? with
  | some service =>
    match s.relay.take service.id with
    | some (m, r) => actionsTrace service.id m (service.react m) (s.withRelay r)
    | none => []
  | none => []

def deliveriesTrace (s : Session) (k : Nat) : Nat → Trace
  | 0 => []
  | n + 1 =>
    match s.deliver? k with
    | some t => s.deliveryTrace k ++ t.deliveriesTrace k n
    | none => []

/-- The service leaves, and what is in its queue is handled. -/
def stopTrace (s : Session) (k : Nat) (service : Service) : Trace :=
  let t := s.withRelay (s.relay.leave service.cluster service.id)
  let queued := match t.relay.endpoints[service.id]? with
    | some e => e.queue.toList.length
    | none => 0
  (s, .stop service.id) :: t.deliveriesTrace k queued

def callTrace (s : Session) : Call → Trace
  | .connect => [(s, .connect)]
  | .close t => ((s.id? t).map fun id => (s, .close id)).toList
  | .register cluster init react => actionTrace 0 [] (.register cluster init react) s
  | .broadcast t cluster m => ((s.id? t).map fun id => (s, .broadcast id cluster m)).toList
  | .shutdown => [(s, .shutdown)]
  | .unregister k =>
    match s.service? k with
    | some service => s.stopTrace k service
    | none => []
  | .deliver k => if (s.deliver? k).isSome then s.deliveryTrace k else []
  | .clone _ | .inspect _ | .members _ | .observe _ => []

def trace (s : Session) : List Call → Trace
  | [] => []
  | c :: cs => s.callTrace c ++ (s.step c).2.trace cs

/-! ## What operations do -/

/-- The numbers of the services. -/
def serviceIds (s : Session) : List Nat := s.services.map (·.id)

/-- The connection or the service is there. -/
def Operation.Valid (s : Session) : Operation → Prop
  | .broadcast conn _ _ | .close conn => conn < s.relay.nextId
  | .stop id => id ∈ s.serviceIds
  | _ => True

/-- What an operation does when it begins. -/
inductive Does (s : Session) : Operation → Session → Prop
  | ask {o} : o.asks = true → s.relay.closed = false → Does s o (s.withRelay s.relay.newEndpoint)
  | refuse {o} : o.asks = true → s.relay.closed = true → Does s o s
  | broadcast {conn cluster m r} : s.relay.broadcast conn cluster m = .ok r →
      Does s (.broadcast conn cluster m) (s.withRelay r)
  | fail {conn cluster m e} : s.relay.broadcast conn cluster m = .error e →
      Does s (.broadcast conn cluster m) s
  | close {conn} : Does s (.close conn) (s.withRelay (s.relay.close conn))
  | stop {cluster id} : Does s (.stop id) (s.withRelay (s.relay.leave cluster id))
  | shutdown : Does s .shutdown (s.withRelay s.relay.shutdown)

/-- What happens without an operation. -/
inductive Passes (s : Session) : Session → Prop
  | take {id m r} : s.relay.take id = some (m, r) → Passes s (s.withRelay r)
  | finish {id panicked r} : s.relay.finish id panicked = some r → Passes s (s.withRelay r)
  /-- Results are noted, services are marked, handles are kept. -/
  | rest {t} : t.relay = s.relay → t.serviceIds = s.serviceIds →
      (∀ id ∈ t.connections, id ∈ s.connections ∨ id < s.relay.nextId) → Passes s t

/-- The service joins its cluster. -/
def join (s : Session) (service : Service) : Session :=
  { s with
    relay := s.relay.insertMember service.cluster service.id
    services := s.services ++ [service] }

/-- The operations lead from one session to the other. -/
inductive Leads : Session → Trace → Session → Prop
  | refl (s) : Leads s [] s
  | pass {s t u es} : Passes s t → Leads t es u → Leads s es u
  | op {s t u o es} : Does s o t → o.Valid s → (o.isRegister = true → s.relay.closed = true) →
      Leads t es u → Leads s ((s, o) :: es) u
  /-- The handler is initialised with a number of its own, and the registration concluded. -/
  | register {s t u es es' cluster init react results ending} : s.relay.closed = false →
      Leads (s.withRelay s.relay.newEndpoint) es t →
      s.register cluster init react =
        (results, t.conclude s.relay.nextId cluster react results ending) →
      Leads (t.conclude s.relay.nextId cluster react results ending).2 es' u →
      Leads s ((s, .register cluster init react) :: (es ++ es')) u

variable {s t u : Session} {o : Operation} {es es' : Trace} {id k n : Nat} {cluster other : String}
  {init : List Action} {react : Payload → List Action} {results : List ActionResult}
  {ending : Ending} {own : Nat} {m : Payload}

theorem Leads.trans (h : Leads s es t) (h' : Leads t es' u) : Leads s (es ++ es') u := by
  induction h with
  | refl => exact h'
  | pass hp _ ih => exact .pass hp (ih h')
  | op hd hv hr _ ih => exact .op hd hv hr (ih h')
  | register hopen hinit hreg _ _ ih =>
    rw [List.cons_append, List.append_assoc]
    exact .register hopen hinit hreg (ih h')

theorem leads_of_passes (h : Passes s t) : Leads s [] t := .pass h (.refl t)

theorem Does.leads (hd : Does s o t) (hv : o.Valid s) (ho : o.isRegister = false)
    (h : Leads t es u) : Leads s ((s, o) :: es) u :=
  .op hd hv (fun hregister => absurd (ho.symm.trans hregister) Bool.false_ne_true) h

theorem leads_of_does (hd : Does s o t) (hv : o.Valid s) (ho : o.isRegister = false) :
    Leads s [(s, o)] t := hd.leads hv ho (.refl t)

/-- A registration ends without a service, or with one of its own number. -/
theorem conclude_cases (t : Session) (id : Nat) (cluster : String) (react : Payload → List Action)
    (results : List ActionResult) (ending : Ending) :
    ((∀ id', (t.conclude id cluster react results ending).1 ≠ .registered id') ∧
        (t.conclude id cluster react results ending).2 = t) ∨
      ∃ service : Service, service.id = id ∧
        (t.conclude id cluster react results ending) = (.registered id, t.join service) := by
  cases ending with
  | completed => exact .inr ⟨{ id, cluster, react, results := .ofList results }, rfl, rfl⟩
  | failed | panicked => exact .inl ⟨nofun, rfl⟩

/-! ## Numbers are not taken back -/

theorem Passes.nextId_eq (h : Passes s t) : t.relay.nextId = s.relay.nextId := by
  cases h with
  | take ht =>
    obtain ⟨e, queue, -, -, -, -, rfl⟩ := take_eq_some_iff.1 ht
    exact List.length_set
  | finish hf =>
    obtain ⟨e, -, -, rfl⟩ := finish_eq_some_iff.1 hf
    exact List.length_set
  | rest hrelay => rw [hrelay]

theorem Does.nextId_le (h : Does s o t) : s.relay.nextId ≤ t.relay.nextId := by
  cases h with
  | ask => exact Nat.le_trans (Nat.le_succ _) (Nat.le_of_eq nextId_newEndpoint.symm)
  | refuse | fail => exact Nat.le_refl _
  | broadcast hb =>
    obtain ⟨-, -, rfl⟩ := broadcast_eq_ok_iff.1 hb
    exact Nat.le_of_eq (nextId_foldl_enqueue _ _ _).symm
  | close => exact Nat.le_of_eq nextId_modifyEndpoint.symm
  | stop => exact Nat.le_of_eq (nextId_leave _ _ _).symm
  | shutdown => exact Nat.le_refl _

@[simp] theorem serviceIds_join (service : Service) :
    (s.join service).serviceIds = s.serviceIds ++ [service.id] := List.map_append

theorem Passes.serviceIds_eq (h : Passes s t) : t.serviceIds = s.serviceIds := by
  cases h with
  | take | finish => rfl
  | rest _ heq => exact heq

theorem Does.serviceIds_eq (h : Does s o t) : t.serviceIds = s.serviceIds := by
  cases h <;> rfl

theorem nextId_conclude (t : Session) (id : Nat) (cluster : String) (react : Payload → List Action)
    (results : List ActionResult) (ending : Ending) :
    (t.conclude id cluster react results ending).2.relay.nextId = t.relay.nextId := by
  cases ending with
  | completed => exact nextId_insertMember _ _ _
  | failed | panicked => rfl

/-- Services stay, and further ones have numbers that were not handed out before. -/
structure Grows (s t : Session) : Prop where
  nextId_le : s.relay.nextId ≤ t.relay.nextId
  services : ∃ new, t.serviceIds = s.serviceIds ++ new ∧ ∀ id ∈ new, s.relay.nextId ≤ id

theorem grows_of_eq (hle : s.relay.nextId ≤ t.relay.nextId) (heq : t.serviceIds = s.serviceIds) :
    Grows s t :=
  ⟨hle, [], by rw [heq, List.append_nil], nofun⟩

theorem Grows.trans (h : Grows s t) (h' : Grows t u) : Grows s u := by
  obtain ⟨new, heq, hnew⟩ := h.services
  obtain ⟨new', heq', hnew'⟩ := h'.services
  refine ⟨Nat.le_trans h.nextId_le h'.nextId_le, new ++ new', ?_, fun id hid => ?_⟩
  · rw [heq', heq, List.append_assoc]
  · rcases List.mem_append.1 hid with hid | hid
    · exact hnew id hid
    · exact Nat.le_trans h.nextId_le (hnew' id hid)

theorem Grows.conclude (h : Grows s t) :
    Grows s (t.conclude s.relay.nextId cluster react results ending).2 := by
  refine ⟨nextId_conclude t _ _ _ _ _ ▸ h.nextId_le, ?_⟩
  rcases conclude_cases t s.relay.nextId cluster react results ending with
    ⟨-, heq⟩ | ⟨service, hid, heq⟩ <;> rw [heq]
  · exact h.services
  · obtain ⟨new, hservices, hnew⟩ := h.services
    refine ⟨new ++ [service.id], ?_, fun id hin => ?_⟩
    · rw [serviceIds_join, hservices, List.append_assoc]
    · rcases List.mem_append.1 hin with hin | hin
      · exact hnew id hin
      · obtain rfl := List.mem_singleton.1 hin
        exact Nat.le_of_eq hid.symm

theorem Leads.grows (h : Leads s es t) : Grows s t := by
  induction h with
  | refl => exact grows_of_eq (Nat.le_refl _) rfl
  | pass hp _ ih => exact (grows_of_eq (Nat.le_of_eq hp.nextId_eq.symm) hp.serviceIds_eq).trans ih
  | op hd _ _ _ ih => exact (grows_of_eq hd.nextId_le hd.serviceIds_eq).trans ih
  | @register s _ _ _ _ cluster init react _ _ hopen _ _ _ ih ih' =>
    have hbegin : Does s (.register cluster init react) (s.withRelay s.relay.newEndpoint) :=
      .ask rfl hopen
    have hbegun := grows_of_eq hbegin.nextId_le hbegin.serviceIds_eq
    exact (hbegun.trans ih).conclude.trans ih'

/-! ## Calls are made of operations -/

theorem register_of_closed (hclosed : s.relay.closed = true) :
    s.register cluster init react = ([], .refused .relayClosed, s) := by
  simp only [register, connect_of_closed hclosed]

theorem register_of_open (hopen : s.relay.closed = false) :
    let outcome := performAll s.relay.nextId [] init (s.withRelay s.relay.newEndpoint)
    s.register cluster init react =
      (outcome.1, outcome.2.2.conclude s.relay.nextId cluster react outcome.1 outcome.2.1) := by
  have hconnect : s.relay.connect = .ok (s.relay.nextId, s.relay.newEndpoint) :=
    connect_eq_ok_iff.2 ⟨hopen, rfl, rfl⟩
  simp only [register, hconnect]

/-- Who is registered is the last of the services then. -/
theorem register_eq_registered (h : (s.register cluster init react).2.1 = .registered id) :
    s.relay.closed = false ∧ id = s.relay.nextId ∧
      (s.register cluster init react).2.2.serviceIds.getLast? = some id := by
  cases hopen : s.relay.closed with
  | true =>
    rw [register_of_closed hopen] at h
    cases h
  | false =>
    rw [register_of_open hopen] at h ⊢
    generalize performAll s.relay.nextId [] init (s.withRelay s.relay.newEndpoint) = outcome at h ⊢
    obtain ⟨results, ending, t⟩ := outcome
    dsimp only at h ⊢
    rcases conclude_cases t s.relay.nextId cluster react results ending with
      ⟨hnot, -⟩ | ⟨service, hid, heq⟩
    · exact absurd h (hnot id)
    · rw [heq] at h ⊢
      obtain rfl := Registration.registered.inj h
      refine ⟨rfl, rfl, ?_⟩
      rw [serviceIds_join, List.getLast?_append, hid]
      rfl

/-- A registration leads on if what its initialisation does leads on. -/
theorem leads_register (own : Nat) (m : Payload)
    (hinit : s.relay.nextId < s.relay.newEndpoint.nextId →
      Leads (s.withRelay s.relay.newEndpoint)
        (actionsTrace s.relay.nextId [] init (s.withRelay s.relay.newEndpoint))
        (performAll s.relay.nextId [] init (s.withRelay s.relay.newEndpoint)).2.2) :
    Leads s (actionTrace own m (.register cluster init react) s)
      (s.register cluster init react).2.2 := by
  unfold actionTrace
  cases hc : s.relay.connect with
  | error e =>
    have hclosed := closed_of_connect_eq_error hc
    rw [register_of_closed hclosed]
    exact .op (.refuse rfl hclosed) trivial (fun _ => hclosed) (.refl s)
  | ok made =>
    obtain ⟨id, r⟩ := made
    obtain ⟨hopen, rfl, rfl⟩ := connect_eq_ok_iff.1 hc
    have hbegun := hinit (Nat.lt_of_lt_of_eq (Nat.lt_succ_self _) nextId_newEndpoint.symm)
    have hregister := @register_of_open s cluster init react hopen
    dsimp only
    rw [← List.append_nil (actionsTrace _ _ _ _)]
    refine .register hopen hbegun hregister ?_
    rw [hregister]
    exact .refl _

mutual

theorem leads_perform (own : Nat) (m : Payload) : ∀ (a : Action) (s : Session),
    own < s.relay.nextId → Leads s (actionTrace own m a s) (perform own m a s).2
  | .close, s, hown => leads_of_does .close hown rfl
  | .shutdown, s, _ => leads_of_does .shutdown trivial rfl
  | .connect, s, _ => by
    unfold perform actionTrace
    split
    · rename_i hc
      obtain ⟨hopen, -, rfl⟩ := connect_eq_ok_iff.1 hc
      exact leads_of_does (.ask rfl hopen) trivial rfl
    · rename_i hc
      exact leads_of_does (.refuse rfl (closed_of_connect_eq_error hc)) trivial rfl
  | .members _, s, _ => .refl s
  | .echo cluster, s, hown => by
    unfold perform actionTrace
    split
    · rename_i hb
      exact leads_of_does (.broadcast hb) hown rfl
    · rename_i hb
      exact leads_of_does (.fail hb) hown rfl
  | .send cluster sent, s, hown => by
    unfold perform actionTrace
    split
    · rename_i hb
      exact leads_of_does (.broadcast hb) hown rfl
    · rename_i hb
      exact leads_of_does (.fail hb) hown rfl
  | .register cluster init react, s, _ => by
    rw [perform_register]
    exact leads_register own m fun hown =>
      leads_performAll s.relay.nextId [] init (s.withRelay s.relay.newEndpoint) hown
  | .fail _, s, _ => .refl s
  | .panic, s, _ => .refl s

theorem leads_performAll (own : Nat) (m : Payload) : ∀ (as : List Action) (s : Session),
    own < s.relay.nextId → Leads s (actionsTrace own m as s) (performAll own m as s).2.2
  | [], s, _ => .refl s
  | a :: as, s, hown => by
    have hfirst := leads_perform own m a s hown
    have hnext := Nat.lt_of_lt_of_le hown hfirst.grows.nextId_le
    unfold performAll actionsTrace
    generalize perform own m a s = outcome at hfirst hnext
    obtain ⟨ending | result, t⟩ := outcome
    · rwa [List.append_nil]
    · exact hfirst.trans (leads_performAll own m as t hnext)

end

end Session

end Lockstep.Relay
