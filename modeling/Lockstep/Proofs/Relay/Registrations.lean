import Lockstep.Proofs.Relay.Connections

/-!
# Failed registrations

A registration takes its number before it initialises the handler, and the initialisation may do
anything with the relay. If it fails, the number is gone, and that is all that is left of the
registration besides what the initialisation did (`Asked`): no service ever has the number, it is in no
cluster, and nothing is queued for it (`Failed`). The connection that the handler was initialised with
works like any other.
-/

set_option autoImplicit false

namespace Lockstep.Relay.Session

variable {s t u : Session} {o : Operation} {es es' : Trace} {id i : Nat} {cluster : String}
  {init : List Action} {react : Payload → List Action} {cause : Report}

/-- What those come to who ask for a connection or a service, where `id` is the number to be handed
out next. -/
structure Asked (s : Session) (id : Nat) : Prop where
  /-- A number is handed out if the relay is open. -/
  number : ∀ o : Operation, o.asks = true →
    number? (s, o) = if s.relay.closed then none else some id
  connect : s.step .connect = if s.relay.closed then (.failed .relayClosed, s)
    else (.connected id,
      { s with relay := s.relay.newEndpoint, connections := s.connections ++ [id] })
  connectInside : ∀ own m, perform own m .connect s =
    if s.relay.closed then (.ok (.failed .relayClosed), s)
    else (.ok (.connected id), s.withRelay s.relay.newEndpoint)
  /-- A registration within an initialisation is one like any other. -/
  registerInside : ∀ own m cluster init react,
    perform own m (.register cluster init react) s =
      (match (s.register cluster init react).2.1 with
        | .registered id => .ok (.connected id)
        | .refused e => .ok (.failed e)
        | .panicked => .error .panicked, (s.register cluster init react).2.2)
  registered : ∀ cluster init react i,
    (s.register cluster init react).2.1 = .registered i → s.relay.closed = false ∧ i = id
  /-- A refused registration has not looked at the handler, and has changed nothing. -/
  refused : ∀ cluster init react,
    (s.register cluster init react).2.1 = .refused .relayClosed →
      s.callTrace (.register cluster init react) = [(s, .register cluster init react)] ∧
        ∀ cluster' init' react',
          s.register cluster' init' react' = ([], .refused .relayClosed, s)
  /-- A registration whose initialisation fails leaves what the initialisation has made of the session
  in which a number was taken. -/
  failed : ∀ cluster init react cause,
    (s.register cluster init react).2.1 = .refused (.init cause) → s.relay.closed = false ∧
      ∃ results reason t, performAll id [] init (s.withRelay s.relay.newEndpoint) =
          (results, .failed reason, t) ∧
        cause = { message := reason } ∧
        s.register cluster init react = (results, .refused (.init cause), t)
  /-- Taking a number changes nothing else. -/
  taken : s.relay.newEndpoint.nextId = id + 1 ∧ s.relay.newEndpoint.isClosed id = false ∧
    s.relay.newEndpoint.clusters = s.relay.clusters ∧
    s.relay.newEndpoint.closed = s.relay.closed ∧
    ∀ other, other < id → s.relay.newEndpoint.endpoints[other]? = s.relay.endpoints[other]?

/-- What becomes of a number that was taken by a failed registration. -/
structure Failed (es : Trace) (s : Session) (id : Nat) : Prop where
  unregistered : id ∉ s.serviceIds
  members : ∀ cluster, id ∉ s.relay.members cluster
  /-- Nothing is queued for a handler, and none was given anything. -/
  unmanned : Unmanned s.relay id
  /-- Broadcasts on the connection go through while neither it nor the relay is closed. -/
  broadcast : es.any (·.2.closes id) = false → es.any (·.2.isShutdown) = false →
    ∀ cluster m, Broadcasts s id cluster m none

/-- What the operations that have led to a session have made of numbers and registrations. -/
structure Registrations (es : Trace) (s : Session) : Prop where
  /-- The numbers handed out are 0, 1, 2 and so on, in the order in which it was asked for them. -/
  numbers : es.filterMap number? = List.range s.relay.nextId
  asked : Asked s s.relay.nextId
  failed : ∀ u cluster init react cause, (u, .register cluster init react) ∈ es →
    (u.register cluster init react).2.1 = .refused (.init cause) → Failed es s u.relay.nextId

theorem register_eq_refused
    (h : (s.register cluster init react).2.1 = .refused .relayClosed) :
    s.relay.closed = true := by
  cases hopen : s.relay.closed with
  | true => rfl
  | false =>
    rw [register_of_open hopen] at h
    generalize performAll s.relay.nextId [] init (s.withRelay s.relay.newEndpoint) = outcome at h
    obtain ⟨results, ending, t⟩ := outcome
    cases ending <;> cases h

theorem register_eq_failed
    (h : (s.register cluster init react).2.1 = .refused (.init cause)) :
    s.relay.closed = false ∧ ∃ results reason t,
      performAll s.relay.nextId [] init (s.withRelay s.relay.newEndpoint) =
          (results, .failed reason, t) ∧
        cause = { message := reason } ∧
        s.register cluster init react = (results, .refused (.init cause), t) := by
  cases hopen : s.relay.closed with
  | true =>
    rw [register_of_closed hopen] at h
    cases h
  | false =>
    rw [register_of_open hopen] at h ⊢
    generalize performAll s.relay.nextId [] init (s.withRelay s.relay.newEndpoint) = outcome at h ⊢
    obtain ⟨results, ending, t⟩ := outcome
    cases ending with
    | failed reason =>
      cases h
      exact ⟨rfl, results, reason, t, rfl, rfl, rfl⟩
    | completed | panicked => cases h

theorem asked (s : Session) : Asked s s.relay.nextId where
  number o ho := by
    cases hopen : s.relay.closed with
    | true => exact number?_of_closed hopen
    | false => exact number?_of_open ho hopen
  connect := by
    cases hopen : s.relay.closed with
    | true => simp [step, connect_of_closed hopen]
    | false => simp [step, connect_eq_ok_iff.2 ⟨hopen, rfl, rfl⟩]
  connectInside own m := by
    cases hopen : s.relay.closed with
    | true => simp [perform, connect_of_closed hopen]
    | false => simp [perform, connect_eq_ok_iff.2 ⟨hopen, rfl, rfl⟩]
  registerInside := perform_register s
  registered _ _ _ _ h := by
    obtain ⟨hopen, hid, -⟩ := register_eq_registered h
    exact ⟨hopen, hid⟩
  refused cluster init react h := by
    have hclosed := register_eq_refused h
    refine ⟨?_, fun _ _ _ => register_of_closed hclosed⟩
    simp only [callTrace, actionTrace, connect_of_closed hclosed]
  failed _ _ _ _ h := register_eq_failed h
  taken := by
    refine ⟨nextId_newEndpoint, ?_, rfl, rfl, fun other hlt => ?_⟩
    · rw [isClosed_newEndpoint, if_pos rfl]
    · rw [endpoint_newEndpoint, if_neg (Nat.ne_of_lt hlt)]

/-! ## No number is handed out twice -/

theorem eq_of_number? {a b : Session × Operation} (hnodup : (es.filterMap number?).Nodup)
    (ha : a ∈ es) (hb : b ∈ es) (hna : number? a = some i) (hnb : number? b = some i) : a = b := by
  obtain ⟨before, after, rfl⟩ := List.append_of_mem ha
  rw [List.filterMap_append, List.filterMap_cons_some hna, List.nodup_middle, List.nodup_cons,
    ← List.filterMap_append] at hnodup
  by_contra hne
  refine hnodup.1 (List.mem_filterMap.2 ⟨b, ?_, hnb⟩)
  rcases List.mem_append.1 hb with hb | hb
  · exact List.mem_append_left _ hb
  · exact List.mem_append_right _ (List.mem_of_ne_of_mem (Ne.symm hne) hb)

/-- Who has failed to register is not registered under the number later. -/
theorem Accounts.not_registered (h : Accounts es s)
    (hin : (u, .register cluster init react) ∈ es)
    (hrefused : (u.register cluster init react).2.1 = .refused (.init cause)) :
    ¬ Registered es u.relay.nextId := by
  rintro ⟨v, cluster', init', react', hin', hdone⟩
  obtain ⟨hopen, -⟩ := register_eq_failed hrefused
  obtain ⟨hopen', hid, -⟩ := register_eq_registered hdone
  have hnodup : (es.filterMap number?).Nodup := h.numbers ▸ List.nodup_range
  have heq := eq_of_number? hnodup hin hin' (number?_of_open rfl hopen)
    (hid ▸ number?_of_open rfl hopen')
  obtain ⟨rfl, hregister⟩ := Prod.mk.inj heq
  cases hregister
  rw [hrefused] at hdone
  cases hdone

/-- Services have been registered. -/
theorem keeps_registered : Keeps fun es s => ∀ id ∈ s.serviceIds, Registered es id where
  passes _ h hp := hp.serviceIds_eq ▸ h
  does _ h _ hd id hid := by
    obtain ⟨u, cluster, init, react, hin, hdone⟩ := h id (hd.serviceIds_eq ▸ hid)
    exact ⟨u, cluster, init, react, List.mem_append_left _ hin, hdone⟩
  join _ h _ _ hregistered id hid := by
    rw [serviceIds_join] at hid
    rcases List.mem_append.1 hid with hid | hid
    · exact h id hid
    · exact List.mem_singleton.1 hid ▸ hregistered

theorem failed_of_accounts (hs : s.Sound) (h : Accounts es s)
    (hregistered : ∀ id ∈ s.serviceIds, Registered es id)
    (hin : (u, .register cluster init react) ∈ es)
    (hrefused : (u.register cluster init react).2.1 = .refused (.init cause)) :
    Failed es s u.relay.nextId := by
  have hunregistered : u.relay.nextId ∉ s.serviceIds := fun hid =>
    h.not_registered hin hrefused (hregistered _ hid)
  refine ⟨hunregistered, fun cluster hid => hunregistered (hs.members cluster _ hid),
    hs.unmanned _ hunregistered, fun hcloses hshutdown cluster m => ?_⟩
  have hnumber : number? (u, .register cluster init react) = some u.relay.nextId :=
    number?_of_open rfl (register_eq_failed hrefused).1
  have hlt : u.relay.nextId < s.relay.nextId := by
    rw [← List.mem_range, ← h.numbers]
    exact List.mem_filterMap.2 ⟨_, hin, hnumber⟩
  have hnone : refusal? es u.relay.nextId = none := by
    simp only [refusal?, hcloses, hshutdown, Bool.false_eq_true, if_false]
  exact hnone ▸ broadcasts_of_accounts h hlt

/-! ## The account of registrations -/

/-- **A failed registration leaves nothing but its number**, besides what its initialisation has done:
after all operations and wherever one of them begins, at whatever depth. Numbers are handed out in the
order in which it is asked for them. -/
theorem failed_registrations_take_numbers :
    (∀ es s, Leads {} es s → Registrations es s ∧
      ∀ before u o after, es = before ++ (u, o) :: after → Registrations before u) ∧
    ∀ cs, Leads {} (trace {} cs) (run {} cs).2 := by
  refine ⟨fun es s h => ?_, leads_run sound_fresh⟩
  have haccounts := h.accounts
  have hregistered : Holds (fun es s => ∀ id ∈ s.serviceIds, Registered es id) [] es s :=
    h.holds keeps_registered sound_fresh nofun
  refine ⟨⟨haccounts.last.numbers, asked s, fun u cluster init react cause => ?_⟩,
    fun before u o after heq => ?_⟩
  · exact failed_of_accounts haccounts.sound haccounts.last hregistered.last
  · obtain ⟨hsound, -, hbefore⟩ := haccounts.each before u o after heq
    obtain ⟨-, -, hbefore'⟩ := hregistered.each before u o after heq
    exact ⟨hbefore.numbers, asked u, fun _ _ _ _ _ => failed_of_accounts hsound hbefore hbefore'⟩

/-- A handler registers another one while it is initialised, both initialisations fail, and they have
broadcast to the cluster that they were to join. -/
theorem failed_inside_failed :
    let inner : Action := .register "a" [.send "a" [7], .fail "inner"] fun _ => []
    let outer : List Action := [inner, .echo "a", .fail "outer"]
    let calls : List Call := [.register "a" [] fun _ => [], .register "a" outer fun _ => [], .connect]
    let es := trace {} calls
    let s := (run {} calls).2
    Leads {} es s ∧ es.filterMap number? = [0, 1, 2, 3] ∧ s.relay.members "a" = [0] ∧
      Failed es s 1 ∧ Failed es s 2 ∧ Broadcasts s 2 "a" [9] none := by
  intro inner outer calls es s
  obtain ⟨hregistrations, hruns⟩ := failed_registrations_take_numbers
  have hleads := hruns calls
  have hs := (hregistrations es s hleads).1
  have houter := hs.failed _ _ _ _ { message := "outer" } (List.mem_of_getElem? (i := 1) rfl) rfl
  have hinner := hs.failed _ _ _ _ { message := "inner" } (List.mem_of_getElem? (i := 2) rfl) rfl
  have hsent := hinner.broadcast (by decide) (by decide) "a" [9]
  exact ⟨hleads, hs.numbers, by decide, houter, hinner, hsent⟩

end Lockstep.Relay.Session
