import Lockstep.Proofs.Relay.Operations

/-!
# Sessions as operations leave them

Services have numbers of their own, only services are members, and only for them are messages queued
(`Sound`). `Keeps P` says that each single step keeps `P`, which may speak of the operations so far;
then `P` holds when all is done, and wherever an operation begins (`Leads.holds`). The calls on a
session are made of operations (`leads_run`), so this holds of them.
-/

set_option autoImplicit false

namespace Lockstep.Relay

variable {r r' : Relay} {id k : Nat} {cluster other : String} {sent : Payload} {panicked : Bool}

/-! ## Connections without a handler -/

/-- Nothing was queued for the connection, and no handler was given anything for it. -/
def Unmanned (r : Relay) (id : Nat) : Prop :=
  ∀ e, r.endpoints[id]? = some e → e = { closed := e.closed }

theorem Unmanned.modifyEndpoint {f : Endpoint → Endpoint} (h : Unmanned r id)
    (hf : id = k → ∀ e, e = { closed := e.closed } → f e = { closed := (f e).closed }) :
    Unmanned (r.modifyEndpoint k f) id := by
  intro e he
  rw [endpoint_modifyEndpoint] at he
  split at he
  · rename_i heq
    obtain ⟨e, hbefore, rfl⟩ := Option.map_eq_some_iff.1 he
    exact hf heq.symm e (h e hbefore)
  · exact h e he

theorem Unmanned.close (h : Unmanned r id) : Unmanned (r.close k) id :=
  h.modifyEndpoint fun _ e he => by rw [he]

theorem Unmanned.foldl_enqueue {ids : List Nat} (hids : id ∉ ids) (h : Unmanned r id) :
    Unmanned (ids.foldl (·.enqueue sent) r) id := by
  induction ids generalizing r with
  | nil => exact h
  | cons k ids ih =>
    have hne : id ≠ k := fun heq => hids (heq ▸ List.mem_cons_self)
    exact ih (mt (List.mem_cons_of_mem k) hids) (h.modifyEndpoint fun heq => absurd heq hne)

theorem Unmanned.newEndpoint (h : Unmanned r id) : Unmanned r.newEndpoint id := by
  intro e he
  rw [endpoint_newEndpoint] at he
  split at he
  · rw [← Option.some.inj he]
  · exact h e he

/-- There is nothing to be handled. -/
theorem Unmanned.take_eq_none (h : Unmanned r id) : r.take id = none := by
  refine Option.eq_none_iff_forall_ne_some.2 fun ⟨m, r'⟩ ht => ?_
  obtain ⟨e, queue, he, -, -, hpop, -⟩ := take_eq_some_iff.1 ht
  rw [h e he] at hpop
  cases hpop

theorem Unmanned.take (h : Unmanned r id) (ht : r.take k = some (sent, r')) : Unmanned r' id := by
  intro e' he'
  have hne : k ≠ id := fun heq => by
    rw [heq, h.take_eq_none] at ht
    cases ht
  obtain ⟨e, queue, -, -, -, -, rfl⟩ := take_eq_some_iff.1 ht
  rw [List.getElem?_set_ne hne] at he'
  exact h e' he'

theorem Unmanned.finish (h : Unmanned r id) (hf : r.finish k panicked = some r') :
    Unmanned r' id := by
  intro e' he'
  obtain ⟨e, he, hbusy, rfl⟩ := finish_eq_some_iff.1 hf
  have hne : k ≠ id := fun heq => by
    rw [h e (heq ▸ he)] at hbusy
    cases hbusy
  rw [List.getElem?_set_ne hne] at he'
  exact h e' he'

theorem members_leave (hd : r.Distinct) : (r.leave cluster id).members other =
    if other = cluster then (r.members other).erase id else r.members other := by
  have hremove : (r.removeMember cluster id).Distinct := hd.modifyMembers _
  exact (members_sweep hremove).trans members_removeMember

theorem mem_of_mem_leave (hd : r.Distinct)
    (hin : k ∈ (r.leave cluster id).members other) : k ∈ r.members other := by
  rw [members_leave hd] at hin
  split at hin
  · exact List.mem_of_mem_erase hin
  · exact hin

namespace Session

variable {s t u : Session} {o : Operation} {es es' : Trace} {init : List Action}
  {react : Payload → List Action} {results : List ActionResult} {ending : Ending}

/-! ## Sound sessions -/

/-- Only services are members, and only for them are there messages. -/
structure Sound (s : Session) : Prop where
  distinct : s.relay.Distinct
  connections : ∀ id ∈ s.connections, id < s.relay.nextId
  services : ∀ id ∈ s.serviceIds, id < s.relay.nextId
  nodup : s.serviceIds.Nodup
  members : ∀ cluster, ∀ id ∈ s.relay.members cluster, id ∈ s.serviceIds
  unmanned : ∀ id, id ∉ s.serviceIds → Unmanned s.relay id

theorem Sound.withRelay {r : Relay} (hs : s.Sound) (hd : r.Distinct)
    (hle : s.relay.nextId ≤ r.nextId)
    (hmembers : ∀ cluster id, id ∈ r.members cluster → id ∈ s.relay.members cluster)
    (hunmanned : ∀ id, id ∉ s.serviceIds → Unmanned r id) : (s.withRelay r).Sound where
  distinct := hd
  connections id hid := Nat.lt_of_lt_of_le (hs.connections id hid) hle
  services id hid := Nat.lt_of_lt_of_le (hs.services id hid) hle
  nodup := hs.nodup
  members cluster id hid := hs.members cluster id (hmembers cluster id hid)
  unmanned := hunmanned

theorem Sound.alike {r : Relay} (hs : s.Sound) (halike : s.relay.Alike r)
    (hle : s.relay.nextId ≤ r.nextId) (hunmanned : ∀ id, id ∉ s.serviceIds → Unmanned r id) :
    (s.withRelay r).Sound := by
  refine hs.withRelay ?_ hle (fun cluster id hid => halike.members cluster ▸ hid) hunmanned
  rw [Distinct, halike.1]
  exact hs.distinct

theorem Sound.passes (hs : s.Sound) (h : Passes s t) : t.Sound := by
  have hnext := h.nextId_eq
  cases h with
  | take ht =>
    exact hs.alike (alike_of_take ht) (Nat.le_of_eq hnext.symm) fun id hid =>
      (hs.unmanned id hid).take ht
  | finish hf =>
    exact hs.alike (alike_of_finish hf) (Nat.le_of_eq hnext.symm) fun id hid =>
      (hs.unmanned id hid).finish hf
  | rest hrelay hservices hconnections =>
    obtain ⟨relay, connections, services⟩ := t
    subst hrelay
    exact ⟨hs.distinct, fun id hid => (hconnections id hid).elim (hs.connections id) fun hlt => hlt,
      hservices ▸ hs.services, hservices ▸ hs.nodup, hservices ▸ hs.members,
      hservices ▸ hs.unmanned⟩

theorem Sound.does (hs : s.Sound) (h : Does s o t) : t.Sound := by
  have hle := h.nextId_le
  cases h with
  | ask =>
    exact hs.alike (alike_newEndpoint _) hle fun id hid => (hs.unmanned id hid).newEndpoint
  | refuse | fail => exact hs
  | @broadcast conn cluster m r hb =>
    obtain ⟨-, -, rfl⟩ := broadcast_eq_ok_iff.1 hb
    refine hs.alike (alike_foldl_enqueue _ _ _) hle fun id hid => ?_
    exact (hs.unmanned id hid).foldl_enqueue (mt (hs.members cluster id) hid)
  | close => exact hs.alike (alike_close _ _) hle fun id hid => (hs.unmanned id hid).close
  | stop =>
    exact hs.withRelay ((fades_leave _ _ _).distinct hs.distinct) hle
      (fun _ _ hin => mem_of_mem_leave hs.distinct hin) fun id hid => (hs.unmanned id hid).close
  | shutdown =>
    exact hs.withRelay List.nodup_nil hle (fun _ _ hin => nomatch hin) hs.unmanned

theorem Sound.join {service : Service} (hs : s.Sound) (hlt : service.id < s.relay.nextId)
    (hnew : service.id ∉ s.serviceIds) : (s.join service).Sound where
  distinct := hs.distinct.insertMember
  connections id hid := by
    show id < (s.relay.insertMember service.cluster service.id).nextId
    rw [nextId_insertMember]
    exact hs.connections id hid
  services id hid := by
    show id < (s.relay.insertMember service.cluster service.id).nextId
    rw [nextId_insertMember]
    rw [serviceIds_join] at hid
    rcases List.mem_append.1 hid with hid | hid
    · exact hs.services id hid
    · rwa [List.mem_singleton.1 hid]
  nodup := by
    rw [serviceIds_join, List.nodup_append]
    refine ⟨hs.nodup, List.nodup_singleton _, fun id hid id' hid' heq => hnew ?_⟩
    rwa [← List.mem_singleton.1 hid', ← heq]
  members cluster id hid := by
    rw [serviceIds_join, List.mem_append, List.mem_singleton]
    replace hid : id ∈ (s.relay.insertMember service.cluster service.id).members cluster := hid
    rw [members_insertMember] at hid
    have hold := hs.members cluster id
    grind
  unmanned id hid := by
    rw [serviceIds_join, List.mem_append, not_or] at hid
    intro e he
    exact hs.unmanned id hid.1 e (by simpa [Session.join] using he)

/-! ## What single steps keep -/

/-- One of the operations was a registration that ended with a service of this number. -/
def Registered (es : Trace) (id : Nat) : Prop :=
  ∃ u cluster init react, (u, .register cluster init react) ∈ es ∧
    (u.register cluster init react).2.1 = .registered id

/-- The steps keep the property of a session and of the operations that have led to it. -/
structure Keeps (P : Trace → Session → Prop) : Prop where
  passes : ∀ {es s t}, s.Sound → P es s → Passes s t → P es t
  does : ∀ {es s o t}, s.Sound → P es s → o.Valid s → Does s o t → P (es ++ [(s, o)]) t
  join : ∀ {es s} {service : Service}, s.Sound → P es s → service.id < s.relay.nextId →
    service.id ∉ s.serviceIds → Registered es service.id → P es (s.join service)

/-- The property holds in the end, and wherever an operation begins. -/
structure Holds (P : Trace → Session → Prop) (es₀ es : Trace) (t : Session) : Prop where
  sound : t.Sound
  last : P (es₀ ++ es) t
  each : ∀ before u o after, es = before ++ (u, o) :: after →
    u.Sound ∧ o.Valid u ∧ P (es₀ ++ before) u

section
variable {P : Trace → Session → Prop} {es₀ : Trace}

theorem Holds.cons (hs : s.Sound) (hv : o.Valid s) (hP : P es₀ s)
    (h : Holds P (es₀ ++ [(s, o)]) es t) : Holds P es₀ ((s, o) :: es) t where
  sound := h.sound
  last := by simpa using h.last
  each before u o' after heq := by
    cases before with
    | nil =>
      obtain ⟨hentry, -⟩ := List.cons.inj heq
      obtain ⟨rfl, rfl⟩ := Prod.mk.inj hentry
      exact ⟨hs, hv, by simpa using hP⟩
    | cons entry before =>
      obtain ⟨rfl, hrest⟩ := List.cons.inj heq
      simpa using h.each before u o' after hrest

theorem Holds.append (h : Holds P es₀ es t) (h' : Holds P (es₀ ++ es) es' u) :
    Holds P es₀ (es ++ es') u where
  sound := h'.sound
  last := by simpa using h'.last
  each before v o after heq := by
    rcases List.append_eq_append_iff.1 heq with ⟨middle, rfl, hrest⟩ | ⟨middle, rfl, hrest⟩
    · simpa using h'.each middle v o after hrest
    · cases middle with
      | nil => simpa using h'.each [] v o after hrest.symm
      | cons entry middle =>
        obtain ⟨rfl, -⟩ := List.cons.inj hrest
        exact h.each before v o middle rfl

/-- Who is registered has a number of its own. -/
theorem Keeps.conclude (hk : Keeps P) (hs : s.Sound)
    (hgrows : Grows (s.withRelay s.relay.newEndpoint) t) (ht : t.Sound) (hP : P es t)
    (hregistered : (t.conclude s.relay.nextId cluster react results ending).1 =
      .registered s.relay.nextId → Registered es s.relay.nextId) :
    (t.conclude s.relay.nextId cluster react results ending).2.Sound ∧
      P es (t.conclude s.relay.nextId cluster react results ending).2 := by
  rcases conclude_cases t s.relay.nextId cluster react results ending with
    ⟨-, heq⟩ | ⟨service, hid, heq⟩
  · rw [heq]
    exact ⟨ht, hP⟩
  · rw [heq] at hregistered ⊢
    have hbegun : (s.withRelay s.relay.newEndpoint).relay.nextId = s.relay.nextId + 1 :=
      nextId_newEndpoint
    have hlt : service.id < t.relay.nextId := by
      have := hgrows.nextId_le
      omega
    obtain ⟨new, hservices, hnew⟩ := hgrows.services
    have hunused : service.id ∉ t.serviceIds := by
      rw [hservices, List.mem_append, hid]
      rintro (hin | hin)
      · exact Nat.lt_irrefl _ (hs.services _ hin)
      · have := hnew _ hin
        omega
    exact ⟨ht.join hlt hunused, hk.join ht hP hlt hunused (hid ▸ hregistered rfl)⟩

theorem Leads.holds (hk : Keeps P) (h : Leads s es t) (hs : s.Sound) (hP : P es₀ s) :
    Holds P es₀ es t := by
  induction h generalizing es₀ with
  | refl => exact ⟨hs, by simpa using hP, fun before _ _ _ heq => by cases before <;> cases heq⟩
  | pass hp _ ih => exact ih (hs.passes hp) (hk.passes hs hP hp)
  | op hd hv _ _ ih => exact .cons hs hv hP (ih (hs.does hd) (hk.does hs hP hv hd))
  | @register s t _ es _ cluster init react results ending hopen hinit hregister _ ih ih' =>
    have hbegin : Does s (.register cluster init react) (s.withRelay s.relay.newEndpoint) :=
      .ask rfl hopen
    have hvalid : (Operation.register cluster init react).Valid s := trivial
    have hbegun := ih (hs.does hbegin) (hk.does hs hP hvalid hbegin)
    have hregistered :
        (t.conclude s.relay.nextId cluster react results ending).1 = .registered s.relay.nextId →
          Registered (es₀ ++ [(s, .register cluster init react)] ++ es) s.relay.nextId :=
      fun hdone => ⟨s, cluster, init, react, by simp, by rw [hregister]; exact hdone⟩
    obtain ⟨hsound, hlast⟩ := hk.conclude hs hinit.grows hbegun.sound hbegun.last hregistered
    exact .cons hs hvalid hP (hbegun.append (ih' hsound hlast))

end

theorem Leads.sound (h : Leads s es t) (hs : s.Sound) : t.Sound := by
  have hk : Keeps fun _ _ => True :=
    ⟨fun _ _ _ => trivial, fun _ _ _ _ => trivial, fun _ _ _ _ _ => trivial⟩
  have hholds : Holds (fun _ _ => True) [] es t := h.holds hk hs trivial
  exact hholds.sound

/-! ## Calls -/

theorem sound_fresh : Sound {} where
  distinct := List.nodup_nil
  connections := nofun
  services := nofun
  nodup := List.nodup_nil
  members _ _ hid := nomatch hid
  unmanned _ _ _ he := nomatch he

theorem serviceIds_modify {services : List Service} {f : Service → Service}
    (hf : ∀ service, (f service).id = service.id) :
    (services.modify k f).map (·.id) = services.map (·.id) := by
  refine List.ext_getElem? fun i => ?_
  rw [List.getElem?_map, List.getElem?_map, List.getElem?_modify]
  cases services[i]? with
  | none => rfl
  | some service =>
    by_cases hki : k = i <;> simp [hki, hf]

theorem lt_nextId_of_service (hs : s.Sound) {service : Service}
    (hservice : s.services[k]? = some service) : service.id < s.relay.nextId :=
  hs.services _ (List.mem_map_of_mem (List.mem_of_getElem? hservice))

theorem services_of_service? {service : Service} (h : s.service? k = some service) :
    s.services[k]? = some service := (Option.filter_eq_some_iff.1 h).1

theorem lt_nextId_of_id? (hs : s.Sound) {target : Target} (h : s.id? target = some id) :
    id < s.relay.nextId := by
  cases target with
  | connection n => exact hs.connections id (List.mem_of_getElem? h)
  | service n =>
    obtain ⟨service, hservice, rfl⟩ := Option.map_eq_some_iff.1 h
    exact lt_nextId_of_service hs (services_of_service? hservice)

/-- A further handle to a connection is kept. -/
theorem passes_keep (hid : id < s.relay.nextId) :
    Passes s { s with connections := s.connections ++ [id] } := by
  refine .rest rfl rfl fun other hin => ?_
  rcases List.mem_append.1 hin with hin | hin
  · exact .inl hin
  · exact .inr (List.mem_singleton.1 hin ▸ hid)

theorem leads_deliver? (hs : s.Sound) (h : s.deliver? k = some t) :
    Leads s (s.deliveryTrace k) t := by
  simp only [deliver?, Option.bind_eq_bind, Option.bind_eq_some_iff] at h
  obtain ⟨service, hservice, ⟨m, r⟩, htake, r', hfinish, h⟩ := h
  have hbegin : Passes s (s.withRelay r) := .take htake
  have hown : service.id < (s.withRelay r).relay.nextId :=
    hbegin.nextId_eq.symm ▸ lt_nextId_of_service hs hservice
  have hreact := leads_performAll service.id m (service.react m) (s.withRelay r) hown
  have htrace : s.deliveryTrace k =
      actionsTrace service.id m (service.react m) (s.withRelay r) := by
    simp only [deliveryTrace, hservice, htake]
  rw [htrace, ← List.append_nil (actionsTrace _ _ _ _)]
  dsimp only at hfinish h
  generalize performAll service.id m (service.react m) (s.withRelay r) = outcome at hfinish h hreact
  obtain ⟨results, ending, s'⟩ := outcome
  cases h
  refine .pass hbegin (hreact.trans (.pass (.finish hfinish) (leads_of_passes (.rest rfl ?_ ?_))))
  · exact serviceIds_modify fun _ => rfl
  · exact fun _ hid => .inl hid

theorem leads_deliverUpTo (hs : s.Sound) (n : Nat) :
    Leads s (s.deliveriesTrace k n) (s.deliverUpTo k n) := by
  induction n generalizing s with
  | zero => exact .refl s
  | succ n ih =>
    unfold deliverUpTo deliveriesTrace
    cases h : s.deliver? k with
    | none => exact .refl s
    | some t =>
      have hfirst := leads_deliver? hs h
      exact hfirst.trans (ih (hfirst.sound hs))

theorem leads_stop (hs : s.Sound) {service : Service} (h : s.service? k = some service) :
    Leads s (s.stopTrace k service) (s.stop k service) := by
  have hmem : service.id ∈ s.serviceIds :=
    List.mem_map_of_mem (List.mem_of_getElem? (services_of_service? h))
  have hleave : Does s (.stop service.id)
      (s.withRelay (s.relay.leave service.cluster service.id)) := .stop
  refine hleave.leads hmem rfl ?_
  rw [← List.append_nil (deliveriesTrace _ _ _)]
  refine (leads_deliverUpTo (hs.does hleave) _).trans (leads_of_passes (.rest rfl ?_ ?_))
  · exact serviceIds_modify fun _ => rfl
  · exact fun _ hid => .inl hid

/-- A call is made of operations. -/
theorem leads_step (hs : s.Sound) (c : Call) : Leads s (s.callTrace c) (s.step c).2 := by
  cases c with
  | connect =>
    simp only [step, callTrace]
    cases hc : s.relay.connect with
    | error e => exact leads_of_does (.refuse rfl (closed_of_connect_eq_error hc)) trivial rfl
    | ok made =>
      obtain ⟨id, r⟩ := made
      obtain ⟨hopen, rfl, rfl⟩ := connect_eq_ok_iff.1 hc
      have hmade : s.relay.nextId < s.relay.newEndpoint.nextId :=
        Nat.lt_of_lt_of_eq (Nat.lt_succ_self _) nextId_newEndpoint.symm
      exact Does.leads (.ask rfl hopen) trivial rfl (leads_of_passes (passes_keep hmade))
  | clone target =>
    simp only [step, callTrace]
    split
    · rename_i hid
      exact leads_of_passes (passes_keep (lt_nextId_of_id? hs hid))
    · exact .refl s
  | close target =>
    simp only [step, callTrace]
    cases hid : s.id? target with
    | none => exact .refl s
    | some id => exact leads_of_does .close (lt_nextId_of_id? hs hid) rfl
  | register cluster init react =>
    exact leads_register 0 [] fun hown => leads_performAll _ [] init _ hown
  | broadcast target cluster m =>
    simp only [step, callTrace]
    cases hid : s.id? target with
    | none => exact .refl s
    | some id =>
      have hvalid := lt_nextId_of_id? hs hid
      cases hb : s.relay.broadcast id cluster m with
      | error e => simpa [hb] using leads_of_does (.fail hb) hvalid rfl
      | ok r => simpa [hb] using leads_of_does (.broadcast hb) hvalid rfl
  | shutdown => exact leads_of_does .shutdown trivial rfl
  | unregister k =>
    simp only [step, callTrace]
    cases h : s.service? k with
    | none => exact .refl s
    | some service => exact leads_stop hs h
  | deliver k =>
    simp only [step, callTrace]
    cases h : s.deliver? k with
    | none => exact .refl s
    | some t => exact leads_deliver? hs h
  | inspect | observe =>
    simp only [step]
    split <;> exact .refl s
  | members => exact .refl s

theorem leads_run (hs : s.Sound) (cs : List Call) : Leads s (s.trace cs) (s.run cs).2 := by
  induction cs generalizing s with
  | nil => exact .refl s
  | cons c cs ih =>
    have hc := leads_step hs c
    exact hc.trans (ih (hc.sound hs))

end Session

end Lockstep.Relay
