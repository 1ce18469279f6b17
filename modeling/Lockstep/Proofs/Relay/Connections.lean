import Mathlib.Data.List.Induction
import Mathlib.Logic.Relation
import Lockstep.Proofs.Relay.Accounts

/-!
# Closing connections

A connection is closed by whoever has a copy of it, and by its service when that is stopped; handlers
have copies too, and act at any time. `Closings` says what is known of a session from the operations
that have led to it: a connection is closed if and only if one of them has closed it, and a broadcast is
refused for that reason first, and for a shutdown second.

Which handles are copies of each other is told by the calls (`Copied`), and it is the same as having the
same number (`copies_of_run`).
-/

set_option autoImplicit false

namespace Lockstep.Relay.Session

variable {s t u : Session} {es fs : Trace} {id i j k : Nat} {cluster : String} {m : Payload}
  {cs ds : List Call} {c : Call} {as : List Action} {x y : Target}

/-! ## Refusals -/

/-- Why a broadcast on the connection is refused after these operations. -/
def refusal? (es : Trace) (id : Nat) : Option RelayError :=
  if es.any (·.2.closes id) then some .connectionClosed
  else if es.any (·.2.isShutdown) then some .relayClosed
  else none

/-- What a broadcast leaves, refused or not. -/
def afterBroadcast (s : Session) (cluster : String) (m : Payload) : Option RelayError → Session
  | some _ => s
  | none => s.withRelay ((s.relay.members cluster).foldl (·.enqueue m) s.relay)

/-- This is what comes of a broadcast on the connection, by whoever has a copy of it. -/
structure Broadcasts (s : Session) (id : Nat) (cluster : String) (m : Payload)
    (refusal : Option RelayError) : Prop where
  call : ∀ x, s.id? x = some id → s.step (.broadcast x cluster m) =
    (refusal.elim .done .failed, s.afterBroadcast cluster m refusal)
  send : ∀ given, perform id given (.send cluster m) s =
    (.ok (refusal.elim .done .failed), s.afterBroadcast cluster m refusal)
  echo : perform id m (.echo cluster) s =
    (.ok (refusal.elim .done .failed), s.afterBroadcast cluster m refusal)

/-- What a closing does, by whoever has a copy of the connection. -/
structure Closes (s : Session) (id : Nat) (t : Session) : Prop where
  call : ∀ x, s.id? x = some id → s.step (.close x) = (.done, t)
  action : ∀ given, perform id given .close s = (.ok .done, t)
  closed : t.relay.isClosed id = true
  /-- No other connection changes, nor its queue. -/
  others : ∀ other, other ≠ id → t.relay.endpoints[other]? = s.relay.endpoints[other]?
  members : ∀ cluster, t.relay.members cluster = s.relay.members cluster
  rest : t.relay.closed = s.relay.closed ∧ t.connections = s.connections ∧ t.services = s.services

/-- What is known of the connections of a session from the operations that have led to it. -/
structure Closings (es : Trace) (s : Session) : Prop where
  /-- A connection is closed if and only if one of the operations has closed it. -/
  closed : ∀ id, id < s.relay.nextId → s.relay.isClosed id = es.any (·.2.closes id)
  /-- All handles report that. -/
  reports : ∀ x id, s.id? x = some id → s.step (.inspect x) =
    (.connection id (es.any (·.2.closes id)) (s.relay.connectionText id), s)
  /-- Its own closing is why a broadcast is refused, and else a shutdown of the relay. Who is
  registered with the cluster does not matter. -/
  broadcast : ∀ id, id < s.relay.nextId → ∀ cluster m,
    Broadcasts s id cluster m (refusal? es id)
  close : ∀ id, Closes s id (s.withRelay (s.relay.close id))

theorem broadcast_eq (h : Accounts es s) (hid : id < s.relay.nextId) :
    s.relay.broadcast id cluster m = match refusal? es id with
      | some e => .error e
      | none => .ok ((s.relay.members cluster).foldl (·.enqueue m) s.relay) := by
  rw [refusal?, ← h.isClosed_eq hid, h.shutdown, Relay.broadcast]
  cases s.relay.isClosed id <;> cases s.relay.closed <;> rfl

theorem broadcasts_of_accounts (h : Accounts es s) (hid : id < s.relay.nextId) :
    Broadcasts s id cluster m (refusal? es id) := by
  have heq := @broadcast_eq s es id cluster m h hid
  generalize refusal? es id = refusal at heq
  refine ⟨fun x hx => ?_, fun given => ?_, ?_⟩
  · cases refusal <;> simp only [step, hx, heq] <;> rfl
  · cases refusal <;> simp only [perform, heq] <;> rfl
  · cases refusal <;> simp only [perform, heq] <;> rfl

theorem closes_withRelay (s : Session) (id : Nat) : Closes s id (s.withRelay (s.relay.close id)) where
  call x hx := by simp only [step, hx]
  action given := rfl
  closed := by
    show (s.relay.close id).isClosed id = true
    rw [isClosed_close, beq_self_eq_true, Bool.true_or]
  others other hne := by
    show (s.relay.close id).endpoints[other]? = _
    rw [Relay.close, endpoint_modifyEndpoint, if_neg (Ne.symm hne)]
  members cluster := (alike_close _ _).members cluster
  rest := ⟨rfl, rfl, rfl⟩

theorem closings_of_accounts (hs : s.Sound) (h : Accounts es s) : Closings es s where
  closed _ hid := h.isClosed_eq hid
  reports x id hx := by
    simp only [step, hx, h.isClosed_eq (lt_nextId_of_id? hs hx)]
  broadcast _ hid _ _ := broadcasts_of_accounts h hid
  close := closes_withRelay s

/-! ## Copies -/

/-- The number that the handle was made with; it has it for good, though a stopped service is no
handle any more. -/
def madeWith? (s : Session) : Target → Option Nat
  | .connection n => s.connections[n]?
  | .service k => s.serviceIds[k]?

/-- In the calls `cs` the handle `y` is made as a copy of `x`. -/
def Copied (cs : List Call) (x y : Target) : Prop :=
  ∃ before after, cs = before ++ .clone x :: after ∧ ((run {} before).2.id? x).isSome ∧
    y = .connection (run {} before).2.connections.length

/-- The handles that a call makes. -/
inductive Makes (s : Session) : Call → Session → Prop
  | connect {t : Session} : t.connections = s.connections ++ [s.relay.nextId] →
      t.serviceIds = s.serviceIds → Makes s .connect t
  | clone {x : Target} {id : Nat} {t : Session} : s.id? x = some id →
      t.connections = s.connections ++ [id] → t.serviceIds = s.serviceIds → Makes s (.clone x) t
  | services {c : Call} {t : Session} : t.connections = s.connections → Grows s t → Makes s c t

theorem Acts.connections_eq (h : Acts as s t) : t.connections = s.connections := by
  induction h with
  | stop => rfl
  | skip _ ih | close _ ih | connect _ _ ih | shutdown _ ih | broadcast _ _ ih => exact ih
  | @register _ s t _ id cluster _ react results ending _ _ _ ih ih' =>
    have hconclude : (t.conclude id cluster react results ending).2.connections = t.connections := by
      cases ending <;> rfl
    exact ih'.trans (hconclude.trans ih)

theorem connections_register {init : List Action} {react : Payload → List Action} :
    (s.register cluster init react).2.2.connections = s.connections := by
  have hacts : Acts [.register cluster init react] s _ :=
    acts_perform 0 [] (.register cluster init react) s .stop
  rw [perform_register] at hacts
  exact hacts.connections_eq

theorem connections_deliver? (h : s.deliver? k = some t) : t.connections = s.connections := by
  simp only [deliver?, Option.bind_eq_bind, Option.bind_eq_some_iff] at h
  obtain ⟨service, -, ⟨m, r⟩, -, r', -, h⟩ := h
  cases h
  exact (acts_performAll service.id m (service.react m) (s.withRelay r)).connections_eq

theorem connections_deliverUpTo (n : Nat) : (s.deliverUpTo k n).connections = s.connections := by
  induction n generalizing s with
  | zero => rfl
  | succ n ih =>
    unfold deliverUpTo
    split
    · rename_i h
      exact ih.trans (connections_deliver? h)
    · rfl

theorem makes_step (hs : s.Sound) (c : Call) : Makes s c (s.step c).2 := by
  have hgrows := (leads_step hs c).grows
  cases c with
  | connect =>
    simp only [step] at hgrows ⊢
    cases hc : s.relay.connect with
    | error e => exact .services rfl (hc ▸ hgrows)
    | ok made =>
      obtain ⟨id, r⟩ := made
      obtain ⟨-, rfl, rfl⟩ := connect_eq_ok_iff.1 hc
      exact .connect rfl rfl
  | clone x =>
    simp only [step] at hgrows ⊢
    cases hid : s.id? x with
    | none => exact .services rfl (hid ▸ hgrows)
    | some id => exact .clone hid rfl rfl
  | register cluster init react => exact .services connections_register hgrows
  | unregister k =>
    refine .services ?_ hgrows
    simp only [step]
    split
    · exact connections_deliverUpTo _
    · rfl
  | deliver k =>
    refine .services ?_ hgrows
    simp only [step]
    cases h : s.deliver? k with
    | none => rfl
    | some t => exact connections_deliver? h
  | broadcast =>
    refine .services ?_ hgrows
    simp only [step]
    split
    · split <;> rfl
    · rfl
  | close | inspect | observe =>
    refine .services ?_ hgrows
    simp only [step]
    split <;> rfl
  | members | shutdown => exact .services rfl hgrows

theorem madeWith?_of_id? (h : s.id? x = some id) : s.madeWith? x = some id := by
  cases x with
  | connection n => exact h
  | service n =>
    obtain ⟨service, hservice, rfl⟩ := Option.map_eq_some_iff.1 h
    rw [madeWith?, serviceIds, List.getElem?_map, services_of_service? hservice, Option.map_some]

theorem madeWith?_lt (hs : s.Sound) (h : s.madeWith? x = some i) : i < s.relay.nextId := by
  cases x with
  | connection n => exact hs.connections i (List.mem_of_getElem? h)
  | service n => exact hs.services i (List.mem_of_getElem? h)

/-- Handles keep their numbers. -/
theorem Makes.madeWith? (h : Makes s c t) (hx : s.madeWith? x = some i) :
    t.madeWith? x = some i := by
  have hkept {l new : List Nat} {n : Nat} (hn : l[n]? = some i) : (l ++ new)[n]? = some i := by
    rw [List.getElem?_append_left (List.getElem?_eq_some_iff.1 hn).1, hn]
  cases h with
  | connect hconnections hservices | clone _ hconnections hservices =>
    cases x with
    | connection n =>
      rw [Session.madeWith?, hconnections]
      exact hkept hx
    | service n =>
      rw [Session.madeWith?, hservices]
      exact hx
  | services hconnections hgrows =>
    obtain ⟨new, hservices, -⟩ := hgrows.services
    cases x with
    | connection n =>
      rw [Session.madeWith?, hconnections]
      exact hx
    | service n =>
      rw [Session.madeWith?, hservices]
      exact hkept hx

theorem madeWith?_run (hs : s.Sound) (cs : List Call) (hx : s.madeWith? x = some i) :
    (s.run cs).2.madeWith? x = some i := by
  induction cs generalizing s with
  | nil => exact hx
  | cons c cs ih => exact ih ((leads_step hs c).sound hs) ((makes_step hs c).madeWith? hx)

theorem mem_or_new {l new : List Nat} {n : Nat} (h : (l ++ new)[n]? = some i) :
    l[n]? = some i ∨ i ∈ new := by
  rw [List.getElem?_append] at h
  split at h
  · exact .inl h
  · exact .inr (List.mem_of_getElem? h)

theorem eq_length_or {l : List Nat} {n : Nat} (h : (l ++ [k])[n]? = some i) :
    l[n]? = some i ∨ (n = l.length ∧ i = k) := by
  rcases mem_or_new h with hold | hnew
  · exact .inl hold
  · obtain ⟨hlt, -⟩ := List.getElem?_eq_some_iff.1 h
    rw [List.length_append, List.length_singleton] at hlt
    by_cases hn : n < l.length
    · exact .inl (List.getElem?_append_left hn ▸ h)
    · exact .inr ⟨by omega, List.mem_singleton.1 hnew⟩

/-- A handle has been there before, or it is made as a copy, or it is alone with its number. -/
theorem Makes.cases (h : Makes s c t) (hs : s.Sound) (ht : t.Sound) (hx : t.madeWith? x = some i) :
    s.madeWith? x = some i ∨
      (∃ x₀, c = .clone x₀ ∧ s.id? x₀ = some i ∧ x = .connection s.connections.length) ∨
      ∀ y, t.madeWith? y = some i → y = x := by
  -- numbers that were there before are below the next one
  have hold {y} (hy : s.madeWith? y = some i) (hle : s.relay.nextId ≤ i) : False :=
    Nat.not_lt_of_le hle (madeWith?_lt hs hy)
  cases h with
  | connect hconnections hservices =>
    have hconnect {y} (hy : t.madeWith? y = some i) : s.madeWith? y = some i ∨
        (y = .connection s.connections.length ∧ i = s.relay.nextId) := by
      cases y with
      | connection n =>
        rw [Session.madeWith?, hconnections] at hy
        exact (eq_length_or hy).imp_right fun ⟨hn, hi⟩ => ⟨by rw [hn], hi⟩
      | service n =>
        rw [Session.madeWith?, hservices] at hy
        exact .inl hy
    rcases hconnect hx with hx | ⟨rfl, rfl⟩
    · exact .inl hx
    · refine .inr (.inr fun y hy => ?_)
      rcases hconnect hy with hy | ⟨rfl, -⟩
      · exact (hold hy (Nat.le_refl _)).elim
      · rfl
  | @clone x₀ id _ hid hconnections hservices =>
    cases x with
    | connection n =>
      rw [Session.madeWith?, hconnections] at hx
      rcases eq_length_or hx with hx | ⟨rfl, rfl⟩
      · exact .inl hx
      · exact .inr (.inl ⟨x₀, rfl, hid, rfl⟩)
    | service n =>
      rw [Session.madeWith?, hservices] at hx
      exact .inl hx
  | services hconnections hgrows =>
    obtain ⟨new, hservices, hnew⟩ := hgrows.services
    have hgrow {y} (hy : t.madeWith? y = some i) : s.madeWith? y = some i ∨
        s.relay.nextId ≤ i ∧ ∃ n, y = .service n := by
      cases y with
      | connection n =>
        rw [Session.madeWith?, hconnections] at hy
        exact .inl hy
      | service n =>
        rw [Session.madeWith?, hservices] at hy
        exact (mem_or_new hy).imp_right fun hin => ⟨hnew i hin, n, rfl⟩
    rcases hgrow hx with hx' | ⟨hle, n, rfl⟩
    · exact .inl hx'
    · refine .inr (.inr fun y hy => ?_)
      rcases hgrow hy with hy' | ⟨-, n', rfl⟩
      · exact (hold hy' hle).elim
      · -- services have numbers of their own
        obtain ⟨hlt, -⟩ := List.getElem?_eq_some_iff.1 hy
        exact congrArg Target.service ((List.getElem?_inj hlt ht.nodup).1 (hy.trans hx.symm))

/-- Copies have the same number. -/
theorem madeWith?_of_copied (h : Copied cs x y) :
    (run {} cs).2.madeWith? x = (run {} cs).2.madeWith? y := by
  obtain ⟨before, after, rfl, hsome, rfl⟩ := h
  obtain ⟨id, hid⟩ := Option.isSome_iff_exists.1 hsome
  have hs := (leads_run sound_fresh before).sound sound_fresh
  have hclone : ((run {} before).2.step (.clone x)).2.madeWith?
      (.connection (run {} before).2.connections.length) = some id := by
    simp [step, hid, madeWith?]
  have hsound := (leads_step hs (.clone x)).sound hs
  have hx := (makes_step hs (.clone x)).madeWith? (madeWith?_of_id? hid)
  rw [run_append]
  exact (madeWith?_run hsound after hx).trans (madeWith?_run hsound after hclone).symm

theorem madeWith?_of_eqvGen (h : Relation.EqvGen (Copied cs) x y) :
    (run {} cs).2.madeWith? x = (run {} cs).2.madeWith? y := by
  induction h with
  | rel _ _ h => exact madeWith?_of_copied h
  | refl => rfl
  | symm _ _ _ ih => exact ih.symm
  | trans _ _ _ _ _ ih ih' => exact ih.trans ih'

theorem Copied.snoc (h : Copied cs x y) (c : Call) : Copied (cs ++ [c]) x y := by
  obtain ⟨before, after, rfl, hsome, rfl⟩ := h
  exact ⟨before, after ++ [c], by simp, hsome, rfl⟩

/-- Handles of the same number are copies. -/
theorem eqvGen_of_madeWith? (cs : List Call) : ∀ {x y i},
    (run {} cs).2.madeWith? x = some i → (run {} cs).2.madeWith? y = some i →
      Relation.EqvGen (Copied cs) x y := by
  induction cs using List.reverseRecOn with
  | nil =>
    rintro x y i hx -
    cases x <;> cases hx
  | append_singleton cs c ih =>
    intro x y i hx hy
    have hs := (leads_run sound_fresh cs).sound sound_fresh
    have hmakes := makes_step hs c
    have hsound := (leads_step hs c).sound hs
    rw [run_append] at hx hy
    -- a handle that is not alone with its number has a copy that was there before
    have hbefore {z} (hz : ((run {} cs).2.step c).2.madeWith? z = some i) :
        (∃ z₀, (run {} cs).2.madeWith? z₀ = some i ∧
          Relation.EqvGen (Copied (cs ++ [c])) z₀ z) ∨
        ∀ z', ((run {} cs).2.step c).2.madeWith? z' = some i → z' = z := by
      rcases hmakes.cases hs hsound hz with hold | ⟨z₀, rfl, hid, rfl⟩ | halone
      · exact .inl ⟨z, hold, .refl z⟩
      · refine .inl ⟨z₀, madeWith?_of_id? hid, .rel _ _ ⟨cs, [], rfl, ?_, rfl⟩⟩
        exact Option.isSome_iff_exists.2 ⟨i, hid⟩
      · exact .inr halone
    rcases hbefore hx with ⟨x₀, hx₀, hxx⟩ | halone
    · rcases hbefore hy with ⟨y₀, hy₀, hyy⟩ | halone
      · have hxy := Relation.EqvGen.mono (fun _ _ h => h.snoc c) _ _ (ih hx₀ hy₀)
        exact .trans _ _ _ (.symm _ _ hxx) (.trans _ _ _ hxy hyy)
      · rw [halone x hx]
        exact .refl _
    · rw [halone y hy]
      exact .refl _

/-- Which handles are copies of each other in the session that the calls `cs` leave. -/
structure Copies (cs : List Call) (s : Session) : Prop where
  /-- Handles are copies, at whatever remove, if and only if they have the same number. -/
  same : ∀ x y i j, s.madeWith? x = some i → s.madeWith? y = some j →
    (i = j ↔ Relation.EqvGen (Copied cs) x y)
  /-- Who closes by way of a handle closes its number, and so does who stops a service. -/
  closing : ∀ x id, s.id? x = some id →
    s.madeWith? x = some id ∧ s.callTrace (.close x) = [(s, .close id)]
  stopping : ∀ k service, s.service? k = some service →
    s.madeWith? (.service k) = some service.id ∧
      ∃ es, s.callTrace (.unregister k) = (s, .stop service.id) :: es
  /-- The connection that a handler is initialised with is the one that its service has. -/
  initialised : ∀ cluster init react id,
    (s.register cluster init react).2.1 = .registered id →
      (s.register cluster init react).2.2.serviceIds.getLast? = some id ∧
        s.callTrace (.register cluster init react) =
          (s, .register cluster init react) ::
            actionsTrace id [] init (s.withRelay s.relay.newEndpoint)

theorem copies_of_run (cs : List Call) : Copies cs (run {} cs).2 where
  same x y i j hx hy := by
    refine ⟨fun heq => eqvGen_of_madeWith? cs hx (heq ▸ hy), fun h => ?_⟩
    exact Option.some.inj (hx.symm.trans ((madeWith?_of_eqvGen h).trans hy))
  closing x id hx := ⟨madeWith?_of_id? hx, by rw [callTrace, hx]; rfl⟩
  stopping k service h := by
    have hid : (run {} cs).2.id? (.service k) = some service.id := by
      rw [id?, h, Option.map_some]
    exact ⟨madeWith?_of_id? hid, _, by rw [callTrace, h]; rfl⟩
  initialised cluster init react id h := by
    obtain ⟨hopen, rfl, hlast⟩ := register_eq_registered h
    refine ⟨hlast, ?_⟩
    have hconnect : (run {} cs).2.relay.connect = .ok (_, _) := connect_eq_ok_iff.2 ⟨hopen, rfl, rfl⟩
    simp only [callTrace, actionTrace, hconnect]

/-! ## The account of closings -/

theorem isClosed_of_leads (h : Leads {} es s) (h' : Leads s fs t) (hid : id < s.relay.nextId)
    (hclosed : s.relay.isClosed id = true) : t.relay.isClosed id = true := by
  have hid' : id < t.relay.nextId := Nat.lt_of_lt_of_le hid h'.grows.nextId_le
  rw [h.accounts.last.isClosed_eq hid, List.nil_append] at hclosed
  rw [(h.trans h').accounts.last.isClosed_eq hid', List.nil_append, List.any_append, hclosed,
    Bool.true_or]

/-- **A connection is closed if and only if it was closed by way of one of its copies**, for good, and
its broadcasts are refused for that reason before any other. This holds after all operations and
wherever one of them begins, whoever has a copy; and all calls are made of such operations. -/
theorem closed_with_its_copies :
    (∀ es s, Leads {} es s → Closings es s ∧
      (∀ before u o after, es = before ++ (u, o) :: after → Closings before u) ∧
      ∀ fs t, Leads s fs t → ∀ id, id < s.relay.nextId → s.relay.isClosed id = true →
        t.relay.isClosed id = true) ∧
    ∀ cs, Leads {} (trace {} cs) (run {} cs).2 ∧ Copies cs (run {} cs).2 := by
  refine ⟨fun es s h => ?_, fun cs => ⟨leads_run sound_fresh cs, copies_of_run cs⟩⟩
  have hholds := h.accounts
  refine ⟨closings_of_accounts hholds.sound hholds.last, fun before u o after heq => ?_,
    fun fs t h' id => isClosed_of_leads h h'⟩
  obtain ⟨hsound, -, haccounts⟩ := hholds.each before u o after heq
  exact closings_of_accounts hsound haccounts

/-- A handler closes its connection when it is given a message; a copy of a copy of it is closed with
it, and another connection is not. -/
theorem closed_by_reaction :
    let calls : List Call :=
      [.register "a" [] fun _ => [.close], .clone (.service 0), .connect,
        .broadcast (.connection 1) "a" [1], .deliver 0, .clone (.connection 0)]
    let s := (run {} calls).2
    let t := s.withRelay s.relay.shutdown
    Leads {} (trace {} calls) s ∧ Leads s [(s, .shutdown)] t ∧
      Relation.EqvGen (Copied calls) (.service 0) (.connection 2) ∧
      s.step (.inspect (.connection 2)) =
        (.connection 0 true "Connection \x7b id: 0, closed: true \x7d", s) ∧
      s.step (.broadcast (.connection 2) "a" [2]) = (.failed .connectionClosed, s) ∧
      (s.step (.broadcast (.connection 1) "a" [2])).1 = .done ∧
      t.relay.isClosed 0 = true ∧
      t.step (.broadcast (.connection 1) "b" [2]) = (.failed .relayClosed, t) := by
  intro calls s t
  obtain ⟨hclosings, hruns⟩ := closed_with_its_copies
  obtain ⟨hleads, hcopies⟩ := hruns calls
  have hshut : Leads s [(s, .shutdown)] t := leads_of_does .shutdown trivial rfl
  obtain ⟨hs, -, hstays⟩ := hclosings _ _ hleads
  have ht := (hclosings _ _ (hleads.trans hshut)).1
  have hcopied := (hcopies.same (.service 0) (.connection 2) 0 0 (by decide) (by decide)).1 rfl
  have hreport := hs.reports (.connection 2) 0 (by decide)
  have hclosed : (trace {} calls).any (·.2.closes 0) = true := by decide
  have hrefused := (hs.broadcast 0 (by decide) "a" [2]).call (.connection 2) (by decide)
  have hrefusal : refusal? (trace {} calls) 0 = some .connectionClosed := by decide
  have hsent := (hs.broadcast 1 (by decide) "a" [2]).call (.connection 1) (by decide)
  have hnone : refusal? (trace {} calls) 1 = none := by decide
  have hrefused' := (ht.broadcast 1 (by decide) "b" [2]).call (.connection 1) (by decide)
  have hrefusal' : refusal? (trace {} calls ++ [(s, .shutdown)]) 1 = some .relayClosed := by decide
  rw [hclosed] at hreport
  rw [hrefusal] at hrefused
  rw [hnone] at hsent
  rw [hrefusal'] at hrefused'
  exact ⟨hleads, hshut, hcopied, hreport, hrefused, congrArg Prod.fst hsent,
    hstays _ _ hshut 0 (by decide) (by decide), hrefused'⟩

end Lockstep.Relay.Session
