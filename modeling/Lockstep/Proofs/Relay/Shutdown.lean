import Lockstep.Proofs.Relay.Clusters
import Lockstep.Proofs.Relay.Closing
import Lockstep.Proofs.Relay.Handlers

/-!
# A relay that was shut down

Whatever callers and handlers do, a closed relay stays closed, and its clusters get no new members
(`Fades`). That they have none at all needs more, since a registration does not look at the relay
again when its handler has been initialised: a handler whose initialisation shuts the relay down is a
member of the closed relay (`registered_while_closing`). If no initialisation does that, then the
clusters of a closed relay are empty (`Calm`).

`shutdown_is_final` says so of calls with the handlers acting inside them, and of calls that overlap.
-/

set_option autoImplicit false

namespace Lockstep.Relay

variable {r r' r'' : Relay} {cluster : String} {id : Nat}

/-! ## What a closed relay loses -/

/-- What can become of a relay. -/
structure Fades (r r' : Relay) : Prop where
  distinct : r.Distinct → r'.Distinct
  closed : r.closed = true → r'.closed = true
  /-- Nobody becomes a member of a closed relay. -/
  members : r.Distinct → r.closed = true →
    ∀ cluster, (r'.members cluster).Sublist (r.members cluster)

theorem Fades.refl (r : Relay) : Fades r r := ⟨id, id, fun _ _ _ => .refl _⟩

theorem Fades.trans (h : Fades r r') (h' : Fades r' r'') : Fades r r'' where
  distinct hd := h'.distinct (h.distinct hd)
  closed hclosed := h'.closed (h.closed hclosed)
  members hd hclosed cluster :=
    (h'.members (h.distinct hd) (h.closed hclosed) cluster).trans (h.members hd hclosed cluster)

theorem Alike.fades (h : r.Alike r') : Fades r r' := by
  refine ⟨fun hd => ?_, fun hclosed => h.2.trans hclosed, fun _ _ cluster => ?_⟩
  · rwa [Distinct, h.1]
  · rw [h.members]

theorem fades_of_open (hopen : r.closed = false) (hd : r.Distinct → r'.Distinct) : Fades r r' := by
  refine ⟨hd, fun hclosed => ?_, fun _ hclosed => ?_⟩ <;> rw [hopen] at hclosed <;> cases hclosed

theorem fades_shutdown (r : Relay) : Fades r r.shutdown :=
  ⟨fun _ => List.nodup_nil, fun _ => rfl, fun _ _ _ => List.nil_sublist _⟩

theorem fades_leave (r : Relay) (cluster : String) (id : Nat) : Fades r (r.leave cluster id) := by
  have hremove (hd : r.Distinct) : (r.removeMember cluster id).Distinct := hd.modifyMembers _
  refine ⟨fun hd => (hremove hd).sweep, fun hclosed => hclosed, fun hd _ other => ?_⟩
  show (((r.removeMember cluster id).sweep cluster).members other).Sublist _
  rw [members_sweep (hremove hd), members_removeMember]
  split
  · exact List.erase_sublist
  · exact .refl _

theorem closed_insertMember : (r.insertMember cluster id).closed = r.closed := by
  rw [insertMember]
  split <;> rfl

/-! ## Prudent handlers -/

/-- The action shuts the relay down in no initialisation; whether it is part of one itself is told by
`inside`. -/
inductive Action.Prudent : Bool → Action → Prop
  | close {inside} : Prudent inside .close
  | shutdown : Prudent false .shutdown
  | connect {inside} : Prudent inside .connect
  | members {inside cluster} : Prudent inside (.members cluster)
  | echo {inside cluster} : Prudent inside (.echo cluster)
  | send {inside cluster m} : Prudent inside (.send cluster m)
  | register {inside cluster init react} : (∀ a ∈ init, Prudent true a) →
      (∀ m, ∀ a ∈ react m, Prudent false a) → Prudent inside (.register cluster init react)
  | fail {inside reason} : Prudent inside (.fail reason)
  | panic {inside} : Prudent inside .panic

namespace Session

variable {s t : Session} {as given : List Action} {inside : Bool} {cs : List Call}

theorem distinct_conclude {react : Payload → List Action} {results : List ActionResult}
    {ending : Ending} (hd : s.relay.Distinct) :
    (s.conclude id cluster react results ending).2.relay.Distinct := by
  cases ending with
  | completed => exact hd.insertMember
  | _ => exact hd

theorem Acts.fades (h : Acts as s t) : s.relay.Fades t.relay := by
  induction h with
  | stop => exact .refl _
  | skip _ ih => exact ih
  | close _ ih => exact (alike_close _ _).fades.trans ih
  | connect _ _ ih => exact (alike_newEndpoint _).fades.trans ih
  | shutdown _ ih => exact (fades_shutdown _).trans ih
  | broadcast halike _ ih => exact halike.fades.trans ih
  | register hopen _ _ ih ih' =>
    exact fades_of_open hopen fun hd => ih'.distinct (distinct_conclude (ih.distinct hd))

theorem Goes.fades (h : Goes given s t) : s.relay.Fades t.relay := by
  induction h with
  | refl => exact .refl _
  | quiet hq _ ih => exact hq.alike.fades.trans ih
  | leave _ ih => exact (fades_leave _ _ _).trans ih
  | given hacts _ ih | react _ hacts _ ih => exact hacts.fades.trans ih

theorem fades_run (s : Session) (cs : List Call) : s.relay.Fades (s.run cs).2.relay := by
  induction cs generalizing s with
  | nil => exact .refl _
  | cons c cs ih => exact (goes_step s c).fades.trans (ih (s.step c).2)

/-- No service shuts the relay down in an initialisation, and the relay is empty if it is closed. -/
structure Calm (s : Session) : Prop where
  reactions : ∀ service ∈ s.services, ∀ m, ∀ a ∈ service.react m, a.Prudent false
  empty : s.relay.closed = true → s.relay.clusters = []

theorem Calm.quiet (hs : Calm s) (hq : Quiet s t) : Calm t := by
  obtain ⟨⟨hclusters, hclosed⟩, hservices⟩ := hq
  refine ⟨fun service hservice => ?_, fun h => hclusters.trans (hs.empty (hclosed.symm.trans h))⟩
  obtain ⟨before, hbefore, hsame⟩ := hservices service hservice
  exact hsame ▸ hs.reactions before hbefore

theorem Calm.conclude {react : Payload → List Action} {results : List ActionResult}
    {ending : Ending} (hs : Calm s) (hopen : s.relay.closed = false)
    (hreact : ∀ m, ∀ a ∈ react m, a.Prudent false) :
    Calm (s.conclude id cluster react results ending).2 ∧
      (s.conclude id cluster react results ending).2.relay.closed = false := by
  cases ending with
  | completed =>
    have hstays : (s.relay.insertMember cluster id).closed = false :=
      closed_insertMember.trans hopen
    refine ⟨⟨fun service hservice => ?_, fun hclosed => ?_⟩, hstays⟩
    · rcases List.mem_append.1 hservice with hservice | hservice
      · exact hs.reactions service hservice
      · rw [List.mem_singleton.1 hservice]
        exact hreact
    · exact absurd (hstays.symm.trans hclosed) Bool.false_ne_true
  | _ => exact ⟨hs, hopen⟩

/-- Prudent actions leave an empty relay if they close it, and initialisations do not close it. -/
theorem Acts.calm (h : Acts as s t) (hs : Calm s) (has : ∀ a ∈ as, a.Prudent inside) :
    Calm t ∧ (inside = true → t.relay.closed = s.relay.closed) := by
  -- the initialisation of a registration is inside whether or not the registration is
  induction h generalizing inside with
  | stop => exact ⟨hs, fun _ => rfl⟩
  | skip _ ih => exact ih hs fun a ha => has a (List.mem_cons_of_mem _ ha)
  | close _ ih =>
    exact ih (hs.quiet (quiet_of_relay (alike_close _ _))) fun a ha =>
      has a (List.mem_cons_of_mem _ ha)
  | connect _ _ ih =>
    exact ih (hs.quiet (quiet_of_relay (alike_newEndpoint _))) fun a ha =>
      has a (List.mem_cons_of_mem _ ha)
  | shutdown _ ih =>
    have hrest := fun a ha => has a (List.mem_cons_of_mem _ ha)
    cases has _ List.mem_cons_self
    exact ⟨(ih ⟨hs.reactions, fun _ => rfl⟩ hrest).1, nofun⟩
  | broadcast halike _ ih =>
    obtain ⟨ht, hsame⟩ := ih (hs.quiet (quiet_of_relay halike)) fun a ha =>
      has a (List.mem_cons_of_mem _ ha)
    exact ⟨ht, fun hinside => (hsame hinside).trans halike.2⟩
  | register hopen _ _ ih ih' =>
    cases has _ List.mem_cons_self with
    | register hinit hreact =>
      obtain ⟨ht, hsame⟩ := ih (hs.quiet (quiet_of_relay (alike_newEndpoint _))) hinit
      obtain ⟨hu, hstays⟩ := ht.conclude ((hsame rfl).trans hopen) hreact
      obtain ⟨hv, hsame'⟩ := ih' hu fun a ha => has a (List.mem_cons_of_mem _ ha)
      exact ⟨hv, fun hinside => (hsame' hinside).trans (hstays.trans hopen.symm)⟩

theorem Goes.calm (h : Goes given s t) (hs : Calm s) (hgiven : ∀ a ∈ given, a.Prudent false) :
    Calm t := by
  induction h with
  | refl => exact hs
  | quiet hq _ ih => exact ih (hs.quiet hq)
  | leave _ ih =>
    refine ih ⟨hs.reactions, fun hclosed => ?_⟩
    have hnil := hs.empty hclosed
    simp [withRelay, Relay.leave, Relay.close, modifyEndpoint, Relay.sweep, removeMember,
      modifyMembers, hnil]
  | given hacts _ ih => exact ih (hacts.calm hs hgiven).1
  | react hservice hacts _ ih => exact ih (hacts.calm hs (hs.reactions _ hservice _)).1

/-- No handler that comes with the call shuts the relay down while it is initialised. -/
def Call.Prudent (c : Call) : Prop := ∀ a ∈ c.actions, a.Prudent false

theorem Calm.run (hs : Calm s) (hcs : ∀ c ∈ cs, c.Prudent) : Calm (s.run cs).2 := by
  induction cs generalizing s with
  | nil => exact hs
  | cons c cs ih =>
    have hc := (goes_step s c).calm hs (hcs c List.mem_cons_self)
    exact ih hc fun c hc => hcs c (List.mem_cons_of_mem _ hc)

theorem Calm.register {init : List Action} {react : Payload → List Action} (hs : Calm s)
    (ha : (Action.register cluster init react).Prudent inside)
    (hdone : (s.register cluster init react).2.1 = .registered id) :
    (s.register cluster init react).2.2.relay.closed = false := by
  cases ha with
  | register hinit hreact =>
    unfold Session.register at hdone ⊢
    split at hdone
    · cases hdone
    · rename_i id r hconnect
      obtain ⟨hopen, -, rfl⟩ := connect_eq_ok_iff.1 hconnect
      have hacts := acts_performAll id [] init (s.withRelay s.relay.newEndpoint)
      obtain ⟨ht, hsame⟩ := hacts.calm (hs.quiet (quiet_of_relay (alike_newEndpoint _))) hinit
      exact (ht.conclude ((hsame rfl).trans hopen) hreact).2

end Session

/-! ## Refusals -/

/-- The action looks whether the relay is open. -/
def Action.Looks (r : Relay) (own : Nat) : Action → Prop
  | .connect | .register _ _ _ => True
  | .echo _ | .send _ _ => r.isClosed own = false
  | _ => False

namespace Session

variable {s : Session} {cs : List Call} {c : Call} {a : Action} {own : Nat} {m : Payload}

/-- The call looks whether the relay is open. -/
def Call.Looks (s : Session) : Call → Prop
  | .connect | .register _ _ _ => True
  | .broadcast t _ _ => ∃ id, s.id? t = some id ∧ s.relay.isClosed id = false
  | _ => False

/-- How a closed relay answers it. -/
def Call.refusal : Call → Answer
  | .register cluster _ _ => .registration cluster (.refused .relayClosed) []
  | _ => .failed .relayClosed

theorem connect_of_closed (hclosed : r.closed = true) : r.connect = .error .relayClosed :=
  if_pos hclosed

theorem broadcast_of_closed (hclosed : r.closed = true) (hconn : r.isClosed id = false) :
    r.broadcast id cluster m = .error .relayClosed := by
  simp [Relay.broadcast, hclosed, hconn]

section
variable (hclosed : s.relay.closed = true)
include hclosed

theorem step_of_closed (hc : c.Looks s) : s.step c = (c.refusal, s) := by
  cases c with
  | connect => simp [step, connect_of_closed hclosed, Call.refusal]
  | register => simp [step, Session.register, connect_of_closed hclosed, Call.refusal]
  | broadcast =>
    obtain ⟨id, hid, hconn⟩ := hc
    simp [step, hid, broadcast_of_closed hclosed hconn, Call.refusal]
  | _ => cases hc

theorem perform_of_closed (ha : a.Looks s.relay own) :
    perform own m a s = (.ok (.failed .relayClosed), s) := by
  cases a with
  | connect | register => simp [perform, connect_of_closed hclosed]
  | echo | send => simp [perform, broadcast_of_closed hclosed ha]
  | _ => cases ha

end

/-- What it means that the relay of a session is closed. -/
structure Final (s : Session) : Prop where
  /-- It stays closed whatever is called, and nobody becomes a member. -/
  closed : s.relay.closed = true → ∀ cs, (s.run cs).2.relay.closed = true ∧
    ∀ cluster, ((s.run cs).2.relay.members cluster).Sublist (s.relay.members cluster)
  /-- Who connects, registers or broadcasts on an open connection is refused, which changes
  nothing. -/
  refused : s.relay.closed = true → ∀ c : Call, c.Looks s → s.step c = (c.refusal, s)
  /-- So are handlers that do this. -/
  actions : s.relay.closed = true → ∀ own m (a : Action), a.Looks s.relay own →
    perform own m a s = (.ok (.failed .relayClosed), s)

/-- What it means besides, if no initialisation has shut the relay down. -/
structure Emptied (s : Session) : Prop where
  empty : s.relay.closed = true → ∀ cluster, s.relay.members cluster = []
  /-- Who becomes a member does so on an open relay. -/
  registered : ∀ inside cluster init react, (Action.register cluster init react).Prudent inside →
    ∀ id, (s.register cluster init react).2.1 = .registered id →
      (s.register cluster init react).2.2.relay.closed = false

theorem final_of_run (cs : List Call) : (run {} cs).2.Final where
  closed hclosed ds := by
    have hd : (run {} cs).2.relay.Distinct := (fades_run {} cs).distinct List.nodup_nil
    have hfades := fades_run (run {} cs).2 ds
    exact ⟨hfades.closed hclosed, hfades.members hd hclosed⟩
  refused hclosed _ hc := step_of_closed hclosed hc
  actions hclosed _ _ _ ha := perform_of_closed hclosed ha

theorem Calm.emptied (hs : Calm s) : s.Emptied where
  empty hclosed cluster := by
    rw [members_eq, hs.empty hclosed]
    rfl
  registered _ _ _ _ ha _ hdone := hs.register ha hdone

end Session

/-- **A shutdown is final**: in calls one after the other, in which handlers act themselves, and in
calls and deliveries that overlap. -/
theorem shutdown_is_final (cs : List Session.Call) (t : Traffic) :
    (Session.run {} cs).2.Final ∧
      ((∀ c ∈ cs, c.Prudent) → (Session.run {} cs).2.Emptied) ∧ t.Final := by
  have hfresh : Session.Calm {} := ⟨nofun, fun _ => rfl⟩
  exact ⟨Session.final_of_run cs, fun hcs => (hfresh.run hcs).emptied, t.final⟩

/-- A service shuts the relay down when it is given a message; and a call does while a service is a
member. -/
theorem emptied_by_reaction :
    let calls : List Session.Call :=
      [.register "a" [.connect] fun _ => [.shutdown, .connect], .register "a" [.close] fun _ => [],
        .connect, .broadcast (.connection 0) "a" [1], .deliver 0]
    let s := (Session.run {} calls).2
    let t : Traffic :=
      { relay := ({} : Relay).newEndpoint.insertMember "a" 0, calls := [(1, .shutdown)] }
    (∀ c ∈ calls, c.Prudent) ∧ s.relay.closed = true ∧ s.relay.members "a" = [] ∧
      s.step (.register "b" [] fun _ => []) = (.registration "b" (.refused .relayClosed) [], s) ∧
      t.relay.members "a" = [0] ∧ ∃ u v, t.step (.advance 1) = some u ∧
        Traffic.machine.Run u [.advance 1] v ∧ v.relay.closed = true ∧
          v.relay.members "a" = [] := by
  intro calls s t
  have hcalls : ∀ c ∈ calls, c.Prudent := by
    simp only [calls, List.forall_mem_cons, Session.Call.Prudent, Session.Call.actions,
      List.not_mem_nil, false_implies, implies_true, and_true]
    refine ⟨.register ?_ fun _ => ?_, .register ?_ fun _ => ?_⟩
    · simpa using .connect
    · simpa using ⟨.shutdown, .connect⟩
    · simpa using .close
    · simp
  obtain ⟨hfinal, hemptied, htraffic⟩ := shutdown_is_final calls t
  have hclosed : s.relay.closed = true := by decide
  let u : Traffic := { relay := t.relay.markClosed, calls := [(1, .clear)] }
  let v : Traffic := { relay := u.relay.clear, calls := [(1, .over (.ok none))] }
  have hready : Traffic.machine.Ready u (.advance 1) := fun _ hb => absurd hb Bool.false_ne_true
  have hrun : Traffic.machine.Run u [.advance 1] v := .cons ⟨hready, rfl⟩ (.nil v)
  have hidle : ∀ k c, t.call? k = some c → c.registers = false := by
    intro k c hc
    rw [Traffic.call?, List.lookup_cons] at hc
    split at hc
    · cases hc
      rfl
    · cases hc
  obtain ⟨-, hnone⟩ := htraffic.empty 1 u rfl rfl hidle _ v hrun
  exact ⟨hcalls, hclosed, (hemptied hcalls).empty hclosed "a", hfinal.refused hclosed _ trivial,
    by decide, u, v, rfl, hrun, rfl, hnone (by simp [v, Traffic.call?]) "a"⟩

/-- An initialisation that shuts the relay down: the service is a member of the closed relay. -/
theorem registered_while_closing :
    let s := Session.run {} [.register "a" [.shutdown] fun _ => []]
    s.1 = [.registration "a" (.registered 0) [.done]] ∧ s.2.relay.closed = true ∧
      s.2.relay.members "a" = [0] := by
  decide

end Lockstep.Relay
