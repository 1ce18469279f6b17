import Lockstep.Proofs.Relay.History

/-!
# Calls that overlap with a shutdown

A closed relay stays closed (`Effect.closed`). A shutdown closes the relay in one step and removes the
clusters in another, and a registration looks at the relay only when it begins. So who had begun to
register when the relay was closed can still become a member of it. If nobody had, the relay is
without members for good as soon as the shutdown is over (`Shut`).
-/

set_option autoImplicit false

namespace Lockstep.Relay

/-- It is told by where the call stands that brings it about. -/
def Event.isOfCall : Event → Bool
  | .queued _ _ _ | .panicked _ _ | .leaving _ _ => false
  | _ => true

/-- It registers a service and has found the relay open. -/
def Call.registers : Call → Bool
  | .takeId (some _) | .initialise _ _ | .insert _ _ => true
  | _ => false

namespace Traffic

variable {h : History} {t u : Traffic} {k k' : Nat} {c c' : Call} {a : Label} {es : History}
  {relay : Relay} {as : List Label}

theorem Moves.closed (hm : Moves t k c a es relay c') (hclosed : t.relay.closed = true) :
    relay.closed = true := by
  cases c with
  | shutdown =>
    cases hm with
    | shutdown => rfl
    | refuse hr => cases hr
  | _ => exact (hm.closed_eq nofun).trans hclosed

/-- A closed relay stays closed. -/
theorem Effect.closed (he : Effect t a es u) (hclosed : t.relay.closed = true) :
    u.relay.closed = true := by
  cases he with
  | start | collect => exact hclosed
  | move _ hm => exact hm.closed hclosed
  | take ht => exact (alike_of_take ht).2.trans hclosed
  | finish hf => exact (alike_of_finish hf).2.trans hclosed

theorem closed_of_run (hr : machine.Run t as u) (hclosed : t.relay.closed = true) :
    u.relay.closed = true :=
  hr.invariant hclosed fun _ _ _ hclosed hn => (effect_of_step hn.2).closed hclosed

theorem Effect.events_eq (he : Effect t a es u) : es = t.events a := by
  cases he with
  | move hc hm => exact hm.events_eq hc
  | collect | take => rfl
  | start | finish => rfl

/-- An event that is told by where a call stands comes with the next step of that call. -/
theorem Effect.exists_call {e : Event} (he : Effect t a es u) (hin : e ∈ es)
    (hkind : e.isOfCall = true) : ∃ k c, t.call? k = some c ∧ e ∈ c.events k := by
  rw [he.events_eq] at hin
  cases a with
  | start k request =>
    rcases events_start t k request with hes | ⟨_, _, -, hes⟩ <;> rw [hes] at hin
    · cases hin
    · rw [List.mem_singleton.1 hin] at hkind
      cases hkind
  | advance k =>
    cases hc : t.call? k with
    | none => simp [events, hc] at hin
    | some c => exact ⟨k, c, hc, by simpa [events, hc] using hin⟩
  | enqueue k id =>
    simp only [events] at hin
    split at hin
    · rw [List.mem_singleton.1 hin] at hkind
      cases hkind
    · cases hin
  | finish id panicked =>
    rcases events_finish t id panicked with hes | ⟨_, -, -, hes⟩ <;> rw [hes] at hin
    · cases hin
    · rw [List.mem_singleton.1 hin] at hkind
      cases hkind
  | _ => cases hin

/-- Only the end of a shutdown removes the clusters. -/
theorem Effect.cleared (he : Effect t a es u) (hcleared : .cleared ∈ es) :
    ∃ k, t.call? k = some .clear := by
  obtain ⟨k, c, hc, hin⟩ := he.exists_call hcleared rfl
  cases c with
  | clear => exact ⟨k, hc⟩
  | _ => simp [Call.events] at hin

/-- The clusters are removed after the relay was closed. -/
theorem Effect.clear (he : Effect t a es u)
    (hall : ∀ k, t.call? k = some .clear → t.relay.closed = true)
    (hc : u.call? k = some .clear) : u.relay.closed = true := by
  have hturn := he.turn k
  rw [hc] at hturn
  have hclosed := he.closed
  generalize hbefore : t.call? k = before, u.relay = relay at hturn hclosed
  cases hturn with
  | @start request _ hcall => cases request <;> cases hcall
  | rest => exact hclosed (hall k hbefore)
  | move hm =>
    cases hm with
    | shutdown => rfl

end Traffic

section
variable {h : History} {t : Traffic} (hr : Recorded h t)
include hr

theorem Recorded.closed_of_clear {k : Nat} (hc : t.call? k = some .clear) :
    t.relay.closed = true := by
  refine hr.invariant (P := fun _ t => ∀ k, t.call? k = some .clear → t.relay.closed = true)
    nofun ?_ k hc
  intro h t a es u _ _ hall he k hc
  exact he.clear hall hc

theorem Recorded.closed_of_cleared (hcleared : .cleared ∈ h) : t.relay.closed = true := by
  induction hr with
  | fresh => cases hcleared
  | step hr hs ih =>
    have he := Traffic.effect_of_step hs
    refine he.closed ?_
    rcases List.mem_append.1 hcleared with hnow | hpast
    · obtain ⟨k, hc⟩ := he.cleared hnow
      exact hr.closed_of_clear hc
    · exact ih hpast

end

namespace Traffic

variable {t u v : Traffic} {k k' : Nat} {c c' : Call} {a : Label} {es : History}
  {relay : Relay} {as : List Label}

/-- The relay is closed, nobody is about to become a member, and there are no clusters, unless the
shutdown by `k` has yet to remove them. -/
structure Shut (k : Nat) (t : Traffic) : Prop where
  closed : t.relay.closed = true
  idle : ∀ k' c, t.call? k' = some c → c.registers = false
  empty : t.call? k = some .clear ∨ t.relay.clusters = []

theorem shut_of_shutdown (hc : t.call? k = some .shutdown) (hstep : t.step (.advance k) = some u)
    (hidle : ∀ k' c, t.call? k' = some c → c.registers = false) : Shut k u := by
  simp only [step, advance, hc, Option.bind_eq_bind, Option.bind_some, advanceCall] at hstep
  obtain rfl := Option.some.inj hstep
  have hcall (k') : (({ t with relay := t.relay.markClosed }).setCall k .clear).call? k' =
      if k' = k then some .clear else t.call? k' := call?_setCall hc
  refine ⟨rfl, fun k' c hc' => ?_, .inl ?_⟩
  · rw [hcall] at hc'
    split at hc'
    · cases hc'
      rfl
    · exact hidle k' c hc'
  · rw [hcall, if_pos rfl]

/-- On a closed relay nobody begins to register. -/
theorem Effect.registers (he : Effect t a es u) (hclosed : t.relay.closed = true)
    (hidle : ∀ c, t.call? k = some c → c.registers = false) (hc : u.call? k = some c) :
    c.registers = false := by
  have hturn := he.turn k
  rw [hc] at hturn
  generalize t.call? k = before, u.relay = relay at hidle hturn
  cases hturn with
  | @start request _ hcall =>
    subst hcall
    cases request <;> rfl
  | rest => exact hidle c rfl
  | move hm =>
    have hbefore := hidle _ rfl
    cases hm with
    | ask hopen =>
      rw [hclosed] at hopen
      cases hopen
    | takeId | initialise => cases hbefore
    | _ => rfl

theorem Moves.clusters_eq_nil (hm : Moves t k c a es relay c') (hc : c.registers = false)
    (hnil : t.relay.clusters = []) : relay.clusters = [] := by
  cases hm with
  | insert => cases hc
  | remove | removeLast => simp [removeMember, modifyMembers, hnil]
  | sweep => simp [Relay.sweep, hnil]
  | clear => rfl
  | _ => exact hnil

theorem Shut.empty_step (hs : Shut k t) (he : Effect t a es u) :
    u.call? k = some .clear ∨ u.relay.clusters = [] := by
  -- either the shutdown itself goes on, or nobody is left who could make a new entry
  rcases hs.empty with hc | hnil
  · have hturn := he.turn k
    rw [hc] at hturn
    generalize u.call? k = after, u.relay = relay at hturn ⊢
    cases hturn with
    | rest => exact .inl rfl
    | move hm =>
      cases hm with
      | clear => exact .inr rfl
      | refuse hr => cases hr
  · right
    cases he with
    | start | collect => exact hnil
    | move hc hm => exact hm.clusters_eq_nil (hs.idle _ _ hc) hnil
    | take ht => exact (alike_of_take ht).1.trans hnil
    | finish hf => exact (alike_of_finish hf).1.trans hnil

theorem Shut.step (hs : Shut k t) (he : Effect t a es u) : Shut k u where
  closed := he.closed hs.closed
  idle k' _ hc := he.registers hs.closed (hs.idle k') hc
  empty := hs.empty_step he

theorem Shut.of_run (hs : Shut k t) (hr : machine.Run t as u) : Shut k u :=
  hr.invariant hs fun _ _ _ hs hn => hs.step (effect_of_step hn.2)

/-- What a closed relay and a shutdown mean for the calls that overlap with it. -/
structure Final (t : Traffic) : Prop where
  closed : t.relay.closed = true → ∀ as u, machine.Run t as u → u.relay.closed = true
  /-- Who has yet to look whether the relay is open ends with an error, and changes nothing. -/
  refused : t.relay.closed = true → ∀ k c, t.call? k = some c →
    (∃ cluster, c = .ask cluster) ∨ (∃ cluster m, c = .askBroadcast cluster m) →
      t.step (.advance k) = some (t.setCall k (.over (.error .relayClosed)))
  /-- If nobody has begun to register when a shutdown closes the relay, then nobody will, and when
  the shutdown is over there are no members any more. -/
  empty : ∀ k u, t.call? k = some .shutdown → t.step (.advance k) = some u →
    (∀ k' c, t.call? k' = some c → c.registers = false) → ∀ as v, machine.Run u as v →
      (∀ k' c, v.call? k' = some c → c.registers = false) ∧
        (v.call? k ≠ some .clear → ∀ cluster, v.relay.members cluster = [])

theorem final (t : Traffic) : t.Final where
  closed hclosed _ _ hr := closed_of_run hr hclosed
  refused hclosed k c hc hlooks := by
    rcases hlooks with ⟨cluster, rfl⟩ | ⟨cluster, m, rfl⟩
    · exact (Moves.refuse (.ask hclosed)).step_eq hc
    · exact (Moves.refuse (.askBroadcast hclosed)).step_eq hc
  empty k u hc hstep hidle as v hr := by
    have hshut := (shut_of_shutdown hc hstep hidle).of_run hr
    refine ⟨hshut.idle, fun hover cluster => ?_⟩
    have hnil := hshut.empty.resolve_left hover
    rw [members_eq, hnil]
    rfl

end Traffic

end Lockstep.Relay
