import Lockstep.Proofs.Relay.Order

/-!
# What becomes of the messages of a service

`Record` is what the endpoint of a service says about its history: its handler has been given what
has arrived, in that order, but for what is still in its queue; or it panicked on the last message it
was given.

A service that leaves its cluster is not sent anything any more (`Gone`). So when the wait of an
unregistration is over, all messages that were ever sent to the service have been handled
(`Recorded.settled`).
-/

set_option autoImplicit false

namespace Lockstep.Relay

namespace Traffic

/-- What a step does to the endpoint `id`. -/
inductive Serves (t : Traffic) (id : Nat) : History → Option Endpoint → Endpoint → Prop
  | new : id = t.relay.nextId → Serves t id [] none {}
  | queue {k m e} : e.dead = false →
      Serves t id [.queued k id m] (some e) { e with queue := e.queue.push m }
  /-- The handler is gone, and the message is lost. -/
  | lose {k m e} : e.dead = true → Serves t id [.queued k id m] (some e) e
  | take {e m queue} : e.busy = false → e.dead = false → e.queue.pop? = some (m, queue) →
      Serves t id [] (some e) { e with queue, handled := e.handled.push m, busy := true }
  | finish {e} : e.busy = true → Serves t id [] (some e) { e with busy := false, dead := false }
  | panic {e} : e.busy = true → Serves t id (e.handled.toList.getLast?.toList.map (.panicked id))
      (some e) { e with queue := {}, busy := false, dead := true }
  | rest {es e closed} : (∀ k m, .queued k id m ∉ es) → (∀ m, .panicked id m ∉ es) →
      Serves t id es (some e) { e with closed }

end Traffic

variable {h es : History} {t u : Traffic} {k id : Nat} {a : Traffic.Label} {cluster : String}
  {m : Payload} {e e' : Endpoint} {before : Option Endpoint}

/-! ## One endpoint -/

namespace Traffic

theorem serves_set {i : Nat} {r : Relay} {e₀ e₁ : Endpoint}
    (he : t.relay.endpoints[i]? = some e₀)
    (hu : r.endpoints = t.relay.endpoints.set i e₁) (he' : r.endpoints[id]? = some e')
    (hserves : i = id → Serves t id es (some e₀) e₁)
    (hrest : i ≠ id → (∀ k m, .queued k id m ∉ es) ∧ ∀ m, .panicked id m ∉ es) :
    Serves t id es (t.relay.endpoints[id]?) e' := by
  have hlt := (List.getElem?_eq_some_iff.1 he).1
  rw [hu] at he'
  by_cases hid : i = id
  · subst hid
    rw [List.getElem?_set_self hlt, Option.some.injEq] at he'
    subst he'
    rw [he]
    exact hserves rfl
  · rw [List.getElem?_set_ne hid] at he'
    rw [he']
    exact .rest (hrest hid).1 (hrest hid).2

theorem serves_new (he' : t.relay.newEndpoint.endpoints[id]? = some e') :
    Serves t id [] (t.relay.endpoints[id]?) e' := by
  rw [endpoint_newEndpoint] at he'
  split at he'
  · rename_i heq
    cases he'
    rw [List.getElem?_eq_none (Nat.le_of_eq heq.symm)]
    exact .new heq
  · rw [he']
    exact .rest (by simp) (by simp)

theorem serves_close {i : Nat} (he' : (t.relay.close i).endpoints[id]? = some e') :
    Serves t id [] (t.relay.endpoints[id]?) e' := by
  rw [Relay.close, endpoint_modifyEndpoint] at he'
  split at he'
  · obtain ⟨e, he, rfl⟩ := Option.map_eq_some_iff.1 he'
    rw [he]
    exact .rest (by simp) (by simp)
  · rw [he']
    exact .rest (by simp) (by simp)

theorem serves_enqueue {i : Nat} (he' : (t.relay.enqueue m i).endpoints[id]? = some e') :
    Serves t id [.queued k i m] (t.relay.endpoints[id]?) e' := by
  rw [Relay.enqueue, endpoint_modifyEndpoint] at he'
  split at he'
  · rename_i heq
    subst heq
    obtain ⟨e, he, rfl⟩ := Option.map_eq_some_iff.1 he'
    rw [he]
    split
    · rename_i hd
      exact .lose hd
    · rename_i hd
      exact .queue (Bool.eq_false_iff.2 hd)
  · rename_i hne
    rw [he']
    exact .rest (by simp [Ne.symm hne]) (by simp)

theorem Moves.serves {c c' : Call} {relay : Relay} (hm : Moves t k c a es relay c')
    (he' : relay.endpoints[id]? = some e') : Serves t id es (t.relay.endpoints[id]?) e' := by
  cases hm with
  | connect | takeId => exact serves_new he'
  | enqueue => exact serves_enqueue he'
  | close | hangUp => exact serves_close he'
  | insert =>
    rw [endpoints_insertMember] at he'
    rw [he']
    exact .rest (by simp) (by simp)
  | _ =>
    rw [show t.relay.endpoints[id]? = some e' from he']
    exact .rest (by simp) (by simp)

theorem Effect.serves (he : Effect t a es u) (he' : u.relay.endpoints[id]? = some e') :
    Serves t id es (t.relay.endpoints[id]?) e' := by
  cases he with
  | @start k request =>
    rw [start_relay] at he'
    rw [he']
    rcases events_start t k request with hes | ⟨_, _, -, hes⟩ <;> rw [hes] <;>
      exact .rest (by simp) (by simp)
  | move _ hm => exact hm.serves he'
  | collect =>
    rw [dropCall_relay] at he'
    rw [he']
    exact .rest (by simp) (by simp)
  | @take i m relay ht =>
    obtain ⟨e, queue, he, hbusy, hdead, hpop, rfl⟩ := take_eq_some_iff.1 ht
    exact serves_set he rfl he' (fun _ => .take hbusy hdead hpop) fun _ => ⟨by simp, by simp⟩
  | @finish i panicked relay hf =>
    obtain ⟨e, he, hbusy, rfl⟩ := finish_eq_some_iff.1 hf
    refine serves_set he rfl he' ?_ ?_
    · rintro rfl
      cases panicked with
      | false => exact .finish hbusy
      | true =>
        have hlast : t.relay.lastHandled i = e.handled.toList.getLast? := by simp [lastHandled, he]
        simp only [events, hlast]
        exact .panic hbusy
    · intro hne
      rcases events_finish t i panicked with hes | ⟨_, -, -, hes⟩ <;> rw [hes] <;> simp [Ne.symm hne]

end Traffic

/-! ## What has been handled -/

/-- What the endpoint of a service says about its history. -/
structure Record (h : History) (id : Nat) (e : Endpoint) : Prop where
  alive : e.dead = false → e.handled.toList ++ e.queue.toList = (h.arrived id).map (·.2) ∧
    ∀ m, .panicked id m ∉ h
  busy : e.busy = true → e.dead = false ∧ e.handled.toList ≠ []
  /-- It panicked on the last message that its handler was given. -/
  dead : e.dead = true → e.queue.toList = [] ∧
    e.handled.toList <+: (h.arrived id).map (·.2) ∧
      ∃ m, e.handled.toList.getLast? = some m ∧ ∀ m', .panicked id m' ∈ h ↔ m' = m

/-- Nothing has come to numbers that were not given out. -/
def Unborn (h : History) (t : Traffic) : Prop :=
  ∀ id, t.relay.nextId ≤ id → (∀ k m, .queued k id m ∉ h) ∧ ∀ m, .panicked id m ∉ h

theorem Record.step (hs : t.Serves id es before e') (hunborn : Unborn h t)
    (hrecord : ∀ e, before = some e → Record h id e) : Record (es ++ h) id e' := by
  cases hs with
  | new hid =>
    obtain ⟨hqueued, hpanicked⟩ := hunborn id (Nat.le_of_eq hid.symm)
    have harrived := History.arrived_append_of_not_queued (h := []) hqueued
    rw [List.append_nil] at harrived
    exact ⟨fun _ => ⟨by simp [harrived], hpanicked⟩, nofun, nofun⟩
  | @queue k m e hd =>
    obtain ⟨halive, hbusy, -⟩ := hrecord e rfl
    obtain ⟨hall, hnot⟩ := halive hd
    refine ⟨fun _ => ⟨?_, by simpa using hnot⟩, hbusy, fun h => ?_⟩
    · simp [← hall]
    · simp [hd] at h
  | @lose k m _ hd =>
    obtain ⟨-, hbusy, hdead⟩ := hrecord e' rfl
    obtain ⟨hnil, hprefix, hlast⟩ := hdead hd
    refine ⟨fun h => ?_, hbusy, fun _ => ⟨hnil, ?_, by simpa using hlast⟩⟩
    · simp [hd] at h
    · simp only [List.singleton_append, History.arrived, if_true, List.map_append]
      exact hprefix.trans (List.prefix_append _ _)
  | @take e m queue hb hd hpop =>
    obtain ⟨halive, -, -⟩ := hrecord e rfl
    obtain ⟨hall, hnot⟩ := halive hd
    refine ⟨fun _ => ⟨?_, hnot⟩, fun _ => ⟨hd, by simp⟩, fun h => ?_⟩
    · rw [Queue.toList_eq_of_pop? hpop] at hall
      simpa using hall
    · simp [hd] at h
  | @finish e hb =>
    obtain ⟨halive, hbusy, -⟩ := hrecord e rfl
    obtain ⟨hd, -⟩ := hbusy hb
    exact ⟨fun _ => halive hd, nofun, nofun⟩
  | @panic e hb =>
    obtain ⟨halive, hbusy, -⟩ := hrecord e rfl
    obtain ⟨hd, hne⟩ := hbusy hb
    obtain ⟨hall, hnot⟩ := halive hd
    -- the message that it was at work on is the last that it was given
    have hm := List.getLast?_eq_some_getLast hne
    refine ⟨nofun, nofun, fun _ => ⟨rfl, ?_, _, hm, fun m' => ?_⟩⟩
    · simp only [hm, Option.toList_some, List.map_singleton, List.singleton_append,
        History.arrived, ← hall]
      exact List.prefix_append _ _
    · simp [hm, hnot]
  | @rest es e closed hqueued hpanicked =>
    obtain ⟨halive, hbusy, hdead⟩ := hrecord e rfl
    have harrived := History.arrived_append_of_not_queued (h := h) hqueued
    have hsame (m) : Event.panicked id m ∈ es ++ h ↔ .panicked id m ∈ h := by simp [hpanicked m]
    refine ⟨fun hd => ?_, hbusy, fun hd => ?_⟩
    · simpa [harrived, hsame] using halive hd
    · simpa [harrived, hsame] using hdead hd

theorem Traffic.Effect.queued (he : t.Effect a es u) (hl : Ledger h t)
    (hq : .queued k id m ∈ es) : ∃ cluster, id ∈ h.roster cluster := by
  cases he.carries with
  | lock | unlock => simp at hq
  | enqueue hc hi =>
    simp only [List.mem_singleton, Event.queued.injEq] at hq
    obtain ⟨-, rfl, -⟩ := hq
    exact ⟨_, (hl.walk hc).2 _ hi⟩
  | other _ hno => exact absurd hq (hno k id m)

theorem Traffic.Effect.panicked (he : t.Effect a es u) (hp : .panicked id m ∈ es) :
    id < t.relay.nextId := by
  cases he with
  | @start k request =>
    rcases events_start t k request with hes | ⟨_, _, -, hes⟩ <;> rw [hes] at hp <;> simp at hp
  | move _ hm => cases hm <;> simp at hp
  | collect | take => simp at hp
  | @finish i panicked =>
    rcases events_finish t i panicked with hes | ⟨m', -, hlast, hes⟩
    · rw [hes] at hp
      cases hp
    · rw [hes, List.mem_singleton, Event.panicked.injEq] at hp
      obtain ⟨rfl, rfl⟩ := hp
      obtain ⟨e, he, -⟩ := Option.bind_eq_some_iff.1 hlast
      exact (List.getElem?_eq_some_iff.1 he).1

theorem Unborn.step (hl : Ledger h t) (he : t.Effect a es u) (hunborn : Unborn h t) :
    Unborn (es ++ h) u := by
  intro id hle
  have hle := Nat.le_trans he.nextId_le hle
  obtain ⟨hqueued, hpanicked⟩ := hunborn id hle
  refine ⟨fun k m hm => ?_, fun m hm => ?_⟩
  · rcases List.mem_append.1 hm with hm | hm
    · obtain ⟨cluster, hroster⟩ := he.queued hl hm
      have hlt := (hl.inserted (History.inserted_of_mem_roster hroster)).1
      omega
    · exact hqueued k m hm
  · rcases List.mem_append.1 hm with hm | hm
    · have hlt := he.panicked hm
      omega
    · exact hpanicked m hm

/-- **The handler of a service is given what has arrived, in that order.** -/
theorem Recorded.unborn (hr : Recorded h t) : Unborn h t :=
  hr.invariant (fun _ _ => ⟨nofun, nofun⟩) fun hl _ hunborn he => hunborn.step hl he

theorem Recorded.record (hr : Recorded h t) (he : t.relay.endpoints[id]? = some e) :
    Record h id e := by
  induction hr generalizing e with
  | fresh => cases he
  | step hr hs ih => exact .step ((Traffic.effect_of_step hs).serves he) hr.unborn fun _ => ih

/-! ## Leaving -/

/-- The service was a member of the cluster, and will never be one again. -/
def Gone (cluster : String) (id : Nat) (h : History) : Prop :=
  .inserted cluster id ∈ h ∧ id ∉ h.roster cluster

theorem Gone.step (hl : Ledger h t) (he : t.Effect a es u) (hgone : Gone cluster id h) :
    Gone cluster id (es ++ h) := by
  obtain ⟨hin, hnot⟩ := hgone
  refine ⟨List.mem_append_right _ hin, fun hm => ?_⟩
  rcases History.mem_roster_append hm with hm | hm
  · exact hnot hm
  · obtain ⟨k, -, hc, -⟩ := he.inserted hm
    exact (hl.number hc rfl).2.1 cluster hin

/-- Who is removed is gone. -/
theorem gone_of_removed (hin : .inserted cluster id ∈ h) : Gone cluster id (.removed cluster id :: h) := by
  refine ⟨List.mem_cons_of_mem _ hin, ?_⟩
  simp [(History.nodup_roster cluster h).not_mem_erase]

/-- What a call that unregisters a service has done so far. -/
def Call.Parts (h : History) : Call → Prop
  | .remove cluster id => .inserted cluster id ∈ h
  | .sweep cluster id => Gone cluster id h
  | .hangUp id | .join id => ∃ cluster, Gone cluster id h
  | _ => True

/-- A service that has left its cluster has nothing left for its handler. -/
def Settled (h : History) (t : Traffic) (id : Nat) : Prop :=
  ∃ cluster, Gone cluster id h ∧ ∀ e, t.relay.endpoints[id]? = some e →
    e.dead = true ∨ (e.queue.toList = [] ∧ e.busy = false)

theorem History.owned_of_append (ho : Owned (es ++ h)) : Owned h := by
  induction es with
  | nil => exact ho
  | cons e es ih =>
    cases e with
    | leaving => exact ih ho.2
    | _ => exact ih ho

theorem Call.Parts.step {c : Call} (hl : Ledger h t) (he : t.Effect a es u) (hp : c.Parts h) :
    c.Parts (es ++ h) := by
  cases c with
  | remove => exact List.mem_append_right _ hp
  | sweep => exact Gone.step hl he hp
  | hangUp | join =>
    obtain ⟨cluster, hgone⟩ := hp
    exact ⟨cluster, hgone.step hl he⟩
  | _ => trivial

theorem parts_step {c : Call} (hl : Ledger h t) (he : t.Effect a es u)
    (howned : History.Owned (es ++ h)) (hall : ∀ c, t.call? k = some c → c.Parts h)
    (hc : u.call? k = some c) : c.Parts (es ++ h) := by
  have hturn := he.turn k
  rw [hc] at hturn
  generalize t.call? k = before, u.relay = relay at hall hturn
  cases hturn with
  | @start request _ hcall =>
    subst hcall
    cases request with
    | unregister => exact List.mem_append_right _ howned.1
    | _ => trivial
  | rest => exact (hall c rfl).step hl he
  | move hm =>
    have hp := hall _ rfl
    cases hm with
    | removeLast => exact gone_of_removed hp
    | remove => exact ⟨_, gone_of_removed hp⟩
    | sweep => exact ⟨_, hp⟩
    | hangUp => exact hp
    | _ => trivial

theorem Recorded.parts {c : Call} (hr : Recorded h t) (howned : h.Owned)
    (hc : t.call? k = some c) : c.Parts h := by
  induction hr generalizing c with
  | fresh => cases hc
  | step hr hs ih =>
    have hbefore := History.owned_of_append howned
    exact parts_step hr.ledger (Traffic.effect_of_step hs) howned (fun _ hc => ih hbefore hc) hc

theorem Settled.step (hr : Recorded h t) (he : t.Effect a es u) (hs : Settled h t id) :
    Settled (es ++ h) u id := by
  have hl := hr.ledger
  obtain ⟨cluster, hgone, hidle⟩ := hs
  refine ⟨cluster, hgone.step hl he, fun e' he' => ?_⟩
  have hserves := he.serves he'
  generalize hbefore : t.relay.endpoints[id]? = before at hserves
  cases hserves with
  | new heq =>
    have hlt := (hl.inserted hgone.1).1
    exact absurd hlt (heq ▸ Nat.lt_irrefl _)
  | queue | lose =>
    -- nothing comes to who is in no cluster
    obtain ⟨other, hm⟩ := he.queued hl List.mem_cons_self
    have hin := History.inserted_of_mem_roster hm
    obtain rfl := (hl.inserted hgone.1).2 other hin
    exact absurd hm hgone.2
  | take hbusy hdead hpop =>
    rcases hidle _ hbefore with hd | ⟨hnil, -⟩
    · rw [hdead] at hd
      cases hd
    · rw [Queue.toList_eq_of_pop? hpop] at hnil
      cases hnil
  | finish hbusy =>
    have halive := ((hr.record hbefore).busy hbusy).1
    rcases hidle _ hbefore with hd | ⟨-, hb⟩
    · rw [halive] at hd
      cases hd
    · rw [hbusy] at hb
      cases hb
  | panic => exact .inl rfl
  | rest =>
    have hsame := hidle _ hbefore
    exact hsame

theorem Traffic.Effect.left (he : t.Effect a es u) (hleft : .left id ∈ es) :
    ∃ k, t.call? k = some (.join id) ∧ t.relay.isDrained id = true ∧ u.relay = t.relay := by
  cases he with
  | @start k request =>
    rcases events_start t k request with hes | ⟨_, _, -, hes⟩ <;> rw [hes] at hleft <;>
      simp at hleft
  | move hc hm =>
    cases hm with
    | join hdrained =>
      simp only [List.mem_singleton, Event.left.injEq] at hleft
      subst hleft
      exact ⟨_, hc, hdrained, rfl⟩
    | _ => simp at hleft
  | collect | take => simp at hleft
  | @finish i panicked =>
    rcases events_finish t i panicked with hes | ⟨m', -, -, hes⟩ <;> rw [hes] at hleft <;>
      simp at hleft

/-- **When the wait of an unregistration is over, nothing is left for the handler of the service, and
nothing comes to it any more.** -/
theorem Recorded.settled (hr : Recorded h t) (howned : h.Owned) (hleft : .left id ∈ h) :
    Settled h t id := by
  induction hr with
  | fresh => cases hleft
  | @step h t a u hr hs ih =>
    have hbefore := History.owned_of_append howned
    have hl := hr.ledger
    have he := Traffic.effect_of_step hs
    rcases List.mem_append.1 hleft with hleft | hleft
    · obtain ⟨k, hc, hdrained, hrelay⟩ := he.left hleft
      obtain ⟨cluster, hgone⟩ := hr.parts hbefore hc
      refine ⟨cluster, hgone.step hl he, fun e hendpoint => ?_⟩
      rw [hrelay] at hendpoint
      exact (isDrained_iff hendpoint).1 hdrained
    · exact (ih hbefore hleft).step hr he

end Lockstep.Relay
