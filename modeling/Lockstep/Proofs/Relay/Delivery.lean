import Lockstep.Proofs.Relay.Handling

/-!
# Exact delivery

A service is sent the messages of those broadcasts to its cluster that begin to go through the members
while it is one of them (`History.sent`): none before its insertion, and none after its removal, be it
by an unregistration or by a shutdown. `Delivered` says what has become of them. `exact_delivery` says
that this holds at any time, in whatever order the calls of all callers and the deliveries take their
steps.
-/

set_option autoImplicit false

namespace Lockstep.Relay

/-- What has become of the messages that were sent to the service `id` of the cluster. -/
structure Delivered (cluster : String) (id : Nat) (h : History) (t : Traffic) (e : Endpoint) :
    Prop where
  members : t.relay.members cluster = h.roster cluster
  /-- The messages of each caller arrive once and in their order; the last may be on its way. -/
  order : ∀ k, (h.arrived id).filter (·.1 == k) ++ t.awaited cluster id k =
    (h.sent cluster id).filter (·.1 == k)
  /-- Where no broadcast is going through the cluster, all have arrived. -/
  complete : t.isLocked cluster = false → (h.arrived id).Perm (h.sent cluster id)
  /-- If broadcasts do not overlap, all messages arrive in the order of the broadcasts. -/
  sequential : h.Sequential cluster → h.arrived id <+: h.sent cluster id
  /-- What has arrived is handled in that order, as long as the handler does not panic. -/
  handled : (∀ m, .panicked id m ∉ h) →
    e.handled.toList ++ e.queue.toList = (h.arrived id).map (·.2)
  /-- Where nothing is left to be done for the handler, all of it has been handled. -/
  idle : (∀ m, .panicked id m ∉ h) → t.step (.take id) = none →
    t.step (.finish id false) = none → e.handled.toList = (h.arrived id).map (·.2)
  /-- When an unregistration has waited for the handler, all that was ever sent has been handled. -/
  left : h.Owned → .left id ∈ h → (∀ m, .panicked id m ∉ h) →
    e.handled.toList = (h.arrived id).map (·.2) ∧ (h.arrived id).Perm (h.sent cluster id)
  /-- The message that the handler panicked on is the last it is ever given, it had been given all
  that came before, and nobody waits for it. -/
  panicked : ∀ m, .panicked id m ∈ h →
    e.handled.toList.getLast? = some m ∧ e.handled.toList <+: (h.arrived id).map (·.2) ∧
      (∀ a u e', t.step a = some u → u.relay.endpoints[id]? = some e' → e'.handled = e.handled) ∧
      ∀ k, t.call? k = some (.join id) → ∃ u, t.step (.advance k) = some u

variable {h : History} {t u : Traffic} {k id : Nat} {a : Traffic.Label} {cluster : String}
  {e e' : Endpoint}

/-! ## Before the insertion -/

theorem History.sent_eq_nil (hno : .inserted cluster id ∉ h) : h.sent cluster id = [] := by
  induction h with
  | nil => rfl
  | cons e h ih =>
    have hno' := mt (List.mem_cons_of_mem e) hno
    cases e with
    | began k c m =>
      simp only [sent, ih hno', List.nil_append, ite_eq_right_iff, and_imp]
      rintro - hm
      exact absurd (inserted_of_mem_roster hm) hno'
    | _ => exact ih hno'

theorem Recorded.arrived_eq_nil (hr : Recorded h t) (hno : ∀ cluster, .inserted cluster id ∉ h) :
    h.arrived id = [] := by
  induction hr with
  | fresh => rfl
  | step hr hs ih =>
    have hno' (cluster) := mt (List.mem_append_right _) (hno cluster)
    rw [History.arrived_append_of_not_queued, ih hno']
    intro k m hq
    obtain ⟨cluster, hm⟩ := (Traffic.effect_of_step hs).queued hr.ledger hq
    exact hno' cluster (History.inserted_of_mem_roster hm)

/-! ## After it -/

theorem perm_of_filter_eq {l l' : List (Nat × Payload)}
    (hall : ∀ k, l.filter (·.1 == k) = l'.filter (·.1 == k)) : l.Perm l' := by
  refine List.perm_iff_count.2 fun x => ?_
  have hcount (l : List (Nat × Payload)) : (l.filter (·.1 == x.1)).count x = l.count x :=
    List.count_filter (by simp)
  rw [← hcount l, hall, hcount]

theorem awaited_eq_nil (hno : ∀ m left, t.call? k = some (.walk cluster m left) → id ∉ left) :
    t.awaited cluster id k = [] := by
  rw [Traffic.awaited]
  cases hc : t.call? k with
  | none => rfl
  | some c =>
    cases c with
    | walk other m left =>
      simp only [Option.map_some, Option.getD_some, Call.awaited, ite_eq_right_iff, and_imp]
      rintro rfl hm
      exact absurd hm (hno m left hc)
    | _ => rfl

section
variable (hr : Recorded h t) (hin : .inserted cluster id ∈ h)
include hr hin

theorem Recorded.perm_of_awaited (hnone : ∀ k, t.awaited cluster id k = []) :
    (h.arrived id).Perm (h.sent cluster id) := by
  refine perm_of_filter_eq fun k => ?_
  have horder := hr.inOrder hin k
  rwa [InOrder, hnone, List.append_nil] at horder

theorem Recorded.exists_endpoint : ∃ e, t.relay.endpoints[id]? = some e :=
  ⟨_, List.getElem?_eq_getElem (hr.ledger.inserted hin).1⟩

variable (he : t.relay.endpoints[id]? = some e)
include he

omit hin in
theorem Recorded.alive (hno : ∀ m, .panicked id m ∉ h) : e.dead = false := by
  rw [Bool.eq_false_iff]
  intro hd
  obtain ⟨-, -, m, -, hpanicked⟩ := (hr.record he).dead hd
  exact hno m ((hpanicked m).2 rfl)

omit hin in
theorem Recorded.dead {m : Payload} (hm : .panicked id m ∈ h) : e.dead = true := by
  by_contra hd
  exact ((hr.record he).alive (Bool.eq_false_iff.2 hd)).2 m hm

omit hr hin in
/-- A handler that has panicked is given nothing more. -/
theorem handled_of_dead (hd : e.dead = true) (hs : t.step a = some u)
    (he' : u.relay.endpoints[id]? = some e') : e'.handled = e.handled := by
  have hserves := (Traffic.effect_of_step hs).serves he'
  rw [he] at hserves
  generalize t.events a = es at hserves
  cases hserves with
  | take _ halive =>
    rw [hd] at halive
    cases halive
  | _ => rfl

omit hr hin in
/-- Where the handler cannot be given a message and is at work on none, there is none. -/
theorem queue_eq_nil_of_idle (halive : e.dead = false) (htake : t.step (.take id) = none)
    (hfinish : t.step (.finish id false) = none) : e.queue.toList = [] := by
  have hbusy : e.busy = false := by
    rw [Bool.eq_false_iff]
    intro hb
    obtain ⟨relay, hs⟩ : ∃ relay, t.relay.finish id false = some relay :=
      ⟨_, finish_eq_some_iff.2 ⟨e, he, hb, rfl⟩⟩
    rw [Traffic.step, hs] at hfinish
    cases hfinish
  rw [← Queue.pop?_eq_none_iff, Option.eq_none_iff_forall_ne_some]
  rintro ⟨m, queue⟩ hpop
  obtain ⟨relay, hs⟩ : ∃ relay, t.relay.take id = some (m, relay) :=
    ⟨_, take_eq_some_iff.2 ⟨e, queue, he, hbusy, halive, hpop, rfl⟩⟩
  rw [Traffic.step, hs] at htake
  cases htake

theorem Recorded.delivered : Delivered cluster id h t e where
  members := hr.ledger.members cluster
  order := hr.inOrder hin
  complete hlocked := hr.perm_of_awaited hin fun k => awaited_eq_nil fun m left hc =>
    absurd hc (Traffic.not_walk_of_not_isLocked hlocked)
  sequential := hr.arrived_prefix hin
  handled hno := ((hr.record he).alive (hr.alive he hno)).1
  idle hno htake hfinish := by
    have halive := hr.alive he hno
    have hall := ((hr.record he).alive halive).1
    rwa [queue_eq_nil_of_idle he halive htake hfinish, List.append_nil] at hall
  left howned hleft hno := by
    have halive := hr.alive he hno
    have hall := ((hr.record he).alive halive).1
    obtain ⟨other, hgone, hidle⟩ := hr.settled howned hleft
    obtain rfl := (hr.ledger.inserted hin).2 other hgone.1
    refine ⟨?_, hr.perm_of_awaited hin fun k => awaited_eq_nil fun m left hc hm =>
      hgone.2 ((hr.ledger.walk hc).2 id hm)⟩
    rcases hidle e he with hd | ⟨hnil, -⟩
    · rw [halive] at hd
      cases hd
    · rwa [hnil, List.append_nil] at hall
  panicked m hm := by
    have hd := hr.dead he hm
    obtain ⟨-, hprefix, m', hlast, hpanicked⟩ := (hr.record he).dead hd
    obtain rfl := (hpanicked m).1 hm
    refine ⟨hlast, hprefix, fun a u e' hs he' => handled_of_dead he hd hs he', fun k hc => ?_⟩
    have hdrained : t.relay.isDrained id = true := (isDrained_iff he).2 (.inl hd)
    exact Option.isSome_iff_exists.1
      (by simp [Traffic.step, Traffic.advance, hc, Traffic.advanceCall, hdrained])

end

/-- **Exact delivery.** Nothing is sent to a service before it is inserted, not even by its own
initialisation; what becomes of that which is sent after it is told by `Delivered`. -/
theorem exact_delivery (hr : Recorded h t) (cluster : String) (id : Nat) :
    (∀ k, t.call? k = some (.insert cluster id) →
      h.arrived id = [] ∧ ∀ other, h.sent other id = []) ∧
    (.inserted cluster id ∈ h →
      ∃ e, t.relay.endpoints[id]? = some e ∧ Delivered cluster id h t e) := by
  refine ⟨fun k hc => ?_, fun hin => ?_⟩
  · obtain ⟨-, hno, -⟩ := hr.ledger.number hc rfl
    exact ⟨hr.arrived_eq_nil hno, fun other => History.sent_eq_nil (hno other)⟩
  · obtain ⟨e, he⟩ := hr.exists_endpoint hin
    exact ⟨e, he, hr.delivered hin he⟩

/-- The history and the traffic after the steps of these labels. -/
def follow (q : History × Traffic) (as : List Traffic.Label) : Option (History × Traffic) :=
  as.foldlM (fun q a => (q.2.step a).map fun u => (q.2.events a ++ q.1, u)) q

theorem Recorded.follow {as : List Traffic.Label} {q : History × Traffic} (hr : Recorded h t)
    (has : follow (h, t) as = some q) : Recorded q.1 q.2 := by
  induction as generalizing h t with
  | nil =>
    cases has
    exact hr
  | cons a as ih =>
    rw [Relay.follow, List.foldlM_cons] at has
    obtain ⟨p, hp, has⟩ := Option.bind_eq_some_iff.1 has
    obtain ⟨u, hu, rfl⟩ := Option.map_eq_some_iff.1 hp
    exact ih (hr.step hu) has

/-- A service broadcasts while it is being initialised and again when it is a member, and
unregisters. -/
theorem second_delivered :
    let first : Payload := [1]
    let second : Payload := [2]
    let labels : List Traffic.Label :=
      [.start 0 (.register "c"), .advance 0, .advance 0] ++
        [.start 1 (.broadcast 0 "c" first), .advance 1, .advance 1, .advance 1, .advance 1,
          .collect 1] ++
        [.initialised 0 none, .advance 0, .collect 0] ++
        [.start 0 (.broadcast 0 "c" second), .advance 0, .advance 0, .advance 0, .enqueue 0 0,
          .advance 0, .collect 0] ++
        [.take 0, .finish 0 false] ++
        [.start 0 (.unregister "c" 0), .advance 0, .advance 0, .advance 0, .advance 0]
    ∃ h t e, follow ([], {}) labels = some (h, t) ∧ Recorded h t ∧
      t.relay.endpoints[0]? = some e ∧ e.handled.toList = [second] := by
  intro first second labels
  have hhistory : (follow ([], {}) labels).map (·.1) = some [.left 0, .removed "c" 0,
      .leaving "c" 0, .ended 0 "c", .queued 0 0 second, .began 0 "c" second, .inserted "c" 0,
      .ended 1 "c", .began 1 "c" first] := by
    decide +kernel
  obtain ⟨⟨h, t⟩, hrun, hh⟩ := Option.map_eq_some_iff.1 hhistory
  obtain rfl : h = _ := hh
  have hr := Recorded.fresh.follow hrun
  obtain ⟨e, he, hd⟩ := (exact_delivery hr "c" 0).2 (by simp)
  exact ⟨_, t, e, hrun, hr, he, (hd.left (by simp) (by simp) (by simp)).1⟩

end Lockstep.Relay
