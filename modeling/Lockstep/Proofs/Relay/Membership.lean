import Lockstep.Proofs.Relay.Closing
import Lockstep.Proofs.Relay.Delivery

/-!
# Who is a member

A service is removed from its cluster in two steps: it leaves the members, and then the entry of the
cluster is dropped if nobody is left in it. Between the two others may register with the cluster or be
removed from it.

The members are nevertheless always those who were registered and whose own removal has not happened
(`Recorded.roster_eq`). No number is handed out twice (`range_numbers`), so nobody takes the place of
another; and an entry without members always has a call that is about to drop it
(`Recorded.vacant`). `members_accounted` puts this together.
-/

set_option autoImplicit false

namespace Lockstep.Relay

namespace History

/-- The services that were registered with the cluster, in that order. -/
@[simp] def registered (cluster : String) : History → List Nat
  | [] => []
  | .inserted c id :: h => registered cluster h ++ if c = cluster then [id] else []
  | _ :: h => registered cluster h

/-- Those of them whose removal has not happened. -/
def staying (cluster : String) (h : History) : List Nat :=
  (h.registered cluster).filter fun id => .removed cluster id ∉ h

end History

/-- The number that a call makes a connection or a service with, when it goes from one place to the
other. -/
def Call.handed? : Call → Call → Option Nat
  | .takeId none, .over (.ok (some id)) => some id
  | .takeId (some _), .initialise _ id => some id
  | _, _ => none

namespace Traffic

/-- The number that is handed out in the step to `u`. -/
def handed? (t : Traffic) (a : Label) (u : Traffic) : Option Nat := do
  let k ← a.caller?
  (← t.call? k).handed? (← u.call? k)

/-- All numbers that are handed out in the steps of these labels. -/
def numbers (t : Traffic) : List Label → List Nat
  | [] => []
  | a :: as =>
    match t.step a with
    | some u => (t.handed? a u).toList ++ numbers u as
    | none => []

end Traffic

variable {h : History} {t u : Traffic} {k id : Nat} {c c' : Call} {a : Traffic.Label}
  {as : List Traffic.Label} {es : History} {relay : Relay} {cluster other : String}

/-! ## Numbers -/

namespace Traffic

theorem Moves.range_nextId (hm : Moves t k c a es relay c') :
    List.range relay.nextId = List.range t.relay.nextId ++ (c.handed? c').toList := by
  rw [hm.nextId_eq]
  cases hm with
  | connect | takeId => exact List.range_succ
  | refuse hr => cases hr <;> exact (List.append_nil _).symm
  | _ => exact (List.append_nil _).symm

theorem Effect.range_nextId (he : Effect t a es u) :
    List.range u.relay.nextId = List.range t.relay.nextId ++ (t.handed? a u).toList := by
  cases he with
  | start hc => simp [handed?, hc, Label.caller?]
  | @move k c a es relay c' hc hm =>
    have hafter : (({ t with relay }).setCall k c').call? k = some c' := by
      rw [call?_setCall (by exact hc), if_pos rfl]
    simpa [handed?, hm.caller?, hc, hafter] using hm.range_nextId
  | collect hc => simp [handed?, hc, Label.caller?, call?_dropCall]
  | take ht =>
    obtain ⟨e, queue, -, -, -, -, rfl⟩ := take_eq_some_iff.1 ht
    simp [handed?, Label.caller?, nextId]
  | finish hf =>
    obtain ⟨e, -, -, rfl⟩ := finish_eq_some_iff.1 hf
    simp [handed?, Label.caller?, nextId]

end Traffic

/-- The numbers go on where they stopped. -/
theorem range_numbers {q : History × Traffic} (hf : follow (h, t) as = some q) :
    List.range q.2.relay.nextId = List.range t.relay.nextId ++ t.numbers as := by
  induction as generalizing h t with
  | nil =>
    cases hf
    exact (List.append_nil _).symm
  | cons a as ih =>
    rw [follow, List.foldlM_cons] at hf
    obtain ⟨p, hp, hf⟩ := Option.bind_eq_some_iff.1 hf
    obtain ⟨u, hu, rfl⟩ := Option.map_eq_some_iff.1 hp
    rw [ih hf, (Traffic.effect_of_step hu).range_nextId, List.append_assoc]
    simp only [Traffic.numbers, hu]

/-! ## Half-done removals -/

namespace Traffic

/-- Where an entry is left vacant, the call is about to drop it. -/
theorem Moves.vacant (hm : Moves t k c a es relay c') (hv : relay.isVacant cluster = true) :
    (t.relay.isVacant cluster = true ∧ ∀ id, c ≠ .sweep cluster id) ∨
      ∃ id, c' = .sweep cluster id := by
  cases hm with
  | insert => exact .inl ⟨isVacant_insertMember hv, nofun⟩
  | @removeLast name id =>
    by_cases heq : cluster = name
    · subst heq
      exact .inr ⟨id, rfl⟩
    · exact .inl ⟨isVacant_modifyMembers (fun h => absurd h heq) hv, nofun⟩
  | @remove name id _ hstays =>
    refine .inl ⟨isVacant_modifyMembers (fun heq => ?_) hv, nofun⟩
    subst heq
    rw [hv] at hstays
    cases hstays
  | sweep =>
    obtain ⟨hne, hv⟩ := isVacant_sweep hv
    exact .inl ⟨hv, fun id heq => hne (Call.sweep.inj heq).1.symm⟩
  | clear => cases hv
  | refuse hr =>
    refine .inl ⟨hv, fun id heq => ?_⟩
    subst heq
    cases hr
  | _ => exact .inl ⟨hv, nofun⟩

/-- Nobody else takes the second step of a removal. -/
theorem Effect.sweep (he : Effect t a es u) (hc : t.call? k = some (.sweep cluster id))
    (hne : a ≠ .advance k) : u.call? k = some (.sweep cluster id) := by
  have hturn := he.turn k
  rw [hc] at hturn
  generalize u.call? k = after, u.relay = relay at hturn ⊢
  cases hturn with
  | rest => rfl
  | move hm =>
    cases hm with
    | sweep => exact absurd rfl hne
    | refuse hr => cases hr

theorem Effect.vacant (he : Effect t a es u)
    (hall : t.relay.isVacant cluster = true → ∃ k id, t.call? k = some (.sweep cluster id))
    (hv : u.relay.isVacant cluster = true) : ∃ k id, u.call? k = some (.sweep cluster id) := by
  have hsame (hv : t.relay.isVacant cluster = true) (hne : ∀ k, a ≠ .advance k) :
      ∃ k id, u.call? k = some (.sweep cluster id) := by
    obtain ⟨k, id, hc⟩ := hall hv
    exact ⟨k, id, he.sweep hc (hne k)⟩
  have hstep := he
  cases he with
  | start | collect => exact hsame hv nofun
  | @move k c a es relay c' hc hm =>
    rcases hm.vacant hv with ⟨hv, hnot⟩ | ⟨id, rfl⟩
    · obtain ⟨k', id, hc'⟩ := hall hv
      refine ⟨k', id, hstep.sweep hc' fun heq => ?_⟩
      obtain rfl : k' = k := Option.some.inj ((congrArg Label.caller? heq).symm.trans hm.caller?)
      exact hnot id (Option.some.inj (hc.symm.trans hc'))
    · exact ⟨k, id, by rw [call?_setCall (by exact hc), if_pos rfl]⟩
  | take ht => exact hsame ((alike_of_take ht).isVacant cluster ▸ hv) nofun
  | finish hf => exact hsame ((alike_of_finish hf).isVacant cluster ▸ hv) nofun

end Traffic

theorem Recorded.vacant (hr : Recorded h t) (hv : t.relay.isVacant cluster = true) :
    ∃ k id, t.call? k = some (.sweep cluster id) := by
  induction hr with
  | fresh => cases hv
  | step _ hs ih => exact (Traffic.effect_of_step hs).vacant ih hv

/-! ## Who stays -/

namespace History

theorem mem_registered_iff : id ∈ h.registered cluster ↔ .inserted cluster id ∈ h := by
  induction h with
  | nil => simp
  | cons e h ih =>
    cases e with
    | inserted c i =>
      simp only [registered, List.mem_append, ih, List.mem_cons, Event.inserted.injEq]
      by_cases hc : c = cluster
      · simp [hc, or_comm]
      · simp [hc, Ne.symm hc]
    | _ => simp [ih]

theorem staying_inserted (hno : .removed cluster id ∉ h) : staying other (.inserted cluster id :: h) =
    h.staying other ++ if cluster = other then [id] else [] := by
  simp only [staying, registered, List.filter_append, List.mem_cons, reduceCtorEq, false_or]
  by_cases hc : cluster = other
  · subst hc
    simp [hno]
  · simp [hc]

theorem staying_removed (hnodup : (h.registered other).Nodup) :
    staying other (.removed cluster id :: h) =
      if cluster = other then (h.staying other).erase id else h.staying other := by
  by_cases hc : cluster = other
  · subst hc
    rw [if_pos rfl, staying, staying, (hnodup.filter _).erase_eq_filter, List.filter_filter]
    simp only [registered, List.mem_cons, Event.removed.injEq, true_and, not_or]
    refine List.filter_congr fun i _ => ?_
    by_cases hi : i = id <;> simp [hi]
  · simp [staying, Ne.symm hc, hc]

end History

namespace Traffic

theorem events_eq (t : Traffic) (a : Label) : t.events a = [] ∨ ∃ e, t.events a = [e] := by
  cases a with
  | start k request =>
    rcases events_start t k request with hes | ⟨_, _, -, hes⟩
    · exact .inl hes
    · exact .inr ⟨_, hes⟩
  | advance k =>
    cases hc : t.call? k with
    | none => simp [events, hc]
    | some c => cases c <;> simp [events, hc, Call.events]
  | enqueue k id =>
    simp only [events]
    split
    · exact .inr ⟨_, rfl⟩
    · exact .inl rfl
  | finish id panicked =>
    rcases events_finish t id panicked with hes | ⟨_, -, -, hes⟩
    · exact .inl hes
    · exact .inr ⟨_, hes⟩
  | _ => exact .inl rfl

/-- Only a call that unregisters a service removes it. -/
theorem Effect.removed (he : Effect t a es u) (hin : .removed cluster id ∈ es) :
    ∃ k, t.call? k = some (.remove cluster id) := by
  obtain ⟨k, c, hc, hin⟩ := he.exists_call hin rfl
  cases c with
  | remove =>
    simp only [Call.events, List.mem_singleton, Event.removed.injEq] at hin
    obtain ⟨rfl, rfl⟩ := hin
    exact ⟨k, hc⟩
  | _ => simp [Call.events] at hin

end Traffic

theorem Recorded.inserted_of_removed (hr : Recorded h t) (howned : h.Owned)
    (hin : .removed cluster id ∈ h) : .inserted cluster id ∈ h := by
  induction hr with
  | fresh => cases hin
  | step hr hs ih =>
    have hbefore := History.owned_of_append howned
    refine List.mem_append_right _ ?_
    rcases List.mem_append.1 hin with hin | hin
    · obtain ⟨k, hc⟩ := (Traffic.effect_of_step hs).removed hin
      exact hr.parts hbefore hc
    · exact ih hbefore hin

/-- Nobody is registered twice, and until the clusters are removed the members are those who stay. -/
theorem Recorded.roster_eq (hr : Recorded h t) (howned : h.Owned) (hkept : .cleared ∉ h)
    (cluster : String) : (h.registered cluster).Nodup ∧ h.roster cluster = h.staying cluster := by
  induction hr with
  | fresh => exact ⟨List.nodup_nil, rfl⟩
  | @step h t a u hr hs ih =>
    have hbefore := History.owned_of_append howned
    obtain ⟨hnodup, hroster⟩ := ih hbefore (mt (List.mem_append_right _) hkept)
    have he := Traffic.effect_of_step hs
    rcases t.events_eq a with hes | ⟨e, hes⟩ <;> rw [hes] at he hkept ⊢
    · exact ⟨hnodup, hroster⟩
    · rw [List.singleton_append]
      cases e with
      | inserted c id =>
        obtain ⟨k, -, hc, -⟩ := he.inserted (List.mem_singleton_self _)
        -- the number was given out to this call, so nothing was inserted with it before
        obtain ⟨-, hnew, -⟩ := hr.ledger.number hc rfl
        have hstays : .removed c id ∉ h := mt (hr.inserted_of_removed hbefore) (hnew c)
        have hnone : id ∉ h.roster cluster := mt History.inserted_of_mem_roster (hnew cluster)
        have hfresh : id ∉ h.registered cluster := mt History.mem_registered_iff.1 (hnew cluster)
        rw [History.staying_inserted hstays]
        simp only [History.registered, History.roster, if_neg hnone, ← hroster]
        split
        · exact ⟨hnodup.append (List.nodup_singleton id) (by simpa using hfresh), rfl⟩
        · exact ⟨by simpa using hnodup, (List.append_nil _).symm⟩
      | removed c id =>
        rw [History.staying_removed hnodup, ← hroster]
        exact ⟨hnodup, rfl⟩
      | cleared => exact absurd List.mem_cons_self hkept
      | _ => exact ⟨hnodup, by simpa [History.staying] using hroster⟩

/-- A member leaves by its own removal only. -/
theorem Traffic.Effect.stays (he : t.Effect a es u) (hd : t.relay.Distinct)
    (hopen : ∀ k, t.call? k ≠ some .clear) (hm : id ∈ t.relay.members cluster) :
    id ∈ u.relay.members cluster ∨
      ∃ k, a = .advance k ∧ t.call? k = some (.remove cluster id) := by
  cases he with
  | start | collect => exact .inl hm
  | @move k c a es relay c' hc hmove =>
    cases hmove with
    | insert =>
      left
      show id ∈ (t.relay.insertMember _ _).members cluster
      rw [members_insertMember]
      split
      · split
        · exact hm
        · exact List.mem_append_left _ hm
      · exact hm
    | @remove name i | @removeLast name i =>
      by_cases heq : cluster = name ∧ id = i
      · obtain ⟨rfl, rfl⟩ := heq
        exact .inr ⟨k, rfl, hc⟩
      · left
        show id ∈ (t.relay.removeMember _ _).members cluster
        rw [members_removeMember]
        split
        · rename_i hname
          exact (List.mem_erase_of_ne fun hid => heq ⟨hname, hid⟩).2 hm
        · exact hm
    | sweep =>
      left
      show id ∈ (t.relay.sweep _).members cluster
      rwa [members_sweep hd]
    | clear => exact absurd hc (hopen k)
    | _ => exact .inl hm
  | take ht => exact .inl ((alike_of_take ht).members cluster ▸ hm)
  | finish hf => exact .inl ((alike_of_finish hf).members cluster ▸ hm)

/-! ## The account -/

/-- Who the members of the clusters of an open relay are, when the steps `as` have led to `t`. -/
structure Membership (as : List Traffic.Label) (h : History) (t : Traffic) : Prop where
  /-- The members of a cluster are the services that were registered with it and whose removal has not
  happened, whatever their connections and handlers have come to. -/
  members : ∀ cluster, t.relay.members cluster = h.staying cluster
  /-- Each service was registered once. -/
  registered : ∀ cluster, (h.registered cluster).Nodup
  /-- No number is handed out twice, and services are registered under theirs. -/
  numbers : (Traffic.numbers {} as).Nodup ∧
    ∀ cluster, ∀ id ∈ h.registered cluster, id ∈ Traffic.numbers {} as
  /-- Who is about to be inserted replaces nobody. -/
  replaces : ∀ k cluster id, t.call? k = some (.insert cluster id) →
    ∀ other, id ∉ t.relay.members other
  /-- A step takes no service out of its cluster but by its own removal. -/
  stays : ∀ a u cluster id, t.step a = some u → id ∈ t.relay.members cluster →
    id ∈ u.relay.members cluster ∨ ∃ k, a = .advance k ∧ t.call? k = some (.remove cluster id)
  /-- An entry without members stands between the two steps of a removal. -/
  vacant : ∀ e ∈ t.relay.clusters, e.members = [] →
    ∃ k id, t.call? k = some (.sweep e.name id)

/-- **Members come by their registration, and go by their own removal.** -/
theorem members_accounted (hf : follow ([], {}) as = some (h, t)) (howned : h.Owned)
    (hopen : t.relay.closed = false) : Membership as h t := by
  have hr : Recorded h t := Recorded.fresh.follow hf
  have hl := hr.ledger
  have hkept : .cleared ∉ h := fun hin => by
    rw [hr.closed_of_cleared hin] at hopen
    cases hopen
  have hclear (k) : t.call? k ≠ some .clear := fun hc => by
    rw [hr.closed_of_clear hc] at hopen
    cases hopen
  have hnumbers : Traffic.numbers {} as = List.range t.relay.nextId := (range_numbers hf).symm
  refine ⟨fun cluster => ?_, fun cluster => ?_, ⟨?_, fun cluster id hin => ?_⟩,
    fun k cluster id hc other hin => ?_, fun a u cluster id hs hm => ?_, fun e he hnil => ?_⟩
  · exact (hl.members cluster).trans (hr.roster_eq howned hkept cluster).2
  · exact (hr.roster_eq howned hkept cluster).1
  · rw [hnumbers]
    exact List.nodup_range
  · rw [hnumbers]
    exact List.mem_range.2 (hl.inserted (History.mem_registered_iff.1 hin)).1
  · rw [hl.members] at hin
    exact (hl.number hc rfl).2.1 other (History.inserted_of_mem_roster hin)
  · exact (Traffic.effect_of_step hs).stays hl.distinct hclear hm
  · exact hr.vacant (isVacant_iff.2 ⟨e, he, rfl, hnil⟩)

/-- A service registers between the two steps of the removal of the only other one. -/
theorem registered_amid_removal :
    let labels : List Traffic.Label :=
      [.start 0 (.register "c"), .advance 0, .advance 0, .initialised 0 none, .advance 0,
          .collect 0] ++
        [.start 1 (.register "c"), .advance 1, .advance 1, .initialised 1 none] ++
        [.start 0 (.unregister "c" 0), .advance 0] ++ [.advance 1] ++ [.advance 0]
    ∃ h t, follow ([], {}) labels = some (h, t) ∧ h.Owned ∧ t.relay.closed = false ∧
      t.relay.members "c" = [1] := by
  intro labels
  have hend : (follow ([], {}) labels).map (fun q => (q.1, q.2.relay.closed)) =
      some ([.inserted "c" 1, .removed "c" 0, .leaving "c" 0, .inserted "c" 0], false) := by
    decide +kernel
  obtain ⟨⟨h, t⟩, hf, hq⟩ := Option.map_eq_some_iff.1 hend
  obtain ⟨rfl, hopen⟩ := Prod.mk.inj hq
  have howned : History.Owned [.inserted "c" 1, .removed "c" 0, .leaving "c" 0, .inserted "c" 0] := by
    simp
  have hmembers := (members_accounted hf howned hopen).members "c"
  exact ⟨_, t, hf, howned, hopen, hmembers.trans (by decide)⟩

end Lockstep.Relay
