import Lockstep.Proofs.Scenario.Relayed

/-!
# The numbers that a scenario takes, and who is a member

A scenario finds a relay that has given out the numbers below `first` and has members of its own, the
observers. `Placed` says what the places of the participants have to do with it: the numbers from
`first` on are those of the participants, one each; the members from `first` on are the servers that
are inside, and those below are the observers, as before; the handler of a service belongs to the
participant that registered it. Each part is read off the `Shift` that a step is (`Placed.step`).
-/

set_option autoImplicit false

namespace Lockstep.Scenario

open Relay (Line Call Traffic)

/-- The places of the participants of a scenario on a relay that had given out the numbers below
`first` and had the history `H₀` when the scenario began. -/
structure Placed (cluster : String) (first : Nat) (H₀ H : Relay.History) (spots : Nat → Spot)
    (l : Line) : Prop where
  range : ∀ {p id}, (spots p).place.number? = some id → first ≤ id ∧ id < l.traffic.relay.nextId
  injective : ∀ {p q id}, (spots p).place.number? = some id → (spots q).place.number? = some id →
    p = q
  surjective : ∀ {id}, first ≤ id → id < l.traffic.relay.nextId →
    ∃ p, (spots p).place.number? = some id
  opened : ∀ {p id}, (spots p).place.open? = some id → l.traffic.relay.isClosed id = false
  unborn : ∀ {p id}, (spots p).place = .joining id ∨ (spots p).place = .ready id →
    ∀ other, .inserted other id ∉ H
  inside : ∀ {p id}, (spots p).place = .inside id → id ∈ H.roster cluster
  others : ∀ {id}, id ∈ H.roster cluster → first ≤ id → ∃ p, (spots p).place = .inside id
  observers : ∀ {id}, id < first → (id ∈ H.roster cluster ↔ id ∈ H₀.roster cluster)
  /-- The handlers of earlier scenarios are given nothing any more. -/
  owners : ∀ {id q}, l.owners.lookup id = some q →
    Relay.Settled H l.traffic id ∨ (spots q).place.service? = some id
  owner : ∀ {p id}, (spots p).place.service? = some id → l.owners.lookup id = some p
  left : ∀ {p id}, (spots p).place = .gone id → .left id ∈ H

variable {c : Config} {cluster : String} {first : Nat} {H₀ H rs : Relay.History}
  {spots : Nat → Spot} {l l' : Line} {p q k id : Nat} {spot spot' : Spot} {relay : Relay}
  {handlers : List (Nat × Nat)} {u v : Traffic}

/-! ## What a shift does -/

theorem Place.number?_of_open? {place : Place} (hid : place.open? = some id) :
    place.number? = some id := by
  cases place <;> first | exact hid | cases hid

theorem Place.number?_of_service? {place : Place} (hid : place.service? = some id) :
    place.number? = some id := by
  cases place <;> first | exact hid | cases hid

section
variable (hs : Shift c cluster l k rs relay handlers spot spot')
include hs

/-- Numbers are kept, and who has none can get the next one. -/
theorem Shift.number? :
    (relay.nextId = l.traffic.relay.nextId ∧ spot'.place.number? = spot.place.number?) ∨
      (relay.nextId = l.traffic.relay.nextId + 1 ∧ spot.place.number? = none ∧
        spot'.place.number? = some l.traffic.relay.nextId) := by
  cases hs with
  | calm hcalm => exact .inl ⟨hcalm.nextId, rfl⟩
  | connect | takeId => exact .inr ⟨Relay.nextId_newEndpoint, rfl, rfl⟩
  | insert => exact .inl ⟨congrArg List.length Relay.endpoints_insertMember, rfl⟩
  | close => exact .inl ⟨Relay.nextId_modifyEndpoint, rfl⟩
  | initialise | begin | remove | leave => exact .inl ⟨rfl, rfl⟩

/-- Only its owner closes a connection. -/
theorem Shift.isClosed (hopen : l.traffic.relay.isClosed id = false) :
    relay.isClosed id = false ∨ (spot.place.number? = some id ∧ spot'.place.open? ≠ some id) := by
  cases hs with
  | calm hcalm =>
    rcases hcalm.closed id hopen with hopen | hplace
    · exact .inl hopen
    · refine .inr ⟨?_, ?_⟩ <;> rw [hplace]
      · rfl
      · exact (Option.some_ne_none id).symm
  | connect | takeId =>
    left
    rw [Relay.isClosed_newEndpoint]
    split
    · rfl
    · exact hopen
  | insert =>
    left
    rw [Relay.isClosed, Relay.endpoints_insertMember]
    exact hopen
  | @close id' =>
    by_cases hid : id' = id
    · exact .inr ⟨congrArg some hid, (Option.some_ne_none id).symm⟩
    · exact .inl ((Relay.isClosed_close_of_ne hid).trans hopen)
  | initialise | begin | remove | leave => exact .inl hopen

/-- A connection that was open stays open, and a new one is. -/
theorem Shift.open? (hid : spot'.place.open? = some id) :
    spot.place.open? = some id ∨ relay.isClosed id = false := by
  cases hs with
  | calm | insert | initialise | begin => exact .inl hid
  | connect | takeId =>
    right
    cases hid
    rw [Relay.isClosed_newEndpoint, if_pos rfl]
  | close | remove | leave => cases hid

theorem Shift.inserted {other : String} (hin : .inserted other id ∈ rs) :
    spot.place = .ready id ∧ spot'.place = .inside id := by
  cases hs with
  | calm hcalm =>
    have hquiet := hcalm.quiet _ hin
    cases hquiet
  | insert =>
    simp only [List.mem_singleton, Relay.Event.inserted.injEq] at hin
    obtain ⟨-, rfl⟩ := hin
    exact ⟨rfl, rfl⟩
  | _ => simp at hin

theorem Shift.unborn (hplace : spot'.place = .joining id ∨ spot'.place = .ready id) :
    id = l.traffic.relay.nextId ∨ spot.place = .joining id ∨ spot.place = .ready id := by
  cases hs with
  | calm | begin => exact .inr hplace
  | initialise => grind
  | takeId => grind
  | _ => grind

theorem Shift.service? (hid : spot.place.service? = some id) :
    spot'.place.service? = some id := by
  cases hs with
  | connect | takeId | initialise | close => cases hid
  | _ => exact hid

theorem Shift.owners : handlers = l.owners ∧ spot'.place.service? = spot.place.service? ∨
    ∃ id, spot.place = .joining id ∧ spot'.place = .ready id ∧ handlers = l.owners ++ [(id, k)] := by
  cases hs with
  | initialise => exact .inr ⟨_, rfl, rfl, rfl⟩
  | _ => exact .inl ⟨rfl, rfl⟩

theorem Shift.gone (hplace : spot'.place = .gone id) : spot.place = .gone id ∨ .left id ∈ rs := by
  cases hs with
  | calm | begin => exact .inl hplace
  | leave =>
    cases hplace
    exact .inr List.mem_cons_self
  | _ => cases hplace

theorem Shift.inside (hplace : spot'.place = .inside id) :
    spot.place = .inside id ∨ spot.place = .ready id := by
  cases hs with
  | calm | begin => exact .inl hplace
  | insert =>
    cases hplace
    exact .inr rfl
  | _ => cases hplace

theorem Shift.of_inside (hplace : spot.place = .inside id) :
    spot'.place = .inside id ∨ spot'.place = .leaving id := by
  cases hs with
  | calm | begin => exact .inl hplace
  | remove =>
    cases hplace
    exact .inr rfl
  | _ => cases hplace

/-- Who is a member: who was one, unless it is removed, and who is inserted. -/
theorem Shift.mem_roster : id ∈ Relay.History.roster cluster (rs ++ H) ↔
    (id ∈ H.roster cluster ∧ ¬ (spot.place = .inside id ∧ spot'.place = .leaving id)) ∨
      (spot.place = .ready id ∧ spot'.place = .inside id) := by
  cases hs with
  | calm hcalm =>
    rw [Relay.History.roster_append_of_quiet hcalm.quiet]
    grind
  | @insert id' =>
    simp only [List.singleton_append, Relay.History.roster, if_true, Place.ready.injEq,
      Place.inside.injEq]
    split <;> grind
  | begin =>
    simp only [List.singleton_append, Relay.History.roster]
    grind
  | @remove id' =>
    simp only [List.singleton_append, Relay.History.roster, if_true, Place.inside.injEq,
      Place.leaving.injEq, (Relay.History.nodup_roster cluster H).mem_erase_iff]
    grind
  | _ => simp

end

/-! ## Steps -/

theorem Flow.settled (hf : Flow u rs v) (hrec : Relay.Recorded H u) (hs : Relay.Settled H u id) :
    Relay.Settled (rs ++ H) v id := by
  cases hf with
  | same => exact hs
  | step hstep => exact hs.step hrec (Traffic.effect_of_step hstep)

section
variable (hs : Shift c cluster l k rs l'.traffic.relay l'.owners (spots k) spot)
include hs

theorem Shift.nextId_le : l.traffic.relay.nextId ≤ l'.traffic.relay.nextId := by
  rcases hs.number? with ⟨hnext, -⟩ | ⟨hnext, -⟩ <;> omega

/-- Only who is shifted gets a new number. -/
theorem Shift.number?_update (hid : (Function.update spots k spot p).place.number? = some id) :
    (spots p).place.number? = some id ∨ (p = k ∧ id = l.traffic.relay.nextId ∧
      l'.traffic.relay.nextId = l.traffic.relay.nextId + 1) := by
  by_cases hpk : p = k
  · subst hpk
    rw [Function.update_self] at hid
    rcases hs.number? with ⟨-, hsame⟩ | ⟨hnext, -, hnew⟩
    · exact .inl (hsame ▸ hid)
    · exact .inr ⟨rfl, Option.some.inj (hid.symm.trans hnew), hnext⟩
  · rw [Function.update_of_ne hpk] at hid
    exact .inl hid

/-- Numbers are kept. -/
theorem Shift.update_number? (hid : (spots p).place.number? = some id) :
    (Function.update spots k spot p).place.number? = some id := by
  by_cases hpk : p = k
  · subst hpk
    rw [Function.update_self]
    rcases hs.number? with ⟨-, hsame⟩ | ⟨-, hnone, -⟩
    · exact hsame.trans hid
    · rw [hid] at hnone
      cases hnone
  · rw [Function.update_of_ne hpk]
    exact hid

variable (hp : Placed cluster first H₀ H spots l)
include hp

theorem Placed.range_step (hfirst : first ≤ l.traffic.relay.nextId)
    (hid : (Function.update spots k spot p).place.number? = some id) :
    first ≤ id ∧ id < l'.traffic.relay.nextId := by
  have hle := hs.nextId_le
  rcases hs.number?_update hid with hold | ⟨-, rfl, hnext⟩
  · have := hp.range hold
    omega
  · omega

theorem Placed.injective_step (hpid : (Function.update spots k spot p).place.number? = some id)
    (hqid : (Function.update spots k spot q).place.number? = some id) : p = q := by
  rcases hs.number?_update hpid with hpold | ⟨hpk, hpnew, -⟩ <;>
    rcases hs.number?_update hqid with hqold | ⟨hqk, hqnew, -⟩
  · exact hp.injective hpold hqold
  · exact absurd (hp.range hpold).2 (by omega)
  · exact absurd (hp.range hqold).2 (by omega)
  · exact hpk.trans hqk.symm

theorem Placed.surjective_step (hle : first ≤ id) (hlt : id < l'.traffic.relay.nextId) :
    ∃ p, (Function.update spots k spot p).place.number? = some id := by
  by_cases hold : id < l.traffic.relay.nextId
  · obtain ⟨p, hid⟩ := hp.surjective hle hold
    exact ⟨p, hs.update_number? hid⟩
  · rcases hs.number? with ⟨hnext, -⟩ | ⟨hnext, -, hnew⟩
    · omega
    · obtain rfl : id = l.traffic.relay.nextId := by omega
      exact ⟨k, by rw [Function.update_self]; exact hnew⟩

theorem Placed.opened_step (hid : (Function.update spots k spot p).place.open? = some id) :
    l'.traffic.relay.isClosed id = false := by
  by_cases hpk : p = k
  · subst hpk
    rw [Function.update_self] at hid
    rcases hs.open? hid with hold | hopen
    · rcases hs.isClosed (hp.opened hold) with hopen | ⟨-, hne⟩
      · exact hopen
      · exact absurd hid hne
    · exact hopen
  · rw [Function.update_of_ne hpk] at hid
    rcases hs.isClosed (hp.opened hid) with hopen | ⟨hk, -⟩
    · exact hopen
    · exact absurd (hp.injective (Place.number?_of_open? hid) hk) hpk

/-- The number of a service that is not a member yet is its own. -/
theorem Placed.unborn_step (hl : Relay.Ledger H l.traffic)
    (hplace : (Function.update spots k spot p).place = .joining id ∨
      (Function.update spots k spot p).place = .ready id) (other : String) :
    .inserted other id ∉ rs ++ H := by
  intro hin
  have hnumber : (Function.update spots k spot p).place.number? = some id := by
    rcases hplace with hplace | hplace <;> rw [hplace] <;> rfl
  rcases List.mem_append.1 hin with hin | hin
  · -- who is inserted in this step has another place then
    obtain ⟨hready, hinside⟩ := hs.inserted hin
    have hk : (Function.update spots k spot k).place.number? = some id := by
      rw [Function.update_self, hinside]
      rfl
    obtain rfl := hp.injective_step hs hnumber hk
    rw [Function.update_self, hinside] at hplace
    rcases hplace with hplace | hplace <;> cases hplace
  · by_cases hpk : p = k
    · subst hpk
      rw [Function.update_self] at hplace
      rcases hs.unborn hplace with rfl | hplace
      · exact absurd (hl.inserted hin).1 (Nat.lt_irrefl _)
      · exact hp.unborn hplace other hin
    · rw [Function.update_of_ne hpk] at hplace
      exact hp.unborn hplace other hin

theorem Placed.inside_step (hplace : (Function.update spots k spot p).place = .inside id) :
    id ∈ Relay.History.roster cluster (rs ++ H) := by
  rw [hs.mem_roster]
  by_cases hpk : p = k
  · subst hpk
    rw [Function.update_self] at hplace
    rcases hs.inside hplace with hold | hready
    · refine .inl ⟨hp.inside hold, ?_⟩
      rw [hplace]
      nofun
    · exact .inr ⟨hready, hplace⟩
  · rw [Function.update_of_ne hpk] at hplace
    refine .inl ⟨hp.inside hplace, ?_⟩
    rintro ⟨hk, -⟩
    exact hpk (hp.injective (by rw [hplace]; rfl) (by rw [hk]; rfl))

theorem Placed.others_step (hm : id ∈ Relay.History.roster cluster (rs ++ H)) (hle : first ≤ id) :
    ∃ p, (Function.update spots k spot p).place = .inside id := by
  rcases hs.mem_roster.1 hm with ⟨hm, hstays⟩ | ⟨-, hinside⟩
  · obtain ⟨p, hplace⟩ := hp.others hm hle
    refine ⟨p, ?_⟩
    by_cases hpk : p = k
    · subst hpk
      rw [Function.update_self]
      exact (hs.of_inside hplace).resolve_right fun hleaving => hstays ⟨hplace, hleaving⟩
    · rwa [Function.update_of_ne hpk]
  · exact ⟨k, by rwa [Function.update_self]⟩

theorem Placed.observers_step (hlt : id < first) :
    id ∈ Relay.History.roster cluster (rs ++ H) ↔ id ∈ H₀.roster cluster := by
  -- participants have later numbers
  have hno {place : Place} (hnumber : place.number? = some id) : (spots k).place ≠ place := by
    rintro rfl
    exact absurd (hp.range hnumber).1 (Nat.not_le.2 hlt)
  rw [hs.mem_roster, ← hp.observers hlt]
  refine ⟨?_, fun hm => .inl ⟨hm, fun hremoved => hno rfl hremoved.1⟩⟩
  rintro (⟨hm, -⟩ | ⟨hready, -⟩)
  · exact hm
  · exact absurd hready (hno rfl)

omit hs in
/-- No handler is noted of a service before it is initialised. -/
theorem Placed.lookup_eq_none (hplace : (spots p).place = .joining id) :
    l.owners.lookup id = none := by
  rw [Option.eq_none_iff_forall_ne_some]
  intro q hq
  rcases hp.owners hq with ⟨other, ⟨hin, -⟩, -⟩ | hservice
  · exact hp.unborn (.inl hplace) other hin
  · have hnumber : (spots p).place.number? = some id := by rw [hplace]; rfl
    obtain rfl := hp.injective hnumber (Place.number?_of_service? hservice)
    rw [hplace] at hservice
    cases hservice

theorem Placed.owner_step (hid : (Function.update spots k spot p).place.service? = some id) :
    l'.owners.lookup id = some p := by
  rcases hs.owners with ⟨howners, hsame⟩ | ⟨id₀, hjoining, hready, howners⟩
  · rw [howners]
    refine hp.owner ?_
    by_cases hpk : p = k
    · subst hpk
      rwa [Function.update_self, hsame] at hid
    · rwa [Function.update_of_ne hpk] at hid
  · rw [howners, List.lookup_append]
    by_cases hpk : p = k
    · subst hpk
      rw [Function.update_self, hready] at hid
      cases hid
      simp [hp.lookup_eq_none hjoining]
    · rw [Function.update_of_ne hpk] at hid
      rw [hp.owner hid]
      rfl

theorem Placed.owners_step (hflow : Flow l.traffic rs l'.traffic)
    (hrec : Relay.Recorded H l.traffic) (hid : l'.owners.lookup id = some q) :
    Relay.Settled (rs ++ H) l'.traffic id ∨
      (Function.update spots k spot q).place.service? = some id := by
  have hold (hid : l.owners.lookup id = some q) : Relay.Settled (rs ++ H) l'.traffic id ∨
      (Function.update spots k spot q).place.service? = some id := by
    refine (hp.owners hid).imp (hflow.settled hrec) fun hservice => ?_
    by_cases hqk : q = k
    · subst hqk
      rw [Function.update_self]
      exact hs.service? hservice
    · rwa [Function.update_of_ne hqk]
  rcases hs.owners with ⟨howners, -⟩ | ⟨id₀, hjoining, hready, howners⟩
  · exact hold (howners ▸ hid)
  · rw [howners, List.lookup_append] at hid
    cases hlookup : l.owners.lookup id with
    | some q' =>
      rw [hlookup] at hid
      exact hold (hlookup.trans hid)
    | none =>
      rw [hlookup, Option.none_or, List.lookup_cons] at hid
      split at hid
      · rename_i heq
        obtain rfl : id = id₀ := by simpa using heq
        cases hid
        rw [Function.update_self, hready]
        exact .inr rfl
      · cases hid

theorem Placed.left_step (hplace : (Function.update spots k spot p).place = .gone id) :
    .left id ∈ rs ++ H := by
  rw [List.mem_append]
  by_cases hpk : p = k
  · subst hpk
    rw [Function.update_self] at hplace
    rcases hs.gone hplace with hold | hleft
    · exact .inr (hp.left hold)
    · exact .inl hleft
  · rw [Function.update_of_ne hpk] at hplace
    exact .inr (hp.left hplace)

theorem Placed.step (hflow : Flow l.traffic rs l'.traffic) (hrec : Relay.Recorded H l.traffic)
    (hfirst : first ≤ l.traffic.relay.nextId) :
    Placed cluster first H₀ (rs ++ H) (Function.update spots k spot) l' where
  range := hp.range_step hs hfirst
  injective := hp.injective_step hs
  surjective := hp.surjective_step hs
  opened := hp.opened_step hs
  unborn hplace := hp.unborn_step hs hrec.ledger hplace
  inside := hp.inside_step hs
  others := hp.others_step hs
  observers := hp.observers_step hs
  owners := hp.owners_step hs hflow hrec
  owner := hp.owner_step hs
  left := hp.left_step hs

end

end Lockstep.Scenario
