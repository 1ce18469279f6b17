import Lockstep.Proofs.Relay.Endpoints
import Lockstep.Proofs.Relay.Steps

/-!
# Histories of a relay in use

`History.roster` reads the members of a cluster off a history, `History.sent` the messages of those
broadcasts to the cluster that began while a service was among its members, and `History.arrived`
those that were handed to the service. `Recorded h t` says that a fresh relay can come to be used as
`t` says, and `h` is what happened.

`Ledger` is what the history and the calls under way have to do with each other: the members of a
cluster are its roster, numbers are given out once, and a cluster does not change while a broadcast
goes through it (`Recorded.ledger`).
-/

set_option autoImplicit false

namespace Lockstep.Relay

namespace History

/-- The members of the cluster, in the order they were inserted. -/
@[simp] def roster (cluster : String) : History → List Nat
  | [] => []
  | .inserted c id :: h =>
    if c = cluster then
      if id ∈ roster cluster h then roster cluster h else roster cluster h ++ [id]
    else roster cluster h
  | .removed c id :: h => if c = cluster then (roster cluster h).erase id else roster cluster h
  | .cleared :: _ => []
  | _ :: h => roster cluster h

/-- The messages of the broadcasts to the cluster that began while the service `id` was a member, with
their callers, in the order in which the broadcasts began. -/
@[simp] def sent (cluster : String) (id : Nat) : History → List (Nat × Payload)
  | [] => []
  | .began k c m :: h =>
    sent cluster id h ++ if c = cluster ∧ id ∈ roster cluster h then [(k, m)] else []
  | _ :: h => sent cluster id h

/-- The messages that were handed to the service `id`, with the callers that broadcast them, in their
order. -/
@[simp] def arrived (id : Nat) : History → List (Nat × Payload)
  | [] => []
  | .queued k i m :: h => arrived id h ++ if i = id then [(k, m)] else []
  | _ :: h => arrived id h

/-- The callers whose broadcasts are going through the members of the cluster. -/
@[simp] def walkers (cluster : String) : History → List Nat
  | [] => []
  | .began k c _ :: h => if c = cluster then k :: walkers cluster h else walkers cluster h
  | .ended k c :: h => if c = cluster then (walkers cluster h).erase k else walkers cluster h
  | _ :: h => walkers cluster h

/-- No broadcast to the cluster began before those that had begun were through. -/
@[simp] def Sequential (cluster : String) : History → Prop
  | [] => True
  | .began _ c _ :: h => (c = cluster → walkers cluster h = []) ∧ Sequential cluster h
  | _ :: h => Sequential cluster h

/-- Only services that had been registered with a cluster were unregistered from it. -/
@[simp] def Owned : History → Prop
  | [] => True
  | .leaving cluster id :: h => .inserted cluster id ∈ h ∧ Owned h
  | _ :: h => Owned h

variable {cluster : String} {id k : Nat} {h : History}

theorem nodup_roster (cluster : String) (h : History) : (h.roster cluster).Nodup := by
  induction h with
  | nil => exact List.nodup_nil
  | cons e h ih =>
    cases e with
    | inserted c id =>
      simp only [roster]
      split
      · split
        · exact ih
        · rename_i hm
          exact List.nodup_append.2 ⟨ih, List.nodup_singleton id,
            fun i hi j hj heq => hm (List.mem_singleton.1 hj ▸ heq ▸ hi)⟩
      · exact ih
    | removed c id =>
      simp only [roster]
      split
      · exact ih.erase id
      · exact ih
    | cleared => exact List.nodup_nil
    | _ => exact ih

theorem roster_append_of_quiet {es : History} (hquiet : ∀ e ∈ es, e.isQuiet = true) :
    roster cluster (es ++ h) = h.roster cluster := by
  induction es with
  | nil => rfl
  | cons e es ih =>
    have ih := ih fun e' he' => hquiet e' (List.mem_cons_of_mem e he')
    have he := hquiet e List.mem_cons_self
    cases e with
    | inserted | removed | cleared => cases he
    | _ => exact ih

/-- A new member was inserted. -/
theorem mem_roster_append {es : History} (hm : id ∈ roster cluster (es ++ h)) :
    id ∈ h.roster cluster ∨ .inserted cluster id ∈ es := by
  induction es with
  | nil => exact .inl hm
  | cons e es ih =>
    have hlater (hm : id ∈ roster cluster (es ++ h)) :
        id ∈ h.roster cluster ∨ .inserted cluster id ∈ e :: es :=
      (ih hm).imp_right (List.mem_cons_of_mem e)
    cases e with
    | inserted c i =>
      simp only [List.cons_append, roster] at hm
      split at hm
      · rename_i hc
        subst hc
        split at hm
        · exact hlater hm
        · rcases List.mem_append.1 hm with hm | hm
          · exact hlater hm
          · rw [List.mem_singleton.1 hm]
            exact .inr List.mem_cons_self
      · exact hlater hm
    | removed c i =>
      simp only [List.cons_append, roster] at hm
      split at hm
      · exact hlater (List.mem_of_mem_erase hm)
      · exact hlater hm
    | cleared => cases hm
    | _ => exact hlater hm

theorem inserted_of_mem_roster (hm : id ∈ h.roster cluster) : .inserted cluster id ∈ h := by
  rw [← List.append_nil h] at hm
  exact (mem_roster_append hm).resolve_left List.not_mem_nil

end History

/-- The number of the service that the call registers, until it is a member. -/
def Call.number? : Call → Option Nat
  | .initialise _ id | .insert _ id => some id
  | _ => none

/-- How many numbers the next step of the call takes. -/
def Call.takes : Call → Nat
  | .takeId _ => 1
  | _ => 0

/-- The relay was fresh, and what happened since has led to the traffic. -/
inductive Recorded : History → Traffic → Prop
  | fresh : Recorded [] {}
  | step {h t a u} : Recorded h t → t.step a = some u → Recorded (t.events a ++ h) u

structure Ledger (h : History) (t : Traffic) : Prop where
  distinct : t.relay.Distinct
  members : ∀ cluster, t.relay.members cluster = h.roster cluster
  /-- A service is in one cluster, and its number was given out. -/
  inserted : ∀ {cluster id}, .inserted cluster id ∈ h →
    id < t.relay.nextId ∧ ∀ other, .inserted other id ∈ h → other = cluster
  /-- A service that is being registered has a number of its own. -/
  number : ∀ {k c id}, t.call? k = some c → c.number? = some id →
    id < t.relay.nextId ∧ (∀ cluster, .inserted cluster id ∉ h) ∧
      ∀ k' c', t.call? k' = some c' → c'.number? = some id → k' = k
  /-- A broadcast goes through each member once. -/
  walk : ∀ {k cluster m left}, t.call? k = some (.walk cluster m left) →
    left.Nodup ∧ ∀ id ∈ left, id ∈ h.roster cluster

variable {h : History} {t u : Traffic} {k k' id : Nat} {c c' : Call} {a : Traffic.Label}
  {es : History} {relay : Relay} {cluster : String} {m : Payload} {left : List Nat}

namespace Traffic

theorem not_walk_of_not_isLocked (hlocked : t.isLocked cluster = false) :
    t.call? k ≠ some (.walk cluster m left) := by
  intro hc
  obtain ⟨before, after, hcalls, -⟩ := List.lookup_eq_some_iff.1 hc
  rw [isLocked, hcalls, List.any_eq_false] at hlocked
  exact hlocked (k, .walk cluster m left) (by simp) (by simp)

/-- Where no broadcast goes through any members, none goes through these. -/
theorem isLocked_eq_false (hany : t.isAnyLocked = false) (cluster : String) :
    t.isLocked cluster = false := by
  rw [isAnyLocked, List.any_eq_false] at hany
  rw [isLocked, List.any_eq_false]
  rintro ⟨k, c⟩ hm
  cases c with
  | walk => exact absurd rfl (hany _ hm)
  | _ => exact Bool.false_ne_true

theorem not_walk_of_not_isAnyLocked (hany : t.isAnyLocked = false) :
    t.call? k ≠ some (.walk cluster m left) :=
  not_walk_of_not_isLocked (isLocked_eq_false hany cluster)

/-! ## What a step adds to the history -/

theorem events_start (t : Traffic) (k : Nat) (request : Request) :
    t.events (.start k request) = [] ∨
      ∃ cluster id, request = .unregister cluster id ∧
        t.events (.start k request) = [.leaving cluster id] := by
  cases request with
  | unregister cluster id => exact .inr ⟨cluster, id, rfl, rfl⟩
  | _ => exact .inl rfl

theorem events_finish (t : Traffic) (id : Nat) (panicked : Bool) :
    t.events (.finish id panicked) = [] ∨
      ∃ m, panicked = true ∧ t.relay.lastHandled id = some m ∧
        t.events (.finish id panicked) = [.panicked id m] := by
  cases panicked with
  | false => exact .inl rfl
  | true =>
    cases hlast : t.relay.lastHandled id with
    | none => exact .inl (by simp [events, hlast])
    | some m => exact .inr ⟨m, rfl, rfl, by simp [events, hlast]⟩

/-- Only a call that registers a service inserts it. -/
theorem Effect.inserted (he : Effect t a es u) (hin : .inserted cluster id ∈ es) :
    ∃ k, a.caller? = some k ∧ t.call? k = some (.insert cluster id) ∧
      u.call? k = some (.over (.ok (some id))) := by
  cases he with
  | @start k request =>
    rcases events_start t k request with hes | ⟨_, _, -, hes⟩ <;> rw [hes] at hin <;> simp at hin
  | @move k c a es relay c' hc hm =>
    cases hm with
    | insert =>
      simp only [List.mem_singleton, Event.inserted.injEq] at hin
      obtain ⟨rfl, rfl⟩ := hin
      exact ⟨k, rfl, hc, by rw [call?_setCall (by exact hc), if_pos rfl]⟩
    | _ => simp at hin
  | collect | take => simp at hin
  | @finish id panicked =>
    rcases events_finish t id panicked with hes | ⟨_, -, -, hes⟩ <;> rw [hes] at hin <;> simp at hin

/-! ## What a step keeps -/

theorem Moves.distinct (hm : Moves t k c a es relay c') (hd : t.relay.Distinct) :
    relay.Distinct := by
  cases hm with
  | insert => exact hd.insertMember
  | remove | removeLast => exact hd.modifyMembers _
  | sweep => exact hd.sweep
  | clear => exact List.nodup_nil
  | _ => exact hd

theorem Effect.distinct (he : Effect t a es u) (hd : t.relay.Distinct) : u.relay.Distinct := by
  cases he with
  | start | collect => exact hd
  | move _ hm => exact hm.distinct hd
  | take ht =>
    obtain ⟨e, queue, -, -, -, -, rfl⟩ := take_eq_some_iff.1 ht
    exact hd
  | finish hf =>
    obtain ⟨e, -, -, rfl⟩ := finish_eq_some_iff.1 hf
    exact hd

theorem Moves.members (hm : Moves t k c a es relay c') (hd : t.relay.Distinct)
    (hmembers : ∀ cluster, t.relay.members cluster = h.roster cluster) (cluster : String) :
    relay.members cluster = History.roster cluster (es ++ h) := by
  cases hm with
  | insert =>
    simp only [members_insertMember, hmembers, List.singleton_append, History.roster]
    simp only [eq_comm]
  | remove | removeLast =>
    simp only [members_removeMember, hmembers, List.singleton_append, History.roster]
    simp only [eq_comm]
  | sweep => exact (members_sweep hd).trans (hmembers cluster)
  | clear => rfl
  | _ => exact hmembers cluster

theorem Effect.members (he : Effect t a es u) (hd : t.relay.Distinct)
    (hmembers : ∀ cluster, t.relay.members cluster = h.roster cluster) (cluster : String) :
    u.relay.members cluster = History.roster cluster (es ++ h) := by
  cases he with
  | @start k request =>
    rcases events_start t k request with hes | ⟨_, _, -, hes⟩ <;> rw [hes] <;> exact hmembers cluster
  | move _ hm => exact hm.members hd hmembers cluster
  | collect => exact hmembers cluster
  | take ht =>
    obtain ⟨e, queue, -, -, -, -, rfl⟩ := take_eq_some_iff.1 ht
    exact hmembers cluster
  | @finish id panicked _ hf =>
    obtain ⟨e, -, -, rfl⟩ := finish_eq_some_iff.1 hf
    rcases events_finish t id panicked with hes | ⟨_, -, -, hes⟩ <;> rw [hes] <;>
      exact hmembers cluster

/-- A call takes one number at most. -/
theorem Moves.nextId_eq (hm : Moves t k c a es relay c') :
    relay.nextId = t.relay.nextId + c.takes := by
  cases hm with
  | connect | takeId => exact nextId_newEndpoint
  | insert => exact congrArg List.length endpoints_insertMember
  | enqueue | close | hangUp => exact nextId_modifyEndpoint
  | refuse hr => cases hr <;> rfl
  | _ => rfl

/-- Only a shutdown closes the relay. -/
theorem Moves.closed_eq (hm : Moves t k c a es relay c') (hne : c ≠ .shutdown) :
    relay.closed = t.relay.closed := by
  cases hm with
  | insert =>
    rw [Relay.insertMember]
    split <;> rfl
  | shutdown => exact absurd rfl hne
  | _ => rfl

theorem Effect.nextId_le (he : Effect t a es u) : t.relay.nextId ≤ u.relay.nextId := by
  cases he with
  | start | collect => exact Nat.le_refl _
  | move _ hm => exact hm.nextId_eq.symm ▸ Nat.le_add_right _ _
  | take ht =>
    obtain ⟨e, queue, -, -, -, -, rfl⟩ := take_eq_some_iff.1 ht
    simp [nextId]
  | finish hf =>
    obtain ⟨e, -, -, rfl⟩ := finish_eq_some_iff.1 hf
    simp [nextId]

/-- A call that registers a service keeps the number it has taken. -/
theorem Moves.number? (hm : Moves t k c a es relay c') (hid : c'.number? = some id) :
    es = [] ∧ (c.number? = some id ∨ (id = t.relay.nextId ∧ relay.nextId = t.relay.nextId + 1)) := by
  cases hm with
  | takeId => exact ⟨rfl, .inr ⟨(Option.some.inj hid).symm, nextId_newEndpoint⟩⟩
  | initialise => exact ⟨rfl, .inl hid⟩
  | _ => cases hid

/-- While a broadcast goes through the members of a cluster, they stay. -/
theorem Moves.roster_eq (hm : Moves t k c a es relay c')
    (hwalk : t.call? k' = some (.walk cluster m left)) :
    History.roster cluster (es ++ h) = h.roster cluster := by
  have hne {other : String} (hlocked : t.isLocked other = false) : other ≠ cluster :=
    fun heq => not_walk_of_not_isLocked hlocked (heq ▸ hwalk)
  cases hm with
  | insert hlocked | remove hlocked | removeLast hlocked => simp [hne hlocked]
  | clear hlocked => exact absurd hwalk (not_walk_of_not_isAnyLocked hlocked)
  | _ => rfl

theorem Effect.roster_eq (he : Effect t a es u)
    (hwalk : t.call? k' = some (.walk cluster m left)) :
    History.roster cluster (es ++ h) = h.roster cluster := by
  cases he with
  | @start k request =>
    rcases events_start t k request with hes | ⟨_, _, -, hes⟩ <;> rw [hes] <;> rfl
  | move _ hm => exact hm.roster_eq hwalk
  | collect | take => rfl
  | @finish id panicked =>
    rcases events_finish t id panicked with hes | ⟨_, -, -, hes⟩ <;> rw [hes] <;> rfl

/-- A call that has a number had it before, or takes the next one. -/
theorem Effect.number? (he : Effect t a es u) (hc : u.call? k = some c)
    (hid : c.number? = some id) :
    (∃ c₀, t.call? k = some c₀ ∧ c₀.number? = some id) ∨
      (es = [] ∧ a.caller? = some k ∧ id = t.relay.nextId ∧
        u.relay.nextId = t.relay.nextId + 1) := by
  have hturn := he.turn k
  rw [hc] at hturn
  generalize t.call? k = before, u.relay = relay at hturn
  cases hturn with
  | @start request _ hcall =>
    subst hcall
    cases request <;> cases hid
  | rest => exact .inl ⟨c, rfl, hid⟩
  | @move c₀ _ _ _ _ hm =>
    obtain ⟨hes, hnumber | ⟨rfl, hnext⟩⟩ := hm.number? hid
    · exact .inl ⟨c₀, rfl, hnumber⟩
    · exact .inr ⟨hes, hm.caller?, rfl, hnext⟩

end Traffic

/-! ## The ledger -/

section
variable (hl : Ledger h t) (he : t.Effect a es u)
include hl he

theorem Ledger.inserted_step (hin : .inserted cluster id ∈ es ++ h) :
    id < u.relay.nextId ∧ ∀ other, .inserted other id ∈ es ++ h → other = cluster := by
  have hle := he.nextId_le
  -- what is inserted in this step was never inserted before
  have hnew {cluster : String} (hin : .inserted cluster id ∈ es) : id < t.relay.nextId ∧
      ∀ other, .inserted other id ∉ h := by
    obtain ⟨k, -, hc, -⟩ := he.inserted hin
    obtain ⟨hlt, hnot, -⟩ := hl.number hc rfl
    exact ⟨hlt, hnot⟩
  rcases List.mem_append.1 hin with hin | hin
  · obtain ⟨hlt, hnot⟩ := hnew hin
    refine ⟨Nat.lt_of_lt_of_le hlt hle, fun other hother => ?_⟩
    rcases List.mem_append.1 hother with hother | hother
    · obtain ⟨k, hk, hc, -⟩ := he.inserted hin
      obtain ⟨k', hk', hc', -⟩ := he.inserted hother
      obtain rfl := Option.some.inj (hk.symm.trans hk')
      rw [hc] at hc'
      cases hc'
      rfl
    · exact absurd hother (hnot other)
  · obtain ⟨hlt, hone⟩ := hl.inserted hin
    refine ⟨Nat.lt_of_lt_of_le hlt hle, fun other hother => ?_⟩
    rcases List.mem_append.1 hother with hother | hother
    · exact absurd hin ((hnew hother).2 cluster)
    · exact hone other hother

theorem Ledger.number_step (hc : u.call? k = some c) (hid : c.number? = some id) :
    id < u.relay.nextId ∧ (∀ cluster, .inserted cluster id ∉ es ++ h) ∧
      ∀ k' c', u.call? k' = some c' → c'.number? = some id → k' = k := by
  have hle := he.nextId_le
  rcases he.number? hc hid with ⟨c₀, hc₀, hid₀⟩ | ⟨rfl, hk, rfl, hnext⟩
  · obtain ⟨hlt, hnot, hone⟩ := hl.number hc₀ hid₀
    refine ⟨Nat.lt_of_lt_of_le hlt hle, fun cluster hin => ?_, fun k' c' hc' hid' => ?_⟩
    · rcases List.mem_append.1 hin with hin | hin
      · -- the call that inserted it has no number any more
        obtain ⟨k', -, hc', hover⟩ := he.inserted hin
        obtain rfl := hone k' _ hc' rfl
        rw [hc] at hover
        cases hover
        cases hid
      · exact hnot cluster hin
    · rcases he.number? hc' hid' with ⟨c₁, hc₁, hid₁⟩ | ⟨-, -, rfl, -⟩
      · exact hone k' c₁ hc₁ hid₁
      · exact absurd hlt (Nat.lt_irrefl _)
  · refine ⟨hnext ▸ Nat.lt_succ_self _, fun cluster hin => ?_, fun k' c' hc' hid' => ?_⟩
    · exact absurd (hl.inserted hin).1 (Nat.lt_irrefl _)
    · rcases he.number? hc' hid' with ⟨c₁, hc₁, hid₁⟩ | ⟨-, hk', -, -⟩
      · exact absurd (hl.number hc₁ hid₁).1 (Nat.lt_irrefl _)
      · exact Option.some.inj (hk'.symm.trans hk)

theorem Ledger.walk_step (hc : u.call? k = some (.walk cluster m left)) :
    left.Nodup ∧ ∀ id ∈ left, id ∈ History.roster cluster (es ++ h) := by
  have hturn := he.turn k
  rw [hc] at hturn
  generalize hbefore : t.call? k = before, u.relay = relay at hturn
  cases hturn with
  | @start request _ hcall => cases request <;> cases hcall
  | rest =>
    obtain ⟨hnodup, hmem⟩ := hl.walk hbefore
    exact ⟨hnodup, fun id hid => he.roster_eq (h := h) hbefore ▸ hmem id hid⟩
  | move hm =>
    cases hm with
    | lock =>
      rw [hl.members]
      exact ⟨History.nodup_roster _ _, fun id hid => hid⟩
    | enqueue =>
      obtain ⟨hnodup, hmem⟩ := hl.walk hbefore
      exact ⟨hnodup.erase _, fun id hid => hmem id (List.mem_of_mem_erase hid)⟩

theorem Ledger.step : Ledger (es ++ h) u where
  distinct := he.distinct hl.distinct
  members := he.members hl.distinct hl.members
  inserted := hl.inserted_step he
  number := hl.number_step he
  walk := hl.walk_step he

end

theorem ledger_fresh : Ledger [] {} where
  distinct := List.nodup_nil
  members _ := rfl
  inserted := nofun
  number := nofun
  walk := nofun

theorem Recorded.ledger (hr : Recorded h t) : Ledger h t := by
  induction hr with
  | fresh => exact ledger_fresh
  | step _ hs ih => exact ih.step (Traffic.effect_of_step hs)

/-- What every step keeps holds of all traffic with its history. -/
theorem Recorded.invariant {P : History → Traffic → Prop} (hr : Recorded h t) (hfresh : P [] {})
    (hstep : ∀ {h t a es u}, Ledger h t → Ledger (es ++ h) u → P h t → t.Effect a es u →
      P (es ++ h) u) : P h t := by
  induction hr with
  | fresh => exact hfresh
  | step hr hs ih =>
    have he := Traffic.effect_of_step hs
    exact hstep hr.ledger (hr.ledger.step he) ih he

end Lockstep.Relay
