import Lockstep.Proofs.Relay.Delivery
import Lockstep.Proofs.Scenario.Places

/-!
# What the members of the cluster are sent in a scenario

Nobody begins to broadcast before all servers are members, and nobody is removed before all
broadcasts are over: in the first phase nothing was begun (`Relayed.begun_eq_zero`), and in the last
everything is over (`Relayed.begun_eq`, `Relayed.awaited_eq_nil`). So each member is sent the messages
that were begun since the scenario began (`Sent`), and in the last phase the expected ones have
arrived, each once (`Relayed.arrived_perm`).
-/

set_option autoImplicit false

namespace Lockstep.Scenario

open Barrier History
open Relay (Line Call Traffic)

/-- The first `i` messages of the participant `k`, as they are broadcast. -/
def Config.spoken (c : Config) (k i : Nat) : List (Nat × Payload) :=
  (List.range i).map fun j => (k, c.said k j)

/-- The messages of all participants. -/
def Config.allSpoken (c : Config) : List (Nat × Payload) :=
  (List.range (c.clients + c.servers)).flatMap fun k => c.spoken k c.messages

/-- What the members were sent since the scenario began, with the history `H₀`. -/
structure Sent (c : Config) (cluster : String) (H₀ H : Relay.History) (spots : Nat → Spot) :
    Prop where
  added : ∃ E, H = E ++ H₀ ∧ ∀ id m, .panicked id m ∉ E
  sent : ∀ id ∈ H.roster cluster, ∀ k, (H.sent cluster id).filter (·.1 == k) =
    (H₀.sent cluster id).filter (·.1 == k) ++ c.spoken k (spots k).begun

variable {closed : Bool} {c : Config} {cluster : String} {h : History ParticipantError}
  {H₀ H rs : Relay.History} {spots : Nat → Spot} {r : Run Line} {l : Line} {p k n id i conn : Nat}
  {party : Party} {stage : Stage} {call : Option Call} {spot spot' : Spot} {relay : Relay}
  {handlers : List (Nat × Nat)} {u v : Traffic} {b : Barrier ParticipantError} {m : Payload}

/-! ## The messages -/

theorem spoken_succ (c : Config) (k i : Nat) :
    c.spoken k (i + 1) = c.spoken k i ++ [(k, c.said k i)] := by
  rw [Config.spoken, List.range_succ, List.map_append]
  rfl

theorem filter_spoken (c : Config) (k i j : Nat) :
    (c.spoken k i).filter (·.1 == j) = if j = k then c.spoken k i else [] := by
  split
  · rename_i hj
    subst hj
    exact List.filter_eq_self.2 (by simp [Config.spoken])
  · rename_i hj
    exact List.filter_eq_nil_iff.2 (by simp [Config.spoken, Ne.symm hj])

theorem filter_allSpoken (c : Config) (k : Nat) : c.allSpoken.filter (·.1 == k) =
    if k < c.clients + c.servers then c.spoken k c.messages else [] := by
  have hall (n : Nat) : ((List.range n).flatMap fun j => c.spoken j c.messages).filter (·.1 == k) =
      if k < n then c.spoken k c.messages else [] := by
    induction n with
    | zero => rfl
    | succ n ih =>
      rw [List.range_succ, List.flatMap_append, List.filter_append, ih, List.flatMap_singleton,
        filter_spoken]
      rcases Nat.lt_trichotomy k n with hlt | rfl | hgt
      · rw [if_pos hlt, if_neg (by omega), if_pos (by omega), List.append_nil]
      · rw [if_neg (by omega), if_pos rfl, if_pos (by omega), List.nil_append]
      · rw [if_neg (by omega), if_neg (by omega), if_neg (by omega), List.append_nil]
  exact hall _

theorem said_of_party (hparty : (Run.parties c)[k]?.map (·.party) = some party) (i : Nat) :
    c.said k i = Message.bytes ⟨party, i⟩ := by
  obtain ⟨x, hx, rfl⟩ := Option.map_eq_some_iff.1 hparty
  rw [Config.said, hx]

/-- The messages of all participants are the expected ones. -/
theorem map_allSpoken (c : Config) : c.allSpoken.map (·.2) = c.expected.map Message.bytes := by
  have hspoken {k : Nat} {party : Party}
      (hparty : (Run.parties c)[k]?.map (·.party) = some party) :
      (c.spoken k c.messages).map (·.2) = (c.messagesOf party).map Message.bytes := by
    simp only [Config.spoken, Config.messagesOf, List.map_map]
    exact List.map_congr_left fun i _ => said_of_party hparty i
  have hclient (i : Nat) (hi : i ∈ List.range c.clients) :
      (c.spoken i c.messages).map (·.2) = (c.messagesOf (.client i)).map Message.bytes := by
    refine hspoken ?_
    rw [Run.parties, List.getElem?_append_left (by simpa using hi)]
    simp [List.mem_range.1 hi]
  have hserver (j : Nat) (hj : j ∈ List.range c.servers) :
      (c.spoken (c.clients + j) c.messages).map (·.2) =
        (c.messagesOf (.server j)).map Message.bytes := by
    refine hspoken ?_
    simp [Run.parties, List.mem_range.1 hj]
  rw [Config.allSpoken, Config.expected, List.range_add, List.flatMap_append, List.map_append,
    List.map_append, List.flatMap_map]
  simp only [List.map_flatMap]
  rw [List.flatMap_congr hclient, List.flatMap_congr hserver]

/-! ## What a step sends -/

theorem Shift.begun (hs : Shift c cluster l k rs relay handlers spot spot') :
    (spot'.begun = spot.begun ∧ ∀ j cluster m, .began j cluster m ∉ rs) ∨
      (spot'.begun = spot.begun + 1 ∧ rs = [.began k cluster (c.said k spot.begun)]) := by
  cases hs with
  | calm hcalm =>
    refine .inl ⟨rfl, fun j cluster m hm => ?_⟩
    have hquiet := hcalm.quiet _ hm
    cases hquiet
  | begin => exact .inr ⟨rfl, rfl⟩
  | _ => exact .inl ⟨rfl, by simp⟩

theorem Flow.not_panicked (hf : Flow u rs v) : .panicked id m ∉ rs := by
  cases hf with
  | same => exact List.not_mem_nil
  | @step a _ hs hne =>
    cases a with
    | start k request =>
      rcases Traffic.events_start u k request with hes | ⟨_, _, -, hes⟩ <;> rw [hes] <;> simp
    | finish i panicked =>
      cases panicked with
      | false => exact List.not_mem_nil
      | true => exact absurd rfl (hne i)
    | advance k =>
      simp only [Traffic.events]
      cases u.call? k with
      | none => exact List.not_mem_nil
      | some c => cases c <;> simp [Relay.Call.events]
    | enqueue k i =>
      simp only [Traffic.events]
      split <;> simp
    | initialised | collect | take => exact List.not_mem_nil

/-- Where somebody becomes a member, nothing was begun. -/
theorem Sent.step (hsent : Sent c cluster H₀ H spots)
    (hs : Shift c cluster l k rs relay handlers (spots k) spot) (hf : Flow u rs v)
    (hfresh : ∀ id, (spots k).place = .ready id →
      .inserted cluster id ∉ H ∧ ∀ p, (spots p).begun = 0) :
    Sent c cluster H₀ (rs ++ H) (Function.update spots k spot) where
  added := by
    obtain ⟨E, rfl, hE⟩ := hsent.added
    refine ⟨rs ++ E, (List.append_assoc _ _ _).symm, fun id m hm => ?_⟩
    exact (List.mem_append.1 hm).elim hf.not_panicked (hE id m)
  sent id hm j := by
    rcases hs.begun with ⟨hsame, hno⟩ | ⟨hnext, rfl⟩
    · have hbegun : (Function.update spots k spot j).begun = (spots j).begun := by
        by_cases hj : j = k
        · subst hj
          rwa [Function.update_self]
        · rw [Function.update_of_ne hj]
      rw [Relay.History.sent_append_of_not_began hno, hbegun]
      rcases hs.mem_roster.1 hm with ⟨hm, -⟩ | ⟨hready, -⟩
      · exact hsent.sent id hm j
      · -- who becomes a member in this step was sent nothing so far, and nothing was begun
        obtain ⟨hnot, hzero⟩ := hfresh id hready
        obtain ⟨E, rfl, -⟩ := hsent.added
        rw [Relay.History.sent_eq_nil hnot, hzero j,
          Relay.History.sent_eq_nil (mt (List.mem_append_right E) hnot)]
        rfl
    · have hm : id ∈ H.roster cluster := hm
      rw [List.singleton_append, Relay.History.sent, if_pos ⟨rfl, hm⟩, List.filter_append,
        hsent.sent id hm j]
      by_cases hj : j = k
      · subst hj
        rw [Function.update_self, hnext, spoken_succ, List.append_assoc]
        simp
      · rw [Function.update_of_ne hj]
        simp [Ne.symm hj]

/-! ## The phases -/

section
variable (hf : Fits h p stage) (hon : OnLine closed c cluster h p party conn stage call spot)
include hf hon

theorem OnLine.phase_of_ready (hplace : spot.place = .ready id) : h.phase = 0 := by
  have hup : party.up conn ≠ .ready id := by cases party <;> nofun
  have hdown : party.down conn ≠ .ready id := by cases party <;> nofun
  have hleaves {error spot} (hl : Leaves closed c h p party conn error spot) :
      spot.place ≠ .ready id := by
    cases hl with
    | well => exact hdown
    | refused => nofun
  cases hon with
  | entering => exact (hf.of_going rfl).2.2
  | enter => cases hplace
  | arrive | blocked | send | sending | verify | depart => exact absurd hplace hup
  | departing _ hd =>
    cases hd with
    | done => exact absurd hplace hdown
    | _ => cases hplace
  | finish hl | ended hl => exact absurd hplace (hleaves hl)

variable (hp : Pace n h b)
include hp

theorem OnLine.begun_eq_zero (hphase : h.phase = 0) : spot.begun = 0 := by
  have hleaves {error spot} (hl : Leaves closed c h p party conn error spot) : spot.begun = 0 := by
    cases hl with
    | well _ hle => omega
    | refused => rfl
  cases hon with
  | enter | entering => rfl
  | @arrive first =>
    cases first with
    | true => rfl
    | false =>
      have hw : h.phase = 1 := (hf.of_going rfl).2.2
      omega
  | @blocked first j =>
    cases first with
    | true => rfl
    | false =>
      obtain ⟨-, hsyncs, hj⟩ := hf.of_blocked
      have hle := hp.syncs_le p
      simp only [Bool.false_eq_true, if_false] at hj
      omega
  | send | sending =>
    have hw : h.phase = 1 := (hf.of_going rfl).2.2
    omega
  | verify =>
    have hw : h.phase = 2 := (hf.of_going rfl).2.2
    omega
  | depart =>
    have hw : h.phase = 2 := (hf.of_going rfl).2.2.1
    omega
  | departing =>
    have hw : h.phase = 2 := (hf.of_going rfl).2.2
    omega
  | finish hl | ended hl => exact hleaves hl

/-- In the last phase a participant has broadcast all of its messages. -/
theorem OnLine.begun_eq (hopen : closed = false) (hphase : 2 ≤ h.phase) (hlt : p < n) :
    spot.begun = c.messages ∧ ∀ m left, call ≠ some (.walk cluster m left) := by
  subst hopen
  have hleaves {error spot} (hl : Leaves false c h p party conn error spot) :
      spot.begun = c.messages := by
    cases hl with
    | well => rfl
    | refused hclosed => cases hclosed
  cases hon with
  | enter | entering =>
    have hw : h.phase = 0 := (hf.of_going rfl).2.2
    omega
  | @arrive first =>
    have hw := (hf.of_going rfl).2.2
    cases first with
    | true =>
      have hw : h.phase = 0 := hw
      omega
    | false => exact ⟨rfl, nofun⟩
  | @blocked first j =>
    cases first with
    | true =>
      obtain ⟨hnx, hsyncs, hj⟩ := hf.of_blocked
      have hle := hp.phase_le p hlt hnx
      simp only [if_true] at hj
      omega
    | false => exact ⟨rfl, nofun⟩
  | send | sending =>
    have hw : h.phase = 1 := (hf.of_going rfl).2.2
    omega
  | verify | depart => exact ⟨rfl, nofun⟩
  | departing _ hd =>
    refine ⟨rfl, fun m left heq => ?_⟩
    cases heq
    cases hd
  | finish hl | ended hl => exact ⟨hleaves hl, nofun⟩

end

section
variable (hr : Relayed closed c cluster h H spots r)
include hr

theorem Relayed.begun_eq_zero (hphase : h.phase = 0) (p : Nat) : (spots p).begun = 0 := by
  by_cases hlt : p < c.clients + c.servers
  · obtain ⟨x, hx⟩ := hr.tracked.exists_participant hlt
    exact (hr.onLine p x hx).begun_eq_zero (hr.tracked.fits p x hx) hr.tracked.recorded.pace hphase
  · rw [hr.outside p (Nat.le_of_not_lt hlt)]

/-- Who is about to become a member is in the first phase. -/
theorem Relayed.phase_of_ready (hplace : (spots p).place = .ready id) : h.phase = 0 := by
  have hlt : p < c.clients + c.servers := by
    refine Nat.lt_of_not_le fun hle => ?_
    rw [hr.outside p hle] at hplace
    cases hplace
  obtain ⟨x, hx⟩ := hr.tracked.exists_participant hlt
  exact (hr.onLine p x hx).phase_of_ready (hr.tracked.fits p x hx) hplace

variable (hopen : closed = false) (hphase : 2 ≤ h.phase)
include hopen hphase

theorem Relayed.begun_eq (hlt : p < c.clients + c.servers) : (spots p).begun = c.messages := by
  obtain ⟨x, hx⟩ := hr.tracked.exists_participant hlt
  exact ((hr.onLine p x hx).begun_eq (hr.tracked.fits p x hx) hr.tracked.recorded.pace hopen hphase
    hlt).1

theorem Relayed.awaited_eq_nil (id k : Nat) : r.medium.traffic.awaited cluster id k = [] := by
  refine Relay.awaited_eq_nil fun m left hc => ?_
  have hlt := hr.lt_of_call hc
  obtain ⟨x, hx⟩ := hr.tracked.exists_participant hlt
  exact absurd hc (((hr.onLine k x hx).begun_eq (hr.tracked.fits k x hx) hr.tracked.recorded.pace
    hopen hphase hlt).2 m left)

/-- **In the last phase each member has what it was sent before, and the expected messages.** -/
theorem Relayed.arrived_perm (hsent : Sent c cluster H₀ H spots) (hm : id ∈ H.roster cluster) :
    (H.arrived id).Perm (H₀.sent cluster id ++ c.allSpoken) := by
  refine (hr.recorded.perm_of_awaited (Relay.History.inserted_of_mem_roster hm)
    (hr.awaited_eq_nil hopen hphase id)).trans ?_
  refine Relay.perm_of_filter_eq fun k => ?_
  rw [hsent.sent id hm k, List.filter_append, filter_allSpoken]
  split
  · rename_i hlt
    rw [hr.begun_eq hopen hphase hlt]
  · rename_i hle
    rw [hr.outside k (Nat.le_of_not_lt hle)]
    rfl

end

end Lockstep.Scenario
